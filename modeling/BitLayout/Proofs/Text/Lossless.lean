import BitLayout.Text.Encoding
import BitLayout.Proofs.Outcome
import Mathlib.Tactic.SplitIfs

/-!
# Encodings that give back what they read

In an encoding without a signature every code point has one spelling, the one that is read. A byte
string that spells a text is then the encoding of that text. An encoding that writes a signature or a
mark but reads texts without one too is different.

## Main definitions

* `CodePointStep.IsSpelledBy`: code points are spelled as they are read
* `Encoding.isPlain`: encodings without a signature or a mark
* `EncodingName.Lossless`: texts encode to the bytes that they were decoded from

## Main results

* `encodeBy_of_decodeBy`: from one code point to texts
* `Encoding.encode_of_decode`: plain encodings lose nothing
* `EncodingName.lossless_iff`: no other ones do
-/

namespace BitLayout

/-- A code point that is read has the spelling that it was read from. -/
def CodePointStep.IsSpelledBy (step : UInt8 → List UInt8 → CodePointStep)
    (spell? : CodePoint → Option (List UInt8)) : Prop :=
  ∀ {b rest c extra}, step b rest = .char c extra → spell? c = some (b :: rest.take extra)

/-- A text that is read code point by code point has the spelling that it was read from. -/
theorem encodeBy_of_decodeBy {codec codec' : Text} {step : UInt8 → List UInt8 → CodePointStep}
    {spell? : CodePoint → Option (List UInt8)} (spelled : CodePointStep.IsSpelledBy step spell?)
    {reason : EncodeReason} {reach : FaultReach} {skip position place : Nat} {bytes : List UInt8}
    {t : Text} (read : decodeBy codec step skip position bytes = .ok t) :
    encodeBy codec' reason reach spell? place t = .ok (bytes.drop skip) := by
  -- Along the bytes: all but the first one of a code point are skipped, and spelled by that one.
  induction bytes generalizing skip position place t with
  | nil =>
    cases read
    rw [List.drop_nil, encodeBy]
  | cons b rest ih =>
    cases skip with
    | succ skip => exact ih read
    | zero =>
      rw [decodeBy] at read
      cases first : step b rest with
      | char c extra =>
        rw [first] at read
        obtain ⟨others, read_others, rfl⟩ := map_eq_ok_iff.mp read
        simp only [encodeBy, spelled first, ih read_others]
        simp [Functor.map, Except.map]
      | fault length reason =>
        rw [first] at read
        cases read

private theorem byte_eq {n : Nat} {b : UInt8} (same : n % 256 = b.toNat) : UInt8.ofNat n = b :=
  UInt8.toNat_inj.mp (by simpa using same)

theorem CodePoint.toNat_ofNat {n : Nat} (small : n < 0x110000) : (CodePoint.ofNat n).toNat = n :=
  Nat.mod_eq_of_lt small

section SingleByte

/-- With one byte for each code point it is enough to look at single bytes. -/
theorem SingleByte.isSpelledBy {char? : UInt8 → Option CodePoint} {reason : DecodeReason}
    {spell? : CodePoint → Option (List UInt8)}
    (spelled : ∀ b c, char? b = some c → spell? c = some [b]) :
    CodePointStep.IsSpelledBy (step char? reason) spell? := by
  intro b rest c extra read
  rw [step] at read
  cases first : char? b with
  | none =>
    rw [first] at read
    cases read
  | some c' =>
    rw [first] at read
    cases read
    rw [List.take_zero, spelled b c first]

theorem Ascii.spell?_of_char? (b : UInt8) (c : CodePoint) (read : char? b = some c) :
    spell? c = some [b] := by
  rw [char?] at read
  split_ifs at read with small
  cases read
  rw [spell?, if_pos (by simpa [CodePoint.ofByte] using small)]
  simp [CodePoint.ofByte]

theorem Latin1.spell?_of_char? (b : UInt8) (c : CodePoint) (read : char? b = some c) :
    spell? c = some [b] := by
  cases read
  rw [spell?, if_pos (by simpa [CodePoint.ofByte] using b.toNat_lt)]
  simp [CodePoint.ofByte]

-- The table has no rule behind it, so each of its rows is looked at.
private theorem codePage1252_table : ∀ n < 256,
    (CodePage1252.char? (UInt8.ofNat n)).all fun c =>
      CodePage1252.spell? c = some [UInt8.ofNat n] := by
  decide +kernel

theorem CodePage1252.spell?_of_char? (b : UInt8) (c : CodePoint) (read : char? b = some c) :
    spell? c = some [b] := by
  have row := codePage1252_table b.toNat b.toNat_lt
  rw [UInt8.ofNat_toNat, read, Option.all_some, decide_eq_true_eq] at row
  exact row

end SingleByte

namespace Utf8

theorem continuation_zero (low high value taken : Nat) (rest : List UInt8) :
    continuation 0 low high value taken rest = .char (.ofNat value) (taken - 1) := by
  cases rest <;> rfl

/-- Another byte is read if it lies between the bounds. -/
theorem continuation_succ {need low high value taken extra : Nat} {rest : List UInt8}
    {c : CodePoint} (read : continuation (need + 1) low high value taken rest = .char c extra) :
    ∃ b rest', rest = b :: rest' ∧ (low ≤ b.toNat ∧ b.toNat ≤ high) ∧
      continuation need 0x80 0xBF (64 * value + (b.toNat - 0x80)) (taken + 1) rest' =
        .char c extra := by
  cases rest with
  | nil => cases read
  | cons b rest' =>
    rw [continuation, if_neg (Nat.succ_ne_zero need)] at read
    split_ifs at read with inside
    rw [Bool.and_eq_true, decide_eq_true_eq, decide_eq_true_eq] at inside
    exact ⟨b, rest', rfl, inside, read⟩

private theorem spell?_one {b : UInt8} (lead : b.toNat < 0x80) :
    spell? (.ofByte b) = some [b] := by
  have number : (CodePoint.ofByte b).toNat = b.toNat := rfl
  rw [spell?, CodePoint.isSurrogate, number, if_neg (by simp; omega), if_pos lead,
    UInt8.ofNat_toNat]

private theorem spell?_two {b b₁ : UInt8} (lead : 0xC2 ≤ b.toNat ∧ b.toNat < 0xE0)
    (bounds : 0x80 ≤ b₁.toNat ∧ b₁.toNat ≤ 0xBF) :
    spell? (.ofNat (64 * (b.toNat - 0xC0) + (b₁.toNat - 0x80))) = some [b, b₁] := by
  obtain ⟨n, n_eq⟩ : ∃ n, n = 64 * (b.toNat - 0xC0) + (b₁.toNat - 0x80) := ⟨_, rfl⟩
  have number : (CodePoint.ofNat n).toNat = n := CodePoint.toNat_ofNat (by omega)
  have first : UInt8.ofNat (0xC0 + (n >>> 6)) = b := byte_eq (by omega)
  have second : UInt8.ofNat (0x80 + (n >>> (6 * 0)) % 64) = b₁ := byte_eq (by omega)
  rw [← n_eq, spell?, CodePoint.isSurrogate, number, if_neg (by simp; omega), if_neg (by omega),
    if_pos (by omega), first]
  dsimp only
  rw [second]

private theorem spell?_three {b b₁ b₂ : UInt8} (lead : 0xE0 ≤ b.toNat ∧ b.toNat < 0xF0)
    (bounds₁ : (if b.toNat = 0xE0 then 0xA0 else 0x80) ≤ b₁.toNat ∧
      b₁.toNat ≤ (if b.toNat = 0xED then 0x9F else 0xBF))
    (bounds₂ : 0x80 ≤ b₂.toNat ∧ b₂.toNat ≤ 0xBF) :
    spell? (.ofNat (64 * (64 * (b.toNat - 0xE0) + (b₁.toNat - 0x80)) + (b₂.toNat - 0x80))) =
      some [b, b₁, b₂] := by
  obtain ⟨n, n_eq⟩ :
    ∃ n, n = 64 * (64 * (b.toNat - 0xE0) + (b₁.toNat - 0x80)) + (b₂.toNat - 0x80) := ⟨_, rfl⟩
  -- The bounds on the second byte keep out what two bytes spell, and the surrogates.
  have low : 0x80 ≤ b₁.toNat ∧ b₁.toNat ≤ 0xBF := by split_ifs at bounds₁ <;> omega
  have overlong : 0x800 ≤ n := by split_ifs at bounds₁ <;> omega
  have apart : ¬(0xD800 ≤ n ∧ n < 0xE000) := by split_ifs at bounds₁ <;> omega
  have number : (CodePoint.ofNat n).toNat = n := CodePoint.toNat_ofNat (by omega)
  have first : UInt8.ofNat (0xE0 + (n >>> 12)) = b := byte_eq (by omega)
  have second : UInt8.ofNat (0x80 + (n >>> (6 * 1)) % 64) = b₁ := byte_eq (by omega)
  have third : UInt8.ofNat (0x80 + (n >>> (6 * 0)) % 64) = b₂ := byte_eq (by omega)
  rw [← n_eq, spell?, CodePoint.isSurrogate, number, if_neg (by simpa using apart),
    if_neg (by omega), if_neg (by omega), if_pos (by omega), first]
  dsimp only
  rw [second, third]

private theorem spell?_four {b b₁ b₂ b₃ : UInt8} (lead : 0xF0 ≤ b.toNat ∧ b.toNat < 0xF5)
    (bounds₁ : (if b.toNat = 0xF0 then 0x90 else 0x80) ≤ b₁.toNat ∧
      b₁.toNat ≤ (if b.toNat = 0xF4 then 0x8F else 0xBF))
    (bounds₂ : 0x80 ≤ b₂.toNat ∧ b₂.toNat ≤ 0xBF) (bounds₃ : 0x80 ≤ b₃.toNat ∧ b₃.toNat ≤ 0xBF) :
    spell? (.ofNat (64 * (64 * (64 * (b.toNat - 0xF0) + (b₁.toNat - 0x80)) + (b₂.toNat - 0x80)) +
      (b₃.toNat - 0x80))) = some [b, b₁, b₂, b₃] := by
  obtain ⟨n, n_eq⟩ : ∃ n, n = 64 * (64 * (64 * (b.toNat - 0xF0) + (b₁.toNat - 0x80)) +
    (b₂.toNat - 0x80)) + (b₃.toNat - 0x80) := ⟨_, rfl⟩
  -- The bounds on the second byte keep out what three bytes spell, and what is no code point.
  have low : 0x80 ≤ b₁.toNat ∧ b₁.toNat ≤ 0xBF := by split_ifs at bounds₁ <;> omega
  have overlong : 0x10000 ≤ n := by split_ifs at bounds₁ <;> omega
  have small : n < 0x110000 := by split_ifs at bounds₁ <;> omega
  have number : (CodePoint.ofNat n).toNat = n := CodePoint.toNat_ofNat small
  have first : UInt8.ofNat (0xF0 + (n >>> 18)) = b := byte_eq (by omega)
  have second : UInt8.ofNat (0x80 + (n >>> (6 * 2)) % 64) = b₁ := byte_eq (by omega)
  have third : UInt8.ofNat (0x80 + (n >>> (6 * 1)) % 64) = b₂ := byte_eq (by omega)
  have fourth : UInt8.ofNat (0x80 + (n >>> (6 * 0)) % 64) = b₃ := byte_eq (by omega)
  rw [← n_eq, spell?, CodePoint.isSurrogate, number, if_neg (by simp; omega), if_neg (by omega),
    if_neg (by omega), if_neg (by omega), first]
  dsimp only
  rw [second, third, fourth]

theorem isSpelledBy : CodePointStep.IsSpelledBy step spell? := by
  intro b rest c extra read
  rw [step] at read
  -- The first byte says how many bytes the code point has.
  by_cases one : b.toNat < 0x80
  · rw [if_pos one] at read
    obtain ⟨rfl, rfl⟩ := CodePointStep.char.inj read
    exact spell?_one one
  rw [if_neg one] at read
  by_cases stray : b.toNat < 0xC2
  · rw [if_pos stray] at read
    cases read
  rw [if_neg stray] at read
  by_cases two : b.toNat < 0xE0
  · rw [if_pos two] at read
    obtain ⟨b₁, rest₁, rfl, bounds₁, read⟩ := continuation_succ read
    rw [continuation_zero] at read
    obtain ⟨rfl, rfl⟩ := CodePointStep.char.inj read
    exact spell?_two ⟨by omega, two⟩ bounds₁
  rw [if_neg two] at read
  by_cases three : b.toNat < 0xF0
  · rw [if_pos three] at read
    obtain ⟨b₁, rest₁, rfl, bounds₁, read⟩ := continuation_succ read
    obtain ⟨b₂, rest₂, rfl, bounds₂, read⟩ := continuation_succ read
    rw [continuation_zero] at read
    obtain ⟨rfl, rfl⟩ := CodePointStep.char.inj read
    exact spell?_three ⟨by omega, three⟩ bounds₁ bounds₂
  rw [if_neg three] at read
  by_cases four : b.toNat < 0xF5
  · rw [if_pos four] at read
    obtain ⟨b₁, rest₁, rfl, bounds₁, read⟩ := continuation_succ read
    obtain ⟨b₂, rest₂, rfl, bounds₂, read⟩ := continuation_succ read
    obtain ⟨b₃, rest₃, rfl, bounds₃, read⟩ := continuation_succ read
    rw [continuation_zero] at read
    obtain ⟨rfl, rfl⟩ := CodePointStep.char.inj read
    exact spell?_four ⟨by omega, four⟩ bounds₁ bounds₂ bounds₃
  · rw [if_neg four] at read
    cases read

end Utf8

namespace Utf16

variable {order : ByteOrder}

theorem unit_lt (order : ByteOrder) (a b : UInt8) : unit order a b < 0x10000 := by
  have first := a.toNat_lt
  have second := b.toNat_lt
  cases order <;> simp only [unit] <;> omega

theorem bytesOfUnit_unit (order : ByteOrder) (a b : UInt8) :
    bytesOfUnit order (unit order a b) = [a, b] := by
  have first := a.toNat_lt
  have second := b.toNat_lt
  cases order with
  | little =>
    simp only [bytesOfUnit, unit]
    rw [byte_eq (b := a) (by omega), byte_eq (b := b) (by omega)]
  | big =>
    simp only [bytesOfUnit, unit]
    rw [byte_eq (b := a) (by omega), byte_eq (b := b) (by omega)]

private theorem toNat_unit (order : ByteOrder) (a b : UInt8) :
    (CodePoint.ofNat (unit order a b)).toNat = unit order a b :=
  CodePoint.toNat_ofNat (Nat.lt_trans (unit_lt order a b) (by decide))

/-- A unit that is no surrogate is spelled by its two bytes. -/
private theorem spell?_unit {a b : UInt8}
    (notLow : (CodePoint.ofNat (unit order a b)).isLowSurrogate = false)
    (notHigh : (CodePoint.ofNat (unit order a b)).isHighSurrogate = false) :
    spell? order (.ofNat (unit order a b)) = some [a, b] := by
  have small := unit_lt order a b
  simp only [CodePoint.isLowSurrogate, CodePoint.isHighSurrogate, toNat_unit, Bool.and_eq_false_iff,
    decide_eq_false_iff_not] at notLow notHigh
  rw [spell?, CodePoint.isSurrogate, toNat_unit, if_neg (by simp; omega), if_pos small,
    bytesOfUnit_unit]

/-- A pair of surrogates is spelled by its four bytes. -/
private theorem spell?_pair {a b a' b' : UInt8}
    (high : (CodePoint.ofNat (unit order a b)).isHighSurrogate = true)
    (low : (CodePoint.ofNat (unit order a' b')).isLowSurrogate = true) :
    spell? order (.ofNat (0x10000 + 0x400 * (unit order a b - 0xD800) +
      (unit order a' b' - 0xDC00))) = some [a, b, a', b'] := by
  simp only [CodePoint.isLowSurrogate, CodePoint.isHighSurrogate, toNat_unit, Bool.and_eq_true,
    decide_eq_true_eq] at high low
  obtain ⟨n, n_eq⟩ : ∃ n, n = 0x10000 + 0x400 * (unit order a b - 0xD800) +
    (unit order a' b' - 0xDC00) := ⟨_, rfl⟩
  have number : (CodePoint.ofNat n).toNat = n := CodePoint.toNat_ofNat (by omega)
  have first : 0xD800 + (n - 0x10000) / 0x400 = unit order a b := by omega
  have second : 0xDC00 + (n - 0x10000) % 0x400 = unit order a' b' := by omega
  rw [← n_eq, spell?, CodePoint.isSurrogate, number, if_neg (by simp; omega), if_neg (by omega),
    first, second, bytesOfUnit_unit, bytesOfUnit_unit]
  rfl

theorem isSpelledBy (order : ByteOrder) :
    CodePointStep.IsSpelledBy (step order) (spell? order) := by
  intro a rest c extra read
  cases rest with
  | nil => cases read
  | cons b rest =>
    simp only [step] at read
    -- A low surrogate is read only behind a high one, and a high one only before a low one.
    cases notLow : (CodePoint.ofNat (unit order a b)).isLowSurrogate with
    | true =>
      rw [notLow, if_pos rfl] at read
      cases read
    | false =>
      rw [notLow, if_neg Bool.false_ne_true] at read
      cases high : (CodePoint.ofNat (unit order a b)).isHighSurrogate with
      | false =>
        rw [high, if_neg Bool.false_ne_true] at read
        obtain ⟨rfl, rfl⟩ := CodePointStep.char.inj read
        exact spell?_unit notLow high
      | true =>
        rw [high, if_pos rfl] at read
        split at read
        · rename_i a' b' rest'
          split_ifs at read with low
          rw [toNat_unit, toNat_unit] at read
          obtain ⟨rfl, rfl⟩ := CodePointStep.char.inj read
          exact spell?_pair high low
        · cases read

end Utf16

namespace Utf32

/-- A code point is spelled by the four bytes of its number. -/
private theorem spell?_number {order : ByteOrder} {a b c d : UInt8} {p : CodePoint}
    (found : CodePoint.ofNat? (number order a b c d) = some p) (single : p.isSurrogate = false) :
    spell? order p = some [a, b, c, d] := by
  rw [CodePoint.ofNat?] at found
  split_ifs at found with small
  cases found
  have first := a.toNat_lt
  have second := b.toNat_lt
  have third := c.toNat_lt
  have fourth := d.toNat_lt
  cases order with
  | little =>
    simp only [number] at small single ⊢
    rw [spell?, if_neg (by simp [single])]
    dsimp only
    rw [byte_eq (b := d) (n := 0) (by omega), byte_eq (b := c) (by omega),
      byte_eq (b := b) (by omega), byte_eq (b := a) (by omega)]
    rfl
  | big =>
    simp only [number] at small single ⊢
    rw [spell?, if_neg (by simp [single])]
    dsimp only
    rw [byte_eq (b := a) (n := 0) (by omega), byte_eq (b := b) (by omega),
      byte_eq (b := c) (by omega), byte_eq (b := d) (by omega)]

theorem isSpelledBy (order : ByteOrder) :
    CodePointStep.IsSpelledBy (step order) (spell? order) := by
  intro a rest p extra read
  unfold step at read
  split at read
  · rename_i b c d rest'
    split at read
    · cases read
    · rename_i q found
      split_ifs at read with surrogate
      obtain ⟨rfl, rfl⟩ := CodePointStep.char.inj read
      exact spell?_number found (by simpa using surrogate)
  · cases read

end Utf32

/-- Encodings without a signature or a mark at the start. -/
def Encoding.isPlain : Encoding → Bool
  | .utf8Signed | .utf16Marked | .utf32Marked => false
  | _ => true

/-- A byte string that a plain encoding reads is the encoding of its text. -/
theorem Encoding.encode_of_decode {encoding : Encoding} (plain : encoding.isPlain = true)
    {raw : List UInt8} {t : Text} (read : encoding.decode raw = .ok t) :
    encoding.encode t = .ok raw := by
  cases encoding with
  | utf8 => exact encodeBy_of_decodeBy Utf8.isSpelledBy read
  | ascii => exact encodeBy_of_decodeBy (SingleByte.isSpelledBy Ascii.spell?_of_char?) read
  | latin1 => exact encodeBy_of_decodeBy (SingleByte.isSpelledBy Latin1.spell?_of_char?) read
  | codePage1252 =>
    exact encodeBy_of_decodeBy (SingleByte.isSpelledBy CodePage1252.spell?_of_char?) read
  | utf16Little => exact encodeBy_of_decodeBy (Utf16.isSpelledBy .little) read
  | utf16Big => exact encodeBy_of_decodeBy (Utf16.isSpelledBy .big) read
  | utf32Little => exact encodeBy_of_decodeBy (Utf32.isSpelledBy .little) read
  | utf32Big => exact encodeBy_of_decodeBy (Utf32.isSpelledBy .big) read
  | utf8Signed | utf16Marked | utf32Marked => cases plain

/-- A name of an encoding that gives back every byte string that it reads. -/
def EncodingName.Lossless (name : Text) : Prop :=
  ∀ raw t, decode name raw = .ok t → encode name t = .ok raw

/-- The plain encodings give back what they read. The others write a signature or a mark that need not
have been there, as for no bytes at all. -/
theorem EncodingName.lossless_iff {name : Text} {encoding : Encoding}
    (found : find name = .encoding encoding) : Lossless name ↔ encoding.isPlain = true := by
  constructor
  · intro lossless
    -- Without any bytes the signature is missing, and is written nevertheless.
    have again := lossless [] []
    rw [decode, encode, found] at again
    cases encoding with
    | utf8Signed | utf16Marked | utf32Marked => cases again rfl
    | _ => rfl
  · intro plain raw t read
    rw [decode, found] at read
    rw [encode, found]
    exact mapError_eq_ok_iff.mpr (encoding.encode_of_decode plain (mapError_eq_ok_iff.mp read))

end BitLayout
