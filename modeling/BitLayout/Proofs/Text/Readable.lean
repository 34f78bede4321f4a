import BitLayout.Text.Encoding
import BitLayout.Proofs.Outcome
import Mathlib.Tactic.SplitIfs

/-!
# Encodings that read what they write

Whatever bytes an encoding writes for a text, it reads that text from them. A signature or a mark that
it writes at the start is not taken for a part of the text.

## Main definitions

* `CodePointStep.Reads`: code points are read from their spelling, whatever follows

## Main results

* `decodeBy_of_encodeBy`: from one code point to texts
* `Encoding.decode_of_encode`: every encoding reads what it writes
-/

namespace BitLayout

/-- A code point is read from its spelling, whatever comes behind. -/
def CodePointStep.Reads (step : UInt8 → List UInt8 → CodePointStep)
    (spell? : CodePoint → Option (List UInt8)) : Prop :=
  ∀ {c spelling}, spell? c = some spelling →
    ∃ b rest, spelling = b :: rest ∧ ∀ more, step b (rest ++ more) = .char c rest.length

/-- The bytes that belong to the code point before are passed over. -/
theorem decodeBy_skip {codec : Text} {step : UInt8 → List UInt8 → CodePointStep}
    (taken more : List UInt8) (position : Nat) :
    decodeBy codec step taken.length position (taken ++ more) =
      decodeBy codec step 0 (position + taken.length) more := by
  induction taken generalizing position with
  | nil => rfl
  | cons b taken ih =>
    rw [List.length_cons, List.cons_append, decodeBy, ih, Nat.add_right_comm, Nat.add_assoc]

/-- A text whose code points are read from their spellings is read from its own. -/
theorem decodeBy_of_encodeBy {codec codec' : Text} {step : UInt8 → List UInt8 → CodePointStep}
    {spell? : CodePoint → Option (List UInt8)} (reads : CodePointStep.Reads step spell?)
    {reason : EncodeReason} {reach : FaultReach} {place : Nat} {bytes : List UInt8} {t : Text}
    (wrote : encodeBy codec reason reach spell? place t = .ok bytes) (position : Nat) :
    decodeBy codec' step 0 position bytes = .ok t := by
  induction t generalizing place bytes position with
  | nil =>
    cases wrote
    rfl
  | cons c rest ih =>
    cases spelled : spell? c with
    | none =>
      simp only [encodeBy, spelled] at wrote
      cases wrote
    | some spelling =>
      simp only [encodeBy, spelled] at wrote
      obtain ⟨others, wrote_others, rfl⟩ := map_eq_ok_iff.mp wrote
      obtain ⟨b, tail, rfl, read⟩ := reads spelled
      -- One step reads the first code point, and the rest of its spelling is skipped.
      rw [List.cons_append, decodeBy, read others]
      dsimp only
      rw [decodeBy_skip, ih wrote_others]
      rfl

private theorem ofNat_eq {n : Nat} {c : CodePoint} (same : n = c.toNat) : CodePoint.ofNat n = c := by
  have small := c.isLt
  rw [CodePoint.ofNat, CodePoint.mk.injEq, same]
  exact Nat.mod_eq_of_lt small

section SingleByte

/-- With one byte for each code point it is enough to look at single bytes. -/
theorem SingleByte.reads {char? : UInt8 → Option CodePoint} {reason : DecodeReason}
    {spell? : CodePoint → Option (List UInt8)}
    (read : ∀ c spelling, spell? c = some spelling → ∃ b, spelling = [b] ∧ char? b = some c) :
    CodePointStep.Reads (step char? reason) spell? := by
  intro c spelling spelled
  obtain ⟨b, rfl, found⟩ := read c spelling spelled
  refine ⟨b, [], rfl, fun more => ?_⟩
  rw [step, found]
  rfl

private theorem ofByte_ofNat {c : CodePoint} (small : c.toNat < 0x100) :
    CodePoint.ofByte (UInt8.ofNat c.toNat) = c := by
  rw [CodePoint.ofByte, CodePoint.mk.injEq, UInt8.toNat_ofNat']
  exact Nat.mod_eq_of_lt small

theorem Ascii.char?_of_spell? (c : CodePoint) (spelling : List UInt8)
    (spelled : spell? c = some spelling) : ∃ b, spelling = [b] ∧ char? b = some c := by
  rw [spell?] at spelled
  split_ifs at spelled with small
  cases spelled
  refine ⟨_, rfl, ?_⟩
  rw [char?, ofByte_ofNat (by omega), if_pos]
  rw [UInt8.toNat_ofNat']
  omega

theorem Latin1.char?_of_spell? (c : CodePoint) (spelling : List UInt8)
    (spelled : spell? c = some spelling) : ∃ b, spelling = [b] ∧ char? b = some c := by
  rw [spell?] at spelled
  split_ifs at spelled with small
  cases spelled
  exact ⟨_, rfl, by rw [char?, ofByte_ofNat small]⟩

theorem CodePage1252.char?_of_spell? (c : CodePoint) (spelling : List UInt8)
    (spelled : spell? c = some spelling) : ∃ b, spelling = [b] ∧ char? b = some c := by
  rw [spell?] at spelled
  split_ifs at spelled with outside high
  · -- Outside the upper rows the byte is the number itself.
    cases spelled
    simp only [Bool.or_eq_true, Bool.and_eq_true, decide_eq_true_eq] at outside
    have number : (UInt8.ofNat c.toNat).toNat = c.toNat := by
      rw [UInt8.toNat_ofNat']
      omega
    refine ⟨_, rfl, ?_⟩
    rw [char?, number, if_neg (by simp; omega), ofByte_ofNat (by omega)]
  · -- In the upper rows it is the place of the number.
    obtain ⟨place, found, rfl⟩ := Option.map_eq_some_iff.mp spelled
    obtain ⟨within, row, -⟩ := List.idxOf?_eq_some_iff.mp found
    have short : place < 32 := within
    have number : (UInt8.ofNat (0x80 + place)).toNat = 0x80 + place := by
      rw [UInt8.toNat_ofNat']
      omega
    refine ⟨_, rfl, ?_⟩
    rw [char?, number, if_pos (by simp; omega), Nat.add_sub_cancel_left,
      List.getElem?_eq_getElem within, row]
    dsimp only
    rw [if_neg (by omega), ofNat_eq rfl]

end SingleByte

namespace Utf8

/-- A byte between the bounds is read as the next one of the code point. -/
private theorem continuation_cons {need low high value taken : Nat} {b : UInt8} {rest : List UInt8}
    (inside : low ≤ b.toNat ∧ b.toNat ≤ high) :
    continuation (need + 1) low high value taken (b :: rest) =
      continuation need 0x80 0xBF (64 * value + (b.toNat - 0x80)) (taken + 1) rest := by
  rw [continuation, if_neg (Nat.succ_ne_zero need), if_pos (by simpa using inside)]
  rfl

private theorem continuation_end {low high value taken : Nat} {rest : List UInt8} :
    continuation 0 low high value taken rest = .char (.ofNat value) (taken - 1) := by
  cases rest <;> rfl

private theorem step_two {c : CodePoint} (bounds : 0x80 ≤ c.toNat ∧ c.toNat < 0x800)
    (more : List UInt8) :
    step (UInt8.ofNat (0xC0 + (c.toNat >>> 6)))
      (UInt8.ofNat (0x80 + (c.toNat >>> (6 * 0)) % 64) :: more) = .char c 1 := by
  have lead : (UInt8.ofNat (0xC0 + (c.toNat >>> 6))).toNat = 0xC0 + c.toNat / 64 := by
    rw [UInt8.toNat_ofNat']
    omega
  have second : (UInt8.ofNat (0x80 + (c.toNat >>> (6 * 0)) % 64)).toNat = 0x80 + c.toNat % 64 := by
    rw [UInt8.toNat_ofNat']
    omega
  simp only [step, lead]
  rw [if_neg (by omega), if_neg (by omega), if_pos (by omega), continuation_cons (by omega),
    continuation_end, second, ofNat_eq (c := c) (by omega)]

private theorem step_three {c : CodePoint} (bounds : 0x800 ≤ c.toNat ∧ c.toNat < 0x10000)
    (single : ¬(0xD800 ≤ c.toNat ∧ c.toNat < 0xE000)) (more : List UInt8) :
    step (UInt8.ofNat (0xE0 + (c.toNat >>> 12)))
      (UInt8.ofNat (0x80 + (c.toNat >>> (6 * 1)) % 64) ::
        UInt8.ofNat (0x80 + (c.toNat >>> (6 * 0)) % 64) :: more) = .char c 2 := by
  have lead : (UInt8.ofNat (0xE0 + (c.toNat >>> 12))).toNat = 0xE0 + c.toNat / 4096 := by
    rw [UInt8.toNat_ofNat']
    omega
  have second :
      (UInt8.ofNat (0x80 + (c.toNat >>> (6 * 1)) % 64)).toNat = 0x80 + c.toNat / 64 % 64 := by
    rw [UInt8.toNat_ofNat']
    omega
  have third : (UInt8.ofNat (0x80 + (c.toNat >>> (6 * 0)) % 64)).toNat = 0x80 + c.toNat % 64 := by
    rw [UInt8.toNat_ofNat']
    omega
  simp only [step, lead]
  -- The bounds on the second byte are kept by numbers of three bytes that are no surrogates.
  rw [if_neg (by omega), if_neg (by omega), if_neg (by omega), if_pos (by omega),
    continuation_cons (by rw [second]; constructor <;> split_ifs <;> omega),
    continuation_cons (by omega), continuation_end, second, third, ofNat_eq (c := c) (by omega)]

private theorem step_four {c : CodePoint} (bounds : 0x10000 ≤ c.toNat) (more : List UInt8) :
    step (UInt8.ofNat (0xF0 + (c.toNat >>> 18)))
      (UInt8.ofNat (0x80 + (c.toNat >>> (6 * 2)) % 64) ::
        UInt8.ofNat (0x80 + (c.toNat >>> (6 * 1)) % 64) ::
          UInt8.ofNat (0x80 + (c.toNat >>> (6 * 0)) % 64) :: more) = .char c 3 := by
  have small := c.isLt
  have lead : (UInt8.ofNat (0xF0 + (c.toNat >>> 18))).toNat = 0xF0 + c.toNat / 262144 := by
    rw [UInt8.toNat_ofNat']
    omega
  have second :
      (UInt8.ofNat (0x80 + (c.toNat >>> (6 * 2)) % 64)).toNat = 0x80 + c.toNat / 4096 % 64 := by
    rw [UInt8.toNat_ofNat']
    omega
  have third :
      (UInt8.ofNat (0x80 + (c.toNat >>> (6 * 1)) % 64)).toNat = 0x80 + c.toNat / 64 % 64 := by
    rw [UInt8.toNat_ofNat']
    omega
  have fourth : (UInt8.ofNat (0x80 + (c.toNat >>> (6 * 0)) % 64)).toNat = 0x80 + c.toNat % 64 := by
    rw [UInt8.toNat_ofNat']
    omega
  simp only [step, lead]
  -- The bounds on the second byte are kept by numbers of four bytes that are code points.
  rw [if_neg (by omega), if_neg (by omega), if_neg (by omega), if_neg (by omega),
    if_pos (by omega), continuation_cons (by rw [second]; constructor <;> split_ifs <;> omega),
    continuation_cons (by omega), continuation_cons (by omega), continuation_end, second, third,
    fourth, ofNat_eq (c := c) (by omega)]

theorem reads : CodePointStep.Reads step spell? := by
  intro c spelling spelled
  rw [spell?, CodePoint.isSurrogate] at spelled
  -- As many cases as a code point can have bytes.
  split_ifs at spelled with surrogate one two three <;> cases spelled
  · refine ⟨_, [], rfl, fun more => ?_⟩
    rw [step, UInt8.toNat_ofNat', Nat.mod_eq_of_lt (by omega), if_pos one, ofByte_ofNat (by omega)]
    rfl
  · exact ⟨_, _, rfl, step_two ⟨by omega, two⟩⟩
  · exact ⟨_, _, rfl, step_three ⟨by omega, three⟩ (by simpa using surrogate)⟩
  · exact ⟨_, _, rfl, step_four (by omega)⟩

end Utf8

namespace Utf16

/-- A unit is read from its two bytes. -/
private theorem unit_of_bytes (order : ByteOrder) {n : Nat} (small : n < 0x10000) :
    ∃ a b, bytesOfUnit order n = [a, b] ∧ unit order a b = n := by
  have low : (UInt8.ofNat n).toNat = n % 256 := UInt8.toNat_ofNat'
  have high : (UInt8.ofNat (n / 256)).toNat = n / 256 := by
    rw [UInt8.toNat_ofNat']
    omega
  cases order with
  | little => exact ⟨_, _, rfl, by rw [unit, low, high]; omega⟩
  | big => exact ⟨_, _, rfl, by rw [unit, low, high]; omega⟩

theorem reads (order : ByteOrder) : CodePointStep.Reads (step order) (spell? order) := by
  intro c spelling spelled
  have limit := c.isLt
  rw [spell?, CodePoint.isSurrogate] at spelled
  split_ifs at spelled with surrogate single
  · cases spelled
    simp only [Bool.and_eq_true, decide_eq_true_eq] at surrogate
    obtain ⟨a, b, bytes, number⟩ := unit_of_bytes order single
    refine ⟨a, [b], bytes, fun more => ?_⟩
    simp only [List.singleton_append, step, number, ofNat_eq rfl, CodePoint.isLowSurrogate,
      CodePoint.isHighSurrogate]
    rw [if_neg (by simp; omega), if_neg (by simp; omega)]
    rfl
  · cases spelled
    -- The number above the units is split into two halves of ten bits each.
    obtain ⟨a, b, bytes, high⟩ : ∃ a b, bytesOfUnit order (0xD800 + (c.toNat - 0x10000) / 0x400) =
      [a, b] ∧ unit order a b = 0xD800 + (c.toNat - 0x10000) / 0x400 := unit_of_bytes order (by omega)
    obtain ⟨a', b', bytes', low⟩ :
      ∃ a b, bytesOfUnit order (0xDC00 + (c.toNat - 0x10000) % 0x400) = [a, b] ∧
        unit order a b = 0xDC00 + (c.toNat - 0x10000) % 0x400 := unit_of_bytes order (by omega)
    rw [bytes, bytes']
    refine ⟨a, [b, a', b'], rfl, fun more => ?_⟩
    simp only [List.cons_append, List.nil_append, step, high, low, CodePoint.isLowSurrogate,
      CodePoint.isHighSurrogate]
    have toNat_high : (CodePoint.ofNat (0xD800 + (c.toNat - 0x10000) / 0x400)).toNat =
        0xD800 + (c.toNat - 0x10000) / 0x400 := Nat.mod_eq_of_lt (by omega)
    have toNat_low : (CodePoint.ofNat (0xDC00 + (c.toNat - 0x10000) % 0x400)).toNat =
        0xDC00 + (c.toNat - 0x10000) % 0x400 := Nat.mod_eq_of_lt (by omega)
    rw [toNat_high, toNat_low, if_neg (by simp; omega), if_pos (by simp; omega),
      if_pos (by simp; omega), ofNat_eq (c := c) (by omega)]
    rfl

end Utf16

namespace Utf32

theorem reads (order : ByteOrder) : CodePointStep.Reads (step order) (spell? order) := by
  intro c spelling spelled
  have limit := c.isLt
  have first : (UInt8.ofNat 0).toNat = 0 := rfl
  have second : (UInt8.ofNat (c.toNat / 0x10000)).toNat = c.toNat / 0x10000 := by
    rw [UInt8.toNat_ofNat']
    omega
  have third : (UInt8.ofNat (c.toNat / 0x100)).toNat = c.toNat / 0x100 % 256 := UInt8.toNat_ofNat'
  have fourth : (UInt8.ofNat c.toNat).toNat = c.toNat % 256 := UInt8.toNat_ofNat'
  have found : CodePoint.ofNat? c.toNat = some c := dif_pos limit
  simp only [spell?] at spelled
  split_ifs at spelled with surrogate
  -- Either order of the four bytes has the same number.
  have read {a b c' d : UInt8} (same : number order a b c' d = c.toNat) (more : List UInt8) :
      step order a ([b, c', d] ++ more) = .char c 3 := by
    simp only [List.cons_append, List.nil_append, step, same, found]
    rw [if_neg surrogate]
  cases order with
  | little =>
    cases spelled
    refine ⟨_, _, rfl, read ?_⟩
    rw [number, first, second, third, fourth]
    omega
  | big =>
    cases spelled
    refine ⟨_, _, rfl, read ?_⟩
    rw [number, first, second, third, fourth]
    omega

end Utf32

namespace Encoding

/-- Whatever an encoding writes for a text, it reads that text from it. -/
theorem decode_of_encode {encoding : Encoding} {t : Text} {raw : List UInt8}
    (wrote : encoding.encode t = .ok raw) : encoding.decode raw = .ok t := by
  cases encoding with
  | utf8 => exact decodeBy_of_encodeBy Utf8.reads wrote 0
  | ascii => exact decodeBy_of_encodeBy (SingleByte.reads Ascii.char?_of_spell?) wrote 0
  | latin1 => exact decodeBy_of_encodeBy (SingleByte.reads Latin1.char?_of_spell?) wrote 0
  | codePage1252 =>
    exact decodeBy_of_encodeBy (SingleByte.reads CodePage1252.char?_of_spell?) wrote 0
  | utf16Little => exact decodeBy_of_encodeBy (Utf16.reads .little) wrote 0
  | utf16Big => exact decodeBy_of_encodeBy (Utf16.reads .big) wrote 0
  | utf32Little => exact decodeBy_of_encodeBy (Utf32.reads .little) wrote 0
  | utf32Big => exact decodeBy_of_encodeBy (Utf32.reads .big) wrote 0
  -- A signature or mark that is written is found again at the start, and nothing more is cut off.
  | utf8Signed =>
    obtain ⟨bytes, spelled, rfl⟩ := map_eq_ok_iff.mp wrote
    exact decodeBy_of_encodeBy Utf8.reads spelled 0
  | utf16Marked =>
    obtain ⟨bytes, spelled, rfl⟩ := map_eq_ok_iff.mp wrote
    exact decodeBy_of_encodeBy (Utf16.reads .little) spelled 2
  | utf32Marked =>
    obtain ⟨bytes, spelled, rfl⟩ := map_eq_ok_iff.mp wrote
    exact decodeBy_of_encodeBy (Utf32.reads .little) spelled 4

end Encoding

theorem EncodingName.decode_of_encode {name t : Text} {raw : List UInt8}
    (wrote : encode name t = .ok raw) : decode name raw = .ok t := by
  rw [encode] at wrote
  rw [decode]
  cases meaning : find name with
  | encoding encoding =>
    rw [meaning] at wrote
    exact mapError_eq_ok_iff.mpr (encoding.decode_of_encode (mapError_eq_ok_iff.mp wrote))
  | otherCodec | unknown | unusable =>
    rw [meaning] at wrote
    cases wrote

end BitLayout
