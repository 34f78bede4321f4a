import BitLayout.Proofs.Bits.Writer
import BitLayout.Proofs.Decoding.Extension
import BitLayout.Proofs.Encoding.Success
import BitLayout.Proofs.Text.Lossless
import BitLayout.Proofs.Text.Readable

/-!
# Texts that keep their length

A text is written again in as many bytes as it was read from. The bytes themselves are the same
unless a mark says that the high byte comes first, since marked texts are written low byte first. But
a signature or a mark is written even if none has been read, and then in front of all the bytes.

## Main definitions

* `Encoding.mark`: what an encoding writes in front of a text
* `Encoding.BeginsMarked`: bytes that begin with such a mark, in either byte order

## Main results

* `Encoding.exists_encode_of_decode`: how long a text is when it is written again
* `Layout.text_keeps_length`: the same for layouts of texts
* `Layout.not_text_keeps_length_unsigned`: a text without the signature grows
-/

namespace BitLayout

/-- Two spellings of code points are of the same length, where there are any. -/
def SpellsAlike (spell? spell?' : CodePoint → Option (List UInt8)) : Prop :=
  ∀ c, (spell? c).map List.length = (spell?' c).map List.length

/-- Texts whose code points are spelled alike are written in equally many bytes. -/
theorem SpellsAlike.exists_encodeBy {spell? spell?' : CodePoint → Option (List UInt8)}
    (alike : SpellsAlike spell? spell?') {codec codec' : Text} {reason reason' : EncodeReason}
    {reach reach' : FaultReach} {place : Nat} {t : Text} {bytes : List UInt8}
    (wrote : encodeBy codec reason reach spell? place t = .ok bytes) (place' : Nat) :
    ∃ bytes', encodeBy codec' reason' reach' spell?' place' t = .ok bytes' ∧
      bytes'.length = bytes.length := by
  -- One spelling has a code point if the other has it, so neither stops before the other.
  induction t generalizing place place' bytes with
  | nil =>
    cases wrote
    exact ⟨[], rfl, rfl⟩
  | cons c rest ih =>
    have first := alike c
    cases spelled : spell? c with
    | none =>
      simp only [encodeBy, spelled] at wrote
      cases wrote
    | some spelling =>
      simp only [encodeBy, spelled] at wrote
      obtain ⟨others, wrote_others, rfl⟩ := map_eq_ok_iff.mp wrote
      rw [spelled, Option.map_some, eq_comm, Option.map_eq_some_iff] at first
      obtain ⟨spelling', spelled', length⟩ := first
      obtain ⟨others', wrote_others', length_others⟩ := ih wrote_others (place' + 1)
      refine ⟨spelling' ++ others', ?_, ?_⟩
      · simp only [encodeBy, spelled', wrote_others']
        rfl
      · rw [List.length_append, List.length_append, length, length_others]

theorem Utf16.length_bytesOfUnit (order : ByteOrder) (n : Nat) :
    (bytesOfUnit order n).length = 2 := by
  cases order <;> rfl

/-- The order of the two bytes of a unit does not matter to their number. -/
theorem Utf16.spellsAlike (order order' : ByteOrder) :
    SpellsAlike (spell? order) (spell? order') := by
  intro c
  simp only [spell?]
  split_ifs <;> simp [length_bytesOfUnit]

theorem Utf32.spellsAlike (order order' : ByteOrder) :
    SpellsAlike (spell? order) (spell? order') := by
  intro c
  simp only [spell?]
  split_ifs
  · rfl
  · cases order <;> cases order' <;> rfl

namespace Encoding

/-- What an encoding writes in front of a text. -/
def mark : Encoding → List UInt8
  | .utf8Signed => signature8
  | .utf16Marked => mark16 .little
  | .utf32Marked => mark32 .little
  | _ => []

/-- Bytes that begin with what is not taken for a part of the text, where there is such a thing: with
the signature, or with the mark in either byte order. -/
def BeginsMarked (encoding : Encoding) (raw : List UInt8) : Prop :=
  match encoding with
  | .utf8Signed => signature8 <+: raw
  | .utf16Marked => ∃ order, mark16 order <+: raw
  | .utf32Marked => ∃ order, mark32 order <+: raw
  | _ => True

section Marks

variable {codec codec' codec'' : Text} {reason : EncodeReason} {reach : FaultReach}
  {raw : List UInt8} {t : Text}

/-- A text behind a mark is written in equally many bytes behind another mark of that length. -/
theorem exists_encodeBy_of_prefix {step : UInt8 → List UInt8 → CodePointStep}
    {spell? spell?' : CodePoint → Option (List UInt8)} {marked written : List UInt8}
    (spelled : CodePointStep.IsSpelledBy step spell?) (alike : SpellsAlike spell? spell?')
    (length : written.length = marked.length) (begins : marked <+: raw) {position : Nat}
    (read : decodeBy codec step 0 position (raw.drop marked.length) = .ok t) :
    ∃ again, (written ++ ·) <$> encodeBy codec' reason reach spell?' 0 t = .ok again ∧
      again.length = raw.length := by
  -- The mark is no part of the text, so only what is behind it has been spelled.
  obtain ⟨rest, rfl⟩ := begins
  rw [List.drop_left] at read
  have wrote : encodeBy codec' reason reach spell? 0 t = .ok (rest.drop 0) :=
    encodeBy_of_decodeBy spelled read
  obtain ⟨bytes, wrote', same⟩ := alike.exists_encodeBy wrote 0
  refine ⟨_, map_eq_ok_iff.mpr ⟨bytes, wrote', rfl⟩, ?_⟩
  rw [List.length_append, List.length_append, length, same, List.drop_zero]

/-- Where a mark tells the byte order, a text behind it is as long behind the mark that is written,
and a text without a mark gets one. -/
theorem exists_encodeBy_of_marks {step : ByteOrder → UInt8 → List UInt8 → CodePointStep}
    {spell? : ByteOrder → CodePoint → Option (List UInt8)} {marks : ByteOrder → List UInt8}
    {width : Nat} (spelled : ∀ order, CodePointStep.IsSpelledBy (step order) (spell? order))
    (alike : ∀ order order', SpellsAlike (spell? order) (spell? order'))
    (length : ∀ order, (marks order).length = width)
    (read : (if (marks .little).isPrefixOf raw then
        decodeBy codec (step .little) 0 width (raw.drop width)
      else if (marks .big).isPrefixOf raw then
        decodeBy codec' (step .big) 0 width (raw.drop width)
      else decodeBy codec (step .little) 0 0 raw) = .ok t) :
    ∃ again, (marks .little ++ ·) <$> encodeBy codec'' reason reach (spell? .little) 0 t = .ok again ∧
      ((∃ order, marks order <+: raw) → again.length = raw.length) ∧
      (¬(∃ order, marks order <+: raw) → again = marks .little ++ raw) := by
  have behind {order : ByteOrder} {name : Text} (begins : marks order <+: raw)
      (read : decodeBy name (step order) 0 width (raw.drop width) = .ok t) :
      ∃ again, (marks .little ++ ·) <$> encodeBy codec'' reason reach (spell? .little) 0 t = .ok again ∧
        again.length = raw.length := by
    rw [← length order] at read
    exact exists_encodeBy_of_prefix (spelled order) (alike order .little)
      ((length .little).trans (length order).symm) begins read
  simp only [List.isPrefixOf_iff_prefix] at read
  split_ifs at read with little big
  · obtain ⟨again, wrote, same⟩ := behind little read
    exact ⟨again, wrote, fun _ => same, fun missing => absurd ⟨_, little⟩ missing⟩
  · obtain ⟨again, wrote, same⟩ := behind big read
    exact ⟨again, wrote, fun _ => same, fun missing => absurd ⟨_, big⟩ missing⟩
  · -- Without a mark the low byte came first, as it does in what is written.
    refine ⟨_, map_eq_ok_iff.mpr ⟨_, encodeBy_of_decodeBy (spelled .little) read, rfl⟩, ?_,
      fun _ => rfl⟩
    rintro ⟨order, begins⟩
    cases order with
    | little => exact absurd begins little
    | big => exact absurd begins big

end Marks

/-- A text that was read is written again in as many bytes if they began with the mark of the
encoding, and otherwise in the same bytes with the mark in front of them. -/
theorem exists_encode_of_decode {encoding : Encoding} {raw : List UInt8} {t : Text}
    (read : encoding.decode raw = .ok t) :
    ∃ again, encoding.encode t = .ok again ∧
      (encoding.BeginsMarked raw → again.length = raw.length) ∧
      (¬encoding.BeginsMarked raw → again = encoding.mark ++ raw) := by
  cases encoding with
  | utf8Signed =>
    simp only [decode, List.isPrefixOf_iff_prefix] at read
    split_ifs at read with signed
    · obtain ⟨again, wrote, length⟩ :=
        exists_encodeBy_of_prefix Utf8.isSpelledBy (fun _ => rfl) rfl signed read
      exact ⟨again, wrote, fun _ => length, fun missing => absurd signed missing⟩
    · exact ⟨_, map_eq_ok_iff.mpr ⟨_, encodeBy_of_decodeBy Utf8.isSpelledBy read, rfl⟩,
        fun begins => absurd begins signed, fun _ => rfl⟩
  | utf16Marked =>
    exact exists_encodeBy_of_marks Utf16.isSpelledBy Utf16.spellsAlike
      (fun order => by cases order <;> rfl) read
  | utf32Marked =>
    exact exists_encodeBy_of_marks Utf32.isSpelledBy Utf32.spellsAlike
      (fun order => by cases order <;> rfl) read
  | _ =>
    -- The other encodings write no mark, and give back the bytes that they have read.
    exact ⟨raw, encode_of_decode rfl read, fun _ => rfl, fun missing => absurd trivial missing⟩

end Encoding

namespace Layout

variable {count : Integer} {name : Text} {raw : List UInt8}

/-- A text is read from as many bytes as its layout says, of which none are left over. -/
theorem decodeBytes_text_eq_ok_iff (whole : count.toInt = raw.length) {strict : Bool} {value : Value} :
    (text (.literal count) name).decodeBytes raw strict = .ok value ↔
      ∃ t, EncodingName.decode name raw = .ok t ∧ value = .text t := by
  have slice : readSlice .text (.literal count) none (BitReader.ofBytes raw) =
      .ok (raw, (BitReader.ofBytes raw).advance (8 * raw.length)) := by
    refine readSlice_eq_ok_iff.mpr ⟨⟨count, rfl, whole⟩, rfl, Nat.le_refl _, ?_, rfl⟩
    rw [BitReader.remaining_ofBytes, ← length_bitsOfBytes, List.take_length]
  have valid : ((BitReader.ofBytes raw).advance (8 * raw.length)).Valid :=
    (BitReader.valid_ofBytes raw).advance (Nat.le_refl _)
  constructor
  · intro decoded
    obtain ⟨r, read⟩ := read_of_decodeBytes decoded
    obtain ⟨raw', t, slice', spelled, rfl⟩ := decode_text_eq_ok_iff.mp read
    rw [slice] at slice'
    cases slice'
    exact ⟨t, spelled, rfl⟩
  · rintro ⟨t, spelled, rfl⟩
    have read : (text (.literal count) name).read raw = .ok (.text t, _) :=
      decode_text_eq_ok_iff.mpr ⟨raw, t, slice, spelled, rfl⟩
    have leftOver : ((BitReader.ofBytes raw).advance (8 * raw.length)).trailingBytes = 0 := by
      have size : (BitReader.ofBytes raw).data.size = raw.length := rfl
      rw [valid.trailingBytes_eq, BitReader.data_advance, size, BitReader.position_advance,
        BitReader.position_ofBytes]
      omega
    refine bind_eq_ok_iff.mpr ⟨_, read, ?_⟩
    simp [leftOver]

/-- A text is written as its encoding spells it, whatever length its layout says. -/
theorem encodeWithin_text_eq_ok_iff {memory : Memory} {t : Text} {bytes : List UInt8} :
    (text (.literal count) name).encodeWithin memory (.text t) = .ok bytes ↔
      EncodingName.encode name t = .ok bytes := by
  rw [encodeWithin, map_eq_ok_iff]
  constructor
  · rintro ⟨w, wrote, rfl⟩
    obtain ⟨t, raw, same, spelled, wrote_raw⟩ := encode_text_eq_ok_iff.mp wrote
    cases same
    obtain ⟨-, wrote_raw⟩ := writeSlice_eq_ok_iff.mp wrote_raw
    obtain ⟨-, holds⟩ := BitWriter.holds_empty.of_writeBytes wrote_raw
    rw [holds.toBytes_of_bytes, spelled]
  · intro spelled
    obtain ⟨w, wrote, holds⟩ := BitWriter.holds_empty.writeBytes rfl bytes
    refine ⟨w, encode_text_eq_ok_iff.mpr ⟨t, bytes, rfl, spelled, ?_⟩, holds.toBytes_of_bytes⟩
    exact writeSlice_eq_ok_iff.mpr ⟨⟨count, rfl⟩, wrote⟩

/-- A text that was read from as many bytes as its layout says is written again in as many bytes, from
which it is read again, if the bytes began with the signature or the mark that its encoding writes.
Otherwise this is put in front of the same bytes. -/
theorem text_keeps_length {encoding : Encoding} (found : EncodingName.find name = .encoding encoding)
    (whole : count.toInt = raw.length) {strict : Bool} {value : Value}
    (decoded : (text (.literal count) name).decodeBytes raw strict = .ok value) (memory : Memory) :
    ∃ t again, value = .text t ∧
      (text (.literal count) name).encodeWithin memory (.text t) = .ok again ∧
      (encoding.BeginsMarked raw → again.length = raw.length ∧
        ∀ strict, (text (.literal count) name).decodeBytes again strict = .ok (.text t)) ∧
      (¬encoding.BeginsMarked raw → again = encoding.mark ++ raw) := by
  obtain ⟨t, spelled, rfl⟩ := (decodeBytes_text_eq_ok_iff whole).mp decoded
  have read : encoding.decode raw = .ok t := by
    rw [EncodingName.decode, found] at spelled
    exact mapError_eq_ok_iff.mp spelled
  obtain ⟨again, wrote, marked, unmarked⟩ := Encoding.exists_encode_of_decode read
  have wrote' : EncodingName.encode name t = .ok again := by
    rw [EncodingName.encode, found]
    exact mapError_eq_ok_iff.mpr wrote
  refine ⟨t, again, rfl, encodeWithin_text_eq_ok_iff.mpr wrote', fun begins => ?_, unmarked⟩
  have length := marked begins
  refine ⟨length, fun strict => ?_⟩
  rw [← length] at whole
  exact (decodeBytes_text_eq_ok_iff whole).mpr ⟨t, EncodingName.decode_of_encode wrote', rfl⟩

/-- The high byte comes first in what is read, and the low byte in what is written. -/
theorem text_keeps_length_highFirst :
    EncodingName.find "utf-16" = .encoding .utf16Marked ∧
      Encoding.utf16Marked.BeginsMarked [0xFE, 0xFF, 0x00, 0x41] ∧
      (text (.literal 4) "utf-16").decodeBytes [0xFE, 0xFF, 0x00, 0x41] false = .ok (.text "A") ∧
      ∃ again, (text (.literal 4) "utf-16").encodeWithin .ordinary (.text "A") = .ok again ∧
        again ≠ [0xFE, 0xFF, 0x00, 0x41] ∧ again.length = 4 ∧
        (text (.literal 4) "utf-16").decodeBytes again false = .ok (.text "A") := by
  have found : EncodingName.find "utf-16" = .encoding .utf16Marked := by cbv
  have begins : Encoding.utf16Marked.BeginsMarked [0xFE, 0xFF, 0x00, 0x41] :=
    ⟨.big, [0x00, 0x41], by decide⟩
  have decoded : (text (.literal 4) "utf-16").decodeBytes [0xFE, 0xFF, 0x00, 0x41] false =
    .ok (.text "A") := by cbv
  have whole : (4 : Integer).toInt = [0xFE, 0xFF, 0x00, (0x41 : UInt8)].length := rfl
  obtain ⟨t, again, same, wrote, marked, -⟩ := text_keeps_length found whole decoded .ordinary
  cases same
  obtain ⟨length, again_decoded⟩ := marked begins
  have bytes : (text (.literal 4) "utf-16").encodeWithin .ordinary (.text "A") =
    .ok [0xFF, 0xFE, 0x41, 0x00] := by cbv
  refine ⟨found, begins, decoded, again, wrote, ?_, length, again_decoded false⟩
  rw [bytes] at wrote
  cases wrote
  decide

/-- A text without the signature of its encoding grows by the signature. -/
theorem not_text_keeps_length_unsigned :
    ¬∀ (count : Integer) (name t : Text) (raw : List UInt8),
      (text (.literal count) name).WellFormed → count.toInt = raw.length →
      (text (.literal count) name).decodeBytes raw false = .ok (.text t) →
      ∃ again, (text (.literal count) name).encodeWithin .ordinary (.text t) = .ok again ∧
        again.length = raw.length ∧
        (text (.literal count) name).decodeBytes again false = .ok (.text t) := by
  intro keeps
  have wellFormed : (text (.literal 1) "utf-8-sig").WellFormed :=
    ⟨by decide, .utf8Signed, by cbv⟩
  have decoded : (text (.literal 1) "utf-8-sig").decodeBytes [0x41] false = .ok (.text "A") := by cbv
  have wrote : (text (.literal 1) "utf-8-sig").encodeWithin .ordinary (.text "A") =
    .ok [0xEF, 0xBB, 0xBF, 0x41] := by cbv
  obtain ⟨again, wrote', length, -⟩ := keeps 1 "utf-8-sig" "A" [0x41] wellFormed rfl decoded
  rw [wrote] at wrote'
  cases wrote'
  cases length

end Layout

end BitLayout
