import BitLayout.Proofs.Decoding.Failure
import BitLayout.Proofs.Decoding.Padding

/-!
# Where a reading stops

A reading that stops gives no reader back. Its place is known nevertheless: it is behind the bits
that it has passed. What its failure tells about this place, the number of bits that are left or how
far into a byte it is, is so.

## Main definitions

* `Cause.TellsOf`, `Failure.TellsOf`: what a failure tells about a place is so there
* `StopsBehind`: a reading whose failures tell of the place behind the bits that it has passed

## Main results

* `Layout.stopsBehind`: every layout
-/

namespace BitLayout

/-- What a cause tells about the place of a reader is so: how many bits are left, or how far into a
byte it is. -/
def Cause.TellsOf (r : BitReader) : Cause → Prop
  | .truncated _ _ available => available = r.bitsRemaining
  | .misaligned _ bitOffset => bitOffset = r.bitOffset
  | _ => True

/-- What a failure tells about the place of a reader is so. -/
def Failure.TellsOf (r : BitReader) : Failure → Prop
  | .located _ cause => cause.TellsOf r
  | _ => True

/-- A reading that stops has passed the bits that are marked, and its failure tells of the place
behind them. -/
def StopsBehind {α : Type} (reading : BitReader → Except Failure (α × BitReader))
    (padded : BitReader → List Bool) : Prop :=
  ∀ {r failure}, r.Valid → reading r = .error failure →
    ∃ r', r.Passes (padded r) r' ∧ failure.TellsOf r'

section Telling

variable {failure : Failure} {cause : Cause} {r : BitReader}

@[simp] theorem Failure.tellsOf_within {element : PathElement} :
    (failure.within element).TellsOf r ↔ failure.TellsOf r := by
  cases failure <;> rfl

@[simp] theorem Slot.tellsOf_place {slot : Slot} :
    (slot.place failure).TellsOf r ↔ failure.TellsOf r := by
  cases slot with
  | named | embedded | foreign => simp [place]
  | padding _ label =>
    rw [place, withinLabel.eq_def]
    split <;> simp

/-- A failure for want of bits tells how many are left; a refused request tells nothing else. -/
theorem tellsOf_ofKind {kind : Layout.Kind} {error : CursorError}
    (told : ∀ need available, error = .outOfBits need available → available = r.bitsRemaining) :
    (error.ofKind kind).TellsOf r := by
  cases error with
  | outOfBits need available => exact told need available rfl
  | _ => exact trivial

/-- A reference that is not resolved tells nothing about the place. -/
theorem tellsOf_unresolved (unresolved : cause.category = .unresolvedReference) :
    (Failure.here cause).TellsOf r := by
  cases cause with
  | truncated | misaligned => cases unresolved
  | _ => exact trivial

theorem tellsOf_choiceFails {scope : Scope} {discriminant : Text} {cases : List (Integer × Layout)}
    {otherwise : Option Layout}
    (fails : Layout.ChoiceFails scope discriminant cases otherwise cause) :
    (Failure.here cause).TellsOf r := by
  rcases fails with ⟨-, rfl⟩ | ⟨-, unresolved⟩ | ⟨key, -, -, rfl⟩
  · exact trivial
  · exact tellsOf_unresolved (category_of_resolveField unresolved)
  · exact trivial

end Telling

section Leaves

variable {scope : Scope} {r : BitReader} {failure : Failure}

/-- A number that is refused has not been passed. -/
theorem passes_of_readNat_refused (kind : Layout.Kind) {width : Integer} {error : CursorError}
    (valid : r.Valid) (refused : r.readNat width = .error error) :
    ∃ r', r.Passes ((Layout.bitField width).padded scope r) r' ∧
      (error.ofKind kind).TellsOf r' := by
  rw [Layout.padded, refused]
  refine ⟨r, valid.passes_nil, tellsOf_ofKind ?_⟩
  rintro need available rfl
  rcases BitReader.readNat_eq_error_iff.mp refused with ⟨-, same⟩ | ⟨-, -, same⟩
  · cases same
  · cases same
    rfl

theorem stopsBehind_padding (width : Integer) (scope : Scope) :
    StopsBehind ((Layout.padding width).decode scope) ((Layout.padding width).padded scope) := by
  intro r failure valid stopped
  obtain ⟨error, refused, rfl⟩ := Layout.decode_padding_eq_error_iff.mp stopped
  rw [Layout.padded, refused]
  refine ⟨r, valid.passes_nil, tellsOf_ofKind ?_⟩
  rintro need available rfl
  rcases BitReader.skip_eq_error_iff.mp refused with ⟨-, same⟩ | ⟨-, -, same⟩
  · cases same
  · cases same
    rfl

/-- A slice that is refused has not been passed. -/
theorem stopsBehind_readSlice (kind : Layout.Kind) (length : Length) (scope : Scope) :
    StopsBehind (readSlice kind length scope) (paddedInSlice kind length scope) := by
  intro r failure valid stopped
  rw [paddedInSlice, stopped]
  refine ⟨r, valid.passes_nil, ?_⟩
  rcases readSlice_eq_error_iff.mp stopped with ⟨-, rfl⟩ | ⟨-, cause, unresolved, rfl⟩ |
    ⟨-, count, -, ⟨-, rfl⟩ | ⟨-, -, rfl⟩⟩
  · rfl
  · exact tellsOf_unresolved (category_of_resolve unresolved)
  · exact trivial
  · rfl

/-- Bytes that spell no text are passed; the failure is about the bytes and not about the place. -/
theorem tellsOf_readText {encoding : Text} {raw : List UInt8}
    (refused : readText encoding raw = .error failure) : failure.TellsOf r := by
  rw [readText] at refused
  split at refused <;> cases refused <;> exact trivial

end Leaves

section Parts

variable {slot : Slot} {layout : Layout} {rest : List Slot} {record : Entries} {r r' : BitReader}
  {value : Value} {failure : Failure}

/-- Slots go on from the record that the first one leaves, unless its value cannot be stored. -/
theorem decodeSlots_cons_of_ok (same : slot.layout? = some layout)
    (read : layout.decode (some record) r = .ok (value, r')) :
    decodeSlots (slot :: rest) record r =
      (slot.store record value).elim
        (.error (.here (.embeddedNotRecord layout.kind value.typeName)))
        fun record' => decodeSlots rest record' r' := by
  cases slot with
  | named name layout' | padding layout' label =>
    cases same
    rw [decodeSlots, read]
    rfl
  | embedded layout' =>
    cases same
    rw [decodeSlots, read]
    cases value <;> rfl
  | foreign typeName written => cases same

theorem paddedInSlots_cons_of_ok (same : slot.layout? = some layout)
    (read : layout.decode (some record) r = .ok (value, r')) :
    paddedInSlots (slot :: rest) record r =
      layout.padded (some record) r ++
        (slot.store record value).elim [] fun record' => paddedInSlots rest record' r' := by
  cases slot with
  | named name layout' | padding layout' label =>
    cases same
    rw [paddedInSlots, read]
    rfl
  | embedded layout' =>
    cases same
    rw [paddedInSlots, read]
    cases value <;> rfl
  | foreign typeName written => cases same

theorem paddedInSlots_cons_of_error (same : slot.layout? = some layout)
    (stopped : layout.decode (some record) r = .error failure) :
    paddedInSlots (slot :: rest) record r = layout.padded (some record) r := by
  cases slot with
  | named | embedded | padding =>
    cases same
    rw [paddedInSlots, stopped, List.append_nil]
  | foreign => cases same

/-- The items before the one that stops are passed. -/
theorem stopsBehind_decodeItems {item : BitReader → Except Failure (Value × BitReader)}
    {padded : BitReader → List Bool} (each : StopsBehind item padded)
    (passes : ∀ {r r' value}, r.Valid → item r = .ok (value, r') → r.Passes (padded r) r')
    (count index : Nat) :
    StopsBehind (decodeItems item count index) (paddedInItems item padded count) := by
  induction count generalizing index with
  | zero => exact fun _ stopped => nomatch stopped
  | succ count ih =>
    intro r failure valid stopped
    rcases decodeItems_succ_eq_error_iff.mp stopped with ⟨inner, here, rfl⟩ | ⟨_, r₁, read, later⟩
    · rw [paddedInItems, here, List.append_nil]
      simpa using each valid here
    · have front := passes valid read
      obtain ⟨r', back, told⟩ := ih (index + 1) (front.valid valid) later
      rw [paddedInItems_succ read]
      exact ⟨r', front.append back, told⟩

/-- The slots before the one that stops are passed, and an embedded layout that reads no record. -/
theorem stopsBehind_decodeSlots {slots : List Slot}
    (each : ∀ slot ∈ slots, ∀ layout, slot.layout? = some layout →
      ∀ scope, StopsBehind (layout.decode scope) (layout.padded scope))
    (record : Entries) : StopsBehind (decodeSlots slots record) (paddedInSlots slots record) := by
  induction slots generalizing record with
  | nil => exact fun _ stopped => nomatch stopped
  | cons slot rest ih =>
    intro r failure valid stopped
    obtain ⟨inSlot, inRest⟩ := List.forall_mem_cons.mp each
    rcases decodeSlots_cons_eq_error_iff.mp stopped with ⟨_, _, rfl, rfl⟩ | ⟨layout, same,
      ⟨inner, here, rfl⟩ | ⟨value, r₁, read, ⟨unstored, rfl⟩ | ⟨record₁, stored, later⟩⟩⟩
    · exact ⟨r, valid.passes_nil, trivial⟩
    · rw [paddedInSlots_cons_of_error same here]
      simpa using inSlot layout same (some record) valid here
    · rw [paddedInSlots_cons_of_ok same read, unstored, Option.elim_none, List.append_nil]
      exact ⟨r₁, Layout.passes_of_decode valid read, trivial⟩
    · have front := Layout.passes_of_decode valid read
      obtain ⟨r', back, told⟩ := ih inRest record₁ (front.valid valid) later
      rw [paddedInSlots_cons same read stored]
      exact ⟨r', front.append back, told⟩

end Parts

namespace Layout

/-- A branch that does not choose has not passed any bits. -/
theorem padded_branch_of_fails {scope : Scope} {discriminant : Text}
    {cases : List (Integer × Layout)} {otherwise : Option Layout} {cause : Cause}
    (fails : ChoiceFails scope discriminant cases otherwise cause) (r : BitReader) :
    (branch discriminant cases otherwise).padded scope r = [] := by
  rw [padded.eq_def]
  rcases fails with ⟨rfl, -⟩ | ⟨-, unresolved⟩ | ⟨key, found, missing, -⟩
  · rfl
  · simp only [unresolved, Except.toOption, Option.elim_none]
  · rw [select_eq_or, Option.or_eq_none_iff] at missing
    simp only [found, Except.toOption, Option.elim_some, paddedInCase?_eq, missing.1, missing.2,
      Option.map_none]

/-- Every layout that stops does so behind the bits that it has passed. -/
theorem stopsBehind (layout : Layout) (scope : Scope) :
    StopsBehind (layout.decode scope) (layout.padded scope) := by
  -- On the tree of layouts. Scope varies, since parts are read in other ones.
  induction layout using Layout.induction generalizing scope with
  | abstract =>
    intro r failure valid stopped
    cases stopped
    exact ⟨r, valid.passes_nil, trivial⟩
  | sequence slots ih =>
    intro r failure valid stopped
    exact stopsBehind_decodeSlots ih [] valid (decode_sequence_eq_error_iff.mp stopped)
  | array length element ih =>
    intro r failure valid stopped
    rcases decode_array_eq_error_iff.mp stopped with ⟨cause, unresolved, rfl⟩ |
      ⟨count, resolved, later⟩
    · rw [padded, unresolved]
      exact ⟨r, valid.passes_nil, tellsOf_unresolved (category_of_resolve unresolved)⟩
    · rw [padded_array resolved]
      exact stopsBehind_decodeItems (ih none) passes_of_decode count.toNat 0 valid later
  | branch discriminant cases otherwise ih =>
    intro r failure valid stopped
    rcases decode_branch_eq_error_iff.mp stopped with ⟨cause, fails, rfl⟩ |
      ⟨key, layout, found, chosen, later⟩
    · rw [padded_branch_of_fails fails]
      exact ⟨r, valid.passes_nil, tellsOf_choiceFails fails⟩
    · rw [padded_branch found chosen]
      exact ih layout (alternative_of_select chosen) scope valid later
  | bitField width =>
    intro r failure valid stopped
    obtain ⟨error, refused, rfl⟩ := decode_bitField_eq_error_iff.mp stopped
    exact passes_of_readNat_refused .bitField valid refused
  | wideField width =>
    intro r failure valid stopped
    obtain ⟨error, refused, rfl⟩ := decode_wideField_eq_error_iff.mp stopped
    rw [padded_wideField]
    exact passes_of_readNat_refused .wideField valid refused
  | byteSlice length =>
    intro r failure valid stopped
    have unread := decode_byteSlice_eq_error_iff.mp stopped
    rw [padded]
    exact stopsBehind_readSlice .byteSlice length scope valid unread
  | text length encoding =>
    intro r failure valid stopped
    rw [padded]
    rcases decode_text_eq_error_iff.mp stopped with unread | ⟨raw, r', read, unspelled⟩
    · exact stopsBehind_readSlice .text length scope valid unread
    · exact ⟨r', passes_of_readSlice read, tellsOf_readText unspelled⟩
  | padding width => exact stopsBehind_padding width scope

end Layout

end BitLayout
