import BitLayout.Proofs.Decoding.Failure
import BitLayout.Proofs.Decoding.Record
import BitLayout.Proofs.Encoding.Failure
import BitLayout.Proofs.Layout.Decidable
import Mathlib

/-!
# Every failure is one of decoding or encoding

A layout that passed its checks cannot be at fault itself: whatever it is given to read or to write,
it comes to an answer or to a failure of the codec family. Reading relies on the widths and lengths
that were checked and on the counts in a record, which were read from bits and so are not negative.
Writing has one way out: a number as wide as a field of the layout may be more than the machine can
hold.

## Main definitions

* `Layout.HasWidth`: a width of a field or of padding somewhere in a layout
* `Layout.LacksRoom`: a failure for want of room for such a width

## Main results

* `Layout.isCodec_of_decode`, `Layout.isCodec_or_lacksRoom_of_encode`: the failures of one layout
* `Layout.answers`: the outcomes of whole byte strings and values
-/

namespace BitLayout

section Widths

variable {layout : Layout} {width : Integer} {memory : Memory} {failure : Failure}

/-- A width of a field or of padding somewhere in a layout. -/
def Layout.HasWidth (layout : Layout) (width : Integer) : Prop :=
  ¬layout.Everywhere fun part => part.width? ≠ some width

/-- There is no room for a number as wide as one of the layout. -/
def Layout.LacksRoom (layout : Layout) (memory : Memory) (failure : Failure) : Prop :=
  ∃ width error, layout.HasWidth width ∧ memory.reserve width.toNat = .error error ∧
    failure = .cursor error

/-- A layout lacks the room that a part of it lacks. -/
theorem Layout.LacksRoom.of_part {part : Layout} (lacks : part.LacksRoom memory failure)
    (below : ∀ {P : Layout → Prop}, layout.Everywhere P → part.Everywhere P) :
    layout.LacksRoom memory failure := by
  obtain ⟨width, error, has, reserved, rfl⟩ := lacks
  exact ⟨width, error, fun everywhere => has (below everywhere), reserved, rfl⟩

end Widths

section Decoding

variable {scope : Scope} {r : BitReader} {failure : Failure} {kind : Layout.Kind}

/-- A number of positive width is refused for want of bits only. -/
theorem isCodec_of_readNat {width : Integer} (positive : 1 ≤ width.toInt) {error : CursorError}
    (refused : r.readNat width = .error error) : (error.ofKind kind).IsCodec := by
  rcases BitReader.readNat_eq_error_iff.mp refused with ⟨narrow, -⟩ | ⟨-, -, rfl⟩
  · omega
  · exact Failure.isCodec_located _ _

theorem isCodec_of_skip {count : Integer} (nonnegative : 0 ≤ count.toInt) {error : CursorError}
    (refused : r.skip count = .error error) : (error.ofKind kind).IsCodec := by
  rcases BitReader.skip_eq_error_iff.mp refused with ⟨negative, -⟩ | ⟨-, -, rfl⟩
  · omega
  · exact Failure.isCodec_located _ _

/-- A slice is refused for its place, its length or want of bits, but never for a negative count. -/
theorem isCodec_of_readSlice {length : Length} (wellFormed : length.WellFormed)
    (natural : scope.Natural) (stopped : readSlice kind length scope r = .error failure) :
    failure.IsCodec := by
  rcases readSlice_eq_error_iff.mp stopped with ⟨-, rfl⟩ | ⟨-, cause, -, rfl⟩ | ⟨-, count, resolved,
    ⟨negative, -⟩ | ⟨-, -, rfl⟩⟩
  · exact Failure.isCodec_located _ _
  · exact Failure.isCodec_located _ _
  · have nonnegative := natural.resolve wellFormed resolved
    omega
  · exact Failure.isCodec_located _ _

theorem isCodec_of_decodeItems {item : BitReader → Except Failure (Value × BitReader)}
    (each : ∀ {r failure}, item r = .error failure → failure.IsCodec) {count index : Nat}
    (stopped : decodeItems item count index r = .error failure) : failure.IsCodec := by
  induction count generalizing index r with
  | zero => cases stopped
  | succ count ih =>
    rcases decodeItems_succ_eq_error_iff.mp stopped with ⟨inner, here, rfl⟩ | ⟨-, r₁, -, later⟩
    · exact Failure.belongsTo_within.mpr (each here)
    · exact ih later

theorem isCodec_of_decodeSlots {slots : List Slot}
    (each : ∀ slot ∈ slots, ∀ layout, slot.layout? = some layout → ∀ {scope r failure},
      scope.Natural → layout.decode scope r = .error failure → failure.IsCodec)
    (wellFormed : WellFormedSlots slots) {record : Entries} (natural : record.Natural)
    (stopped : decodeSlots slots record r = .error failure) : failure.IsCodec := by
  -- One slot after another; nothing negative comes into the record that later slots refer to.
  induction slots generalizing record r with
  | nil => cases stopped
  | cons slot rest ih =>
    obtain ⟨inSlot, inRest⟩ := List.forall_mem_cons.mp each
    rcases decodeSlots_cons_eq_error_iff.mp stopped with ⟨_, _, rfl, -⟩ | ⟨layout, same,
      ⟨inner, here, rfl⟩ | ⟨value, r₁, read, ⟨-, rfl⟩ | ⟨record₁, stored, later⟩⟩⟩
    · exact wellFormed.1.elim
    · exact Slot.belongsTo_place.mpr (inSlot layout same natural.scope here)
    · exact Failure.isCodec_located _ _
    · obtain ⟨alone, inRecord⟩ := Layout.natural_of_decode read
      exact ih inRest wellFormed.2 (natural.store alone inRecord stored) later

/-- A well-formed layout stops reading with a failure of the codec family, as long as the record
around it holds nothing negative. -/
theorem Layout.isCodec_of_decode {layout : Layout} (wellFormed : layout.WellFormed)
    (natural : scope.Natural) (stopped : layout.decode scope r = .error failure) :
    failure.IsCodec := by
  induction layout using Layout.induction generalizing scope r failure with
  | abstract => exact wellFormed.elim
  | sequence slots ih =>
    refine isCodec_of_decodeSlots ?_ wellFormed (by simp [Entries.Natural])
      (decode_sequence_eq_error_iff.mp stopped)
    intro slot member layout same scope r failure natural
    exact ih slot member layout same (wellFormed.of_mem member same) natural
  | array length element ih =>
    rcases decode_array_eq_error_iff.mp stopped with ⟨cause, -, rfl⟩ | ⟨count, -, stopped⟩
    · exact Failure.isCodec_located _ _
    · exact isCodec_of_decodeItems (ih wellFormed.2 Scope.natural_none) stopped
  | branch discriminant cases otherwise ih =>
    rcases decode_branch_eq_error_iff.mp stopped with ⟨cause, -, rfl⟩ | ⟨key, layout, -, chosen,
      stopped⟩
    · exact Failure.isCodec_located _ _
    · have alternative := alternative_of_select chosen
      exact ih layout alternative (wellFormed.alternative alternative) natural stopped
  | bitField width =>
    obtain ⟨error, refused, rfl⟩ := decode_bitField_eq_error_iff.mp stopped
    exact isCodec_of_readNat wellFormed.1.le_toInt refused
  | wideField width =>
    obtain ⟨error, refused, rfl⟩ := decode_wideField_eq_error_iff.mp stopped
    exact isCodec_of_readNat (Integer.IsAtLeast.le_toInt wellFormed) refused
  | byteSlice length =>
    exact isCodec_of_readSlice wellFormed natural (decode_byteSlice_eq_error_iff.mp stopped)
  | text length encoding =>
    obtain ⟨wellFormed, e, found⟩ := wellFormed
    rcases decode_text_eq_error_iff.mp stopped with stopped | ⟨raw, r', -, stopped⟩
    · exact isCodec_of_readSlice wellFormed natural stopped
    · obtain ⟨fault, -, rfl⟩ := (readText_eq_error_iff found).mp stopped
      exact Failure.isCodec_located _ _
  | padding width =>
    obtain ⟨error, refused, rfl⟩ := decode_padding_eq_error_iff.mp stopped
    have positive : 1 ≤ width.toInt := Integer.IsAtLeast.le_toInt wellFormed
    exact isCodec_of_skip (by omega) refused

end Decoding

section Encoding

variable {memory : Memory} {scope : Scope} {w : BitWriter} {value : Value} {failure : Failure}

/-- A number of positive width is refused for want of room only. -/
theorem reserve_of_writeIntWithin {n : Int} {width : Integer} (positive : 1 ≤ width.toInt)
    {error : CursorError} (refused : w.writeIntWithin memory n width = .error error) :
    memory.reserve width.toNat = .error error := by
  rcases BitWriter.writeIntWithin_eq_error_iff.mp refused with reserved | ⟨-, narrow, -⟩
  · exact reserved
  · omega

/-- A layout with a width of its own lacks the room that is lacking for it. -/
theorem Layout.lacksRoom_of_reserve {layout : Layout} {width : Integer}
    (here : ∀ {P : Layout → Prop}, layout.Everywhere P → P layout)
    (has : layout.width? = some width) {error : CursorError}
    (reserved : memory.reserve width.toNat = .error error) :
    layout.LacksRoom memory (.cursor error) :=
  ⟨width, error, fun everywhere => here everywhere has, reserved, rfl⟩

theorem isCodec_or_reserve_of_writeInteger {kind : Layout.Kind} {width : Integer}
    (positive : 1 ≤ width.toInt)
    (refused : writeInteger memory kind width value w = .error failure) :
    failure.IsCodec ∨ ∃ error, memory.reserve width.toNat = .error error ∧ .cursor error = failure := by
  rcases writeInteger_eq_error_iff.mp refused with ⟨-, rfl⟩ | ⟨-, -, rfl⟩ | ⟨n, error, -, byWriter,
    rfl⟩
  · exact Or.inl (Failure.isCodec_located _ _)
  · exact Or.inl (Failure.isCodec_located _ _)
  · exact Or.inr ⟨error, reserve_of_writeIntWithin positive byWriter, rfl⟩

theorem isCodec_of_writeSlice {kind : Layout.Kind} {length : Length} {raw : List UInt8}
    (refused : writeSlice kind length raw scope w = .error failure) : failure.IsCodec := by
  rcases writeSlice_eq_error_iff.mp refused with ⟨-, rfl⟩ | ⟨-, cause, -, rfl⟩
  · exact Failure.isCodec_located _ _
  · exact Failure.isCodec_located _ _

theorem isCodec_or_lacksRoom_of_encodeItems {layout : Layout}
    {item : Value → BitWriter → Except Failure BitWriter}
    (each : ∀ {value w failure}, item value w = .error failure →
      failure.IsCodec ∨ layout.LacksRoom memory failure)
    {index : Nat} {items : List Value} (refused : encodeItems item index items w = .error failure) :
    failure.IsCodec ∨ layout.LacksRoom memory failure := by
  induction items generalizing index w with
  | nil => cases refused
  | cons first others ih =>
    rcases encodeItems_cons_eq_error_iff.mp refused with ⟨inner, here, rfl⟩ | ⟨w₁, -, later⟩
    · refine (each here).imp Failure.belongsTo_within.mpr ?_
      rintro ⟨width, error, has, reserved, rfl⟩
      exact ⟨width, error, has, reserved, rfl⟩
    · exact ih later

theorem isCodec_or_lacksRoom_of_encodeSlots {whole : Layout} {slots : List Slot}
    (each : ∀ slot ∈ slots, ∀ layout, slot.layout? = some layout → ∀ {value scope w failure},
      layout.encode memory value scope w = .error failure →
      failure.IsCodec ∨ whole.LacksRoom memory failure)
    (wellFormed : WellFormedSlots slots) {record : Entries}
    (refused : encodeSlots memory slots record w = .error failure) :
    failure.IsCodec ∨ whole.LacksRoom memory failure := by
  induction slots generalizing w with
  | nil => cases refused
  | cons slot rest ih =>
    obtain ⟨inSlot, inRest⟩ := List.forall_mem_cons.mp each
    obtain ⟨layout, same, ⟨inner, here, rfl⟩ | ⟨w₁, -, later⟩⟩ :=
      (encodeSlots_cons_eq_error_iff wellFormed.1).mp refused
    · refine (inSlot layout same here).imp Slot.belongsTo_place.mpr ?_
      -- Want of room has no place, so the sequence passes it on as it is.
      rintro ⟨width, error, has, reserved, rfl⟩
      exact ⟨width, error, has, reserved, slot.place_cursor error⟩
    · exact ih inRest wellFormed.2 later

/-- A well-formed layout refuses any value with a failure of the codec family, unless there is no
room for a number as wide as one of its fields. -/
theorem Layout.isCodec_or_lacksRoom_of_encode {layout : Layout} (wellFormed : layout.WellFormed)
    (refused : layout.encode memory value scope w = .error failure) :
    failure.IsCodec ∨ layout.LacksRoom memory failure := by
  induction layout using Layout.induction generalizing value scope w failure with
  | abstract => exact wellFormed.elim
  | sequence slots ih =>
    rcases encode_sequence_eq_error_iff.mp refused with ⟨-, rfl⟩ | ⟨record, rfl, refused⟩
    · exact Or.inl (Failure.isCodec_located _ _)
    · refine isCodec_or_lacksRoom_of_encodeSlots ?_ wellFormed refused
      intro slot member layout same value scope w failure refused
      refine (ih slot member layout same (wellFormed.of_mem member same) refused).imp_right ?_
      exact fun lacks => lacks.of_part fun everywhere => everywhere.2.of_mem member same
  | array length element ih =>
    rcases encode_array_eq_error_iff.mp refused with ⟨-, rfl⟩ | ⟨items, -, ⟨cause, -, rfl⟩ |
      ⟨count, -, ⟨-, rfl⟩ | ⟨-, refused⟩⟩⟩
    · exact Or.inl (Failure.isCodec_located _ _)
    · exact Or.inl (Failure.isCodec_located _ _)
    · exact Or.inl (Failure.isCodec_located _ _)
    · refine isCodec_or_lacksRoom_of_encodeItems (fun refused => ?_) refused
      exact (ih wellFormed.2 refused).imp_right fun lacks => lacks.of_part And.right
  | branch discriminant cases otherwise ih =>
    rcases encode_branch_eq_error_iff.mp refused with ⟨cause, -, rfl⟩ | ⟨key, layout, -, chosen,
      refused⟩
    · exact Or.inl (Failure.isCodec_located _ _)
    · have alternative := alternative_of_select chosen
      refine (ih layout alternative (wellFormed.alternative alternative) refused).imp_right ?_
      exact fun lacks => lacks.of_part fun everywhere => everywhere.alternative alternative
  | bitField width =>
    refine (isCodec_or_reserve_of_writeInteger wellFormed.1.le_toInt
      (encode_bitField_eq_error_iff.mp refused)).imp_right ?_
    rintro ⟨error, reserved, rfl⟩
    exact lacksRoom_of_reserve id rfl reserved
  | wideField width =>
    refine (isCodec_or_reserve_of_writeInteger (Integer.IsAtLeast.le_toInt wellFormed)
      (encode_wideField_eq_error_iff.mp refused)).imp_right ?_
    rintro ⟨error, reserved, rfl⟩
    exact lacksRoom_of_reserve id rfl reserved
  | byteSlice length =>
    rcases encode_byteSlice_eq_error_iff.mp refused with ⟨-, rfl⟩ | ⟨holder, raw, -, refused⟩
    · exact Or.inl (Failure.isCodec_located _ _)
    · exact Or.inl (isCodec_of_writeSlice refused)
  | text length encoding =>
    obtain ⟨-, e, found⟩ := wellFormed
    rcases encode_text_eq_error_iff.mp refused with ⟨-, rfl⟩ | ⟨t, -, refused | ⟨raw, -, refused⟩⟩
    · exact Or.inl (Failure.isCodec_located _ _)
    · obtain ⟨fault, -, rfl⟩ := (writeText_eq_error_iff found).mp refused
      exact Or.inl (Failure.isCodec_located _ _)
    · exact Or.inl (isCodec_of_writeSlice refused)
  | padding width =>
    obtain ⟨error, byWriter, rfl⟩ := encode_padding_eq_error_iff.mp refused
    have positive : 1 ≤ width.toInt := Integer.IsAtLeast.le_toInt wellFormed
    exact Or.inr (lacksRoom_of_reserve id rfl (reserve_of_writeIntWithin positive byWriter))

end Encoding

namespace Layout

variable {layout : Layout}

/-- A well-formed layout answers every byte string, strictly or not, with a value or a failure of the
codec family. It answers every value with bytes or such a failure, or, if the machine has no room for
a number as wide as a field or padding of the layout, with the error that says so. -/
theorem answers (wellFormed : layout.WellFormed) :
    (∀ (data : List UInt8) (strict : Bool),
      (∃ value, layout.decodeBytes data strict = .ok value) ∨
        ∃ failure, layout.decodeBytes data strict = .error failure ∧ failure.IsCodec) ∧
    ∀ (memory : Memory) (value : Value),
      (∃ bytes, layout.encodeWithin memory value = .ok bytes) ∨
        ∃ failure, layout.encodeWithin memory value = .error failure ∧
          (failure.IsCodec ∨ layout.LacksRoom memory failure) := by
  constructor
  · intro data strict
    cases outcome : layout.decodeBytes data strict with
    | ok value => exact Or.inl ⟨value, rfl⟩
    | error failure =>
      refine Or.inr ⟨failure, rfl, ?_⟩
      -- Besides the layout, only bytes left over stop a reading.
      rcases bind_eq_error_iff.mp outcome with stopped | ⟨⟨value, r⟩, -, leftOver⟩
      · exact isCodec_of_decode wellFormed Scope.natural_none stopped
      · dsimp only at leftOver
        split_ifs at leftOver
        cases leftOver
        exact Failure.isCodec_located _ _
  · intro memory value
    cases outcome : layout.encodeWithin memory value with
    | ok bytes => exact Or.inl ⟨bytes, rfl⟩
    | error failure =>
      have refused := map_eq_error_iff.mp outcome
      exact Or.inr ⟨failure, rfl, isCodec_or_lacksRoom_of_encode wellFormed refused⟩

theorem answers_telegram :
    telegram.WellFormed ∧
      (∀ data strict, (∃ value, telegram.decodeBytes data strict = .ok value) ∨
        ∃ failure, telegram.decodeBytes data strict = .error failure ∧ failure.IsCodec) ∧
      ∀ memory value, (∃ bytes, telegram.encodeWithin memory value = .ok bytes) ∨
        ∃ failure, telegram.encodeWithin memory value = .error failure ∧
          (failure.IsCodec ∨ telegram.LacksRoom memory failure) :=
  ⟨wellFormed_telegram, answers wellFormed_telegram⟩

/-- A field that passes the checks may still be wider than any number, which is no codec failure. -/
theorem encodeWithin_wideField_numberTooWide :
    Build.wideField (.int (2 ^ 70)) = .ok (wideField (.number (2 ^ 70))) ∧
      (wideField (.number (2 ^ 70))).WellFormed ∧
      (wideField (.number (2 ^ 70))).encodeWithin .ordinary (.int 0) =
        .error (.cursor .numberTooWide) ∧
      ¬(Failure.cursor .numberTooWide).IsCodec := by
  refine ⟨rfl, ?_, rfl, id⟩
  change (1 : Int) ≤ 2 ^ 70
  decide

end Layout

end BitLayout
