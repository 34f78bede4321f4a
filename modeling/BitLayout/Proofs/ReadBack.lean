import BitLayout.Proofs.Decoding.Failure
import BitLayout.Proofs.Layout.Numbers
import BitLayout.Proofs.RoundTrip
import BitLayout.Proofs.Text.Readable
import BitLayout.Proofs.Visits
import Mathlib

/-!
# Reading back what was written

The encoder resolves a reference in the whole record and the decoder in the fields that it has read.
They come to the same number if the reference names a bit or wide field of an earlier slot of the
sequence that it stands in, or a branch between such fields. Then a reader at the bits of a value
recovers it, in so far as references depend on it, and goes on behind them. The records may have
other fields besides those of the layout, and an embedded layout that reads no record stops the
reader.

An embedded sequence starts a record of its own when it is decoded, so a reference inside it to a
field of the record around it is not of this kind.

## Main definitions

* `Writing.IsRegular`: numbers, bytes and texts of the right size
* `Layout.Carries`: what is known of a value that is read for another one
* `Recovers`: the outcome of reading again
* `Layout.ReadsBack`, `SlotsReadBack`: what is written is read again, with the numbers that may be
  referred to

## Main results

* `slotsReadBack_of`, `decodeItems_of_encodeItems_regular`: slots and items one after another
* `Layout.readsBack`, `slotsReadBack`: everything that refers to numbers reads back what it wrote
-/

namespace BitLayout

/-- A bit or wide field is given a number of its width. -/
def Writing.FitsWidth (visit : Writing) : Prop :=
  match visit.layout with
  | .bitField width => visit.value.FitsWidth width
  | .wideField width => visit.value.FitsWidth width
  | _ => True

/-- Numbers have the width of their fields, and bytes and texts the length of their layouts. -/
structure Writing.IsRegular (visit : Writing) : Prop where
  width : visit.FitsWidth
  length : visit.KeepsLength

/-- A value that is read for another one has its number, if the layout is one of numbers, and those of
its fields, if the layout merges them. -/
structure Layout.Carries (layout : Layout) (value' value : Value) : Prop where
  number : layout.IsNumber → ∀ n, value.integer? = some n →
    ∃ n', value'.integer? = some n' ∧ n'.toInt = n.toInt
  fields : ∀ record fields, value = .dict record → value' = .dict fields →
    Scope.Supports (some fields) layout.numberNames (some record)

/-- What reading again comes to: something of the given kind and a place to go on, unless an embedded
layout reads no record. -/
def Recovers {α : Type} (outcome : Except Failure (α × BitReader)) (r' : BitReader) (P : α → Prop) :
    Prop :=
  (∃ a, outcome = .ok (a, r') ∧ P a) ∨
    ∃ failure, outcome = .error failure ∧ failure.BelongsTo .typeMismatch

theorem Recovers.of_ok {α : Type} {outcome : Except Failure (α × BitReader)} {r r' : BitReader}
    {P : α → Prop} {a : α} (recovers : Recovers outcome r' P) (read : outcome = .ok (a, r)) :
    r = r' ∧ P a := by
  rcases recovers with ⟨a', read', holds⟩ | ⟨failure, stopped, -⟩
  · cases read.symm.trans read'
    exact ⟨rfl, holds⟩
  · cases read.symm.trans stopped

/-- What a regular value is written as is read back: wherever a reader finds these bits, in a scope
that knows what is referred to, it recovers the value and moves past them. -/
def Layout.ReadsBack (layout : Layout) (known : Set Text) : Prop :=
  ∀ {memory : Memory} {scope : Scope} {value : Value} {w w' : BitWriter} {written : List Bool},
    Writing.All Writing.IsRegular ⟨layout, scope, value⟩ →
    layout.encode memory value scope w = .ok w' → w.Holds written →
    ∃ added, w'.Holds (written ++ added) ∧
      ∀ {scope' : Scope} {r : BitReader}, r.StartsWith added written →
        scope'.Supports known scope →
        Recovers (layout.decode scope' r) (r.advance added.length) fun value' =>
          layout.Carries value' value

/-- The same for slots, one after another: a reader recovers a record that supports the references
to their numbers as well. -/
def SlotsReadBack (slots : List Slot) (known : Set Text) : Prop :=
  ∀ {memory : Memory} {record : Entries} {w w' : BitWriter} {written : List Bool},
    (∀ slot ∈ slots, ∀ layout, slot.layout? = some layout →
      Writing.All Writing.IsRegular ⟨layout, some record, slot.load record⟩) →
    encodeSlots memory slots record w = .ok w' → w.Holds written →
    ∃ added, w'.Holds (written ++ added) ∧
      ∀ {done : Entries} {r : BitReader}, r.StartsWith added written →
        done.Lacks (namesOfSlots slots) → Scope.Supports (some done) known (some record) →
        Recovers (decodeSlots slots done r) (r.advance added.length) fun final =>
          Scope.Supports (some final) (known ∪ numberNamesOfSlots slots) (some record)

section Scopes

variable {known others : Set Text} {scope scope' : Scope} {entries whole : Entries}

theorem Scope.Supports.union (first : scope'.Supports known scope)
    (second : scope'.Supports others scope) : scope'.Supports (known ∪ others) scope :=
  fun name refers => refers.elim (first name) (second name)

theorem Scope.Supports.mono (supports : scope'.Supports known scope) (within : others ⊆ known) :
    scope'.Supports others scope :=
  fun name refers => supports name (within refers)

/-- A record with more fields still supports what it supported. -/
theorem Scope.Supports.extend (supports : Supports (some entries) known scope)
    (extension : whole.Extends entries) : Supports (some whole) known scope := by
  intro name refers n resolved
  obtain ⟨n', resolved', same⟩ := supports name refers n resolved
  obtain ⟨_, value, here, found, number⟩ := resolveField_eq_ok_iff.mp resolved'
  cases here
  refine ⟨n', resolveField_eq_ok_iff.mpr ⟨whole, value, rfl, ?_, number⟩, same⟩
  exact extension name value found

theorem Scope.supports_empty (scope' scope : Scope) : scope'.Supports ∅ scope :=
  fun _ refers => refers.elim

end Scopes

section Slots

variable {memory : Memory} {record done : Entries} {known : Set Text} {w w' : BitWriter}
  {written : List Bool}

/-- A slot that stores a value in place of its own supports the references to it from then on. -/
theorem Slot.supports_store {slot : Slot} {layout : Layout} {value' : Value} {done' : Entries}
    (same : slot.layout? = some layout) (carries : layout.Carries value' (slot.load record))
    (named : ∀ fields, value' = .dict fields → Entries.NamedBy fields layout.mergedNames)
    (fresh : done.Lacks slot.names) (stored : slot.store done value' = some done')
    (supports : Scope.Supports (some done) known (some record)) :
    Scope.Supports (some done') (known ∪ slot.numberNames) (some record) := by
  have extends_done : done'.Extends done := by
    obtain ⟨fields, rfl, -⟩ := Slot.store_eq_append same named fresh stored
    exact Entries.extends_append_left
  refine (supports.extend extends_done).union ?_
  cases slot with
  | named name layout =>
    cases same
    cases stored
    rintro other ⟨equal, isNumber⟩ n resolved
    rw [equal] at resolved ⊢
    obtain ⟨_, value, here, found, number⟩ := resolveField_eq_ok_iff.mp resolved
    cases here
    have number' : (Slot.load record (.named name layout)).integer? = some n := by
      rw [Slot.load, found]
      exact number
    obtain ⟨n', number'', same⟩ := carries.number isNumber n number'
    refine ⟨n', resolveField_eq_ok_iff.mpr ⟨_, value', rfl, ?_, number''⟩, same⟩
    exact Entries.field?_insert_self
  | embedded layout =>
    cases same
    cases value' with
    | dict fields =>
      cases stored
      have apart := named fields rfl
      rw [Entries.merge_of_absent apart fresh]
      exact (carries.fields record fields rfl rfl).extend (Entries.extends_append_right apart fresh)
    | _ => cases stored
  | padding => exact Scope.supports_empty _ _
  | foreign => cases same

/-- Slots read back what they wrote if the layouts in them do. -/
theorem slotsReadBack_of {slots : List Slot}
    (each : ∀ slot ∈ slots, ∀ layout, slot.layout? = some layout → ∀ {known},
      layout.RefersToNumbers known → layout.ReadsBack known)
    (wellFormed : WellFormedSlots slots) (distinct : (Layout.sequence slots).DistinctNames)
    (refers : SlotsReferToNumbers slots known) : SlotsReadBack slots known := by
  intro memory record w w' written regular wrote holds
  -- Along the slots: what may be referred to grows by the numbers of each slot, what has been read by
  -- the fields that it stores, and the other slots are still unused in it.
  induction slots generalizing known w written with
  | nil =>
    cases wrote
    refine ⟨[], by simpa using holds, fun {done r} starts _ supports => Or.inl ⟨done, ?_, ?_⟩⟩
    · rw [List.length_nil, starts.valid.advance_zero, decodeSlots]
    · rwa [numberNamesOfSlots, Set.union_empty]
  | cons slot rest ih =>
    obtain ⟨inSlot, inRest⟩ := List.forall_mem_cons.mp each
    obtain ⟨regular_slot, regular_rest⟩ := List.forall_mem_cons.mp regular
    obtain ⟨refers_slot, refers_rest⟩ := refers
    obtain ⟨apart, -⟩ := distinct.1
    obtain ⟨layout, w₁, same, wrote_first, wrote_rest⟩ :=
      (encodeSlots_cons_eq_ok_iff wellFormed.1).mp wrote
    obtain ⟨front, holds₁, read_first⟩ := inSlot layout same (refers_slot.of_layout? same)
      (regular_slot layout same) wrote_first holds
    obtain ⟨back, holds', read_rest⟩ :=
      ih inRest wellFormed.2 distinct.rest refers_rest regular_rest wrote_rest holds₁
    refine ⟨front ++ back, by rwa [← List.append_assoc], fun {done r} starts fresh supports => ?_⟩
    obtain ⟨fresh_slot, fresh_rest⟩ := List.forall_mem_append.mp fresh
    rcases read_first starts.front supports with ⟨value', read, carries⟩ | ⟨failure, stopped, family⟩
    · have named (fields : Entries) (dict : value' = .dict fields) :
          fields.NamedBy layout.mergedNames :=
        Layout.namedBy_of_decode (distinct.2.of_mem List.mem_cons_self same) (dict ▸ read)
      cases stored : slot.store done value' with
      | none =>
        refine Or.inr ⟨_, decodeSlots_cons_eq_error_iff.mpr
          (Or.inr ⟨layout, same, Or.inr ⟨value', _, read, Or.inl ⟨stored, rfl⟩⟩⟩), ?_⟩
        simp [Failure.BelongsTo, Cause.category, Category.ancestors]
      | some done₁ =>
        have supports₁ := Slot.supports_store same carries named fresh_slot stored supports
        obtain ⟨fields, rfl, named_fields⟩ := Slot.store_eq_append same named fresh_slot stored
        have fresh₁ := Entries.Lacks.append fresh_rest named_fields apart
        rcases read_rest starts.back fresh₁ supports₁ with ⟨final, read', supports'⟩ |
          ⟨failure, stopped, family⟩
        · refine Or.inl ⟨final, ?_, ?_⟩
          · rw [List.length_append, ← BitReader.advance_advance]
            exact decodeSlots_cons_eq_ok_iff.mpr ⟨layout, value', _, _, same, read, stored, read'⟩
          · rwa [numberNamesOfSlots, ← Set.union_assoc]
        · exact Or.inr ⟨failure, decodeSlots_cons_eq_error_iff.mpr
            (Or.inr ⟨layout, same, Or.inr ⟨value', _, read, Or.inr ⟨_, stored, stopped⟩⟩⟩), family⟩
    · exact Or.inr ⟨_, decodeSlots_cons_eq_error_iff.mpr
        (Or.inr ⟨layout, same, Or.inl ⟨failure, stopped, rfl⟩⟩), Slot.belongsTo_place.mpr family⟩

theorem decodeItems_of_encodeItems_regular {element : Layout}
    (readsBack : element.ReadsBack Set.univ) {index : Nat} {items : List Value}
    (regular : ∀ item ∈ items, Writing.All Writing.IsRegular ⟨element, none, item⟩)
    (wrote : encodeItems (fun item w => element.encode memory item none w) index items w = .ok w')
    (holds : w.Holds written) :
    ∃ added, w'.Holds (written ++ added) ∧
      ∀ {index' : Nat} {r : BitReader}, r.StartsWith added written →
        Recovers (decodeItems (fun r => element.decode none r) items.length index' r)
          (r.advance added.length) fun _ => True := by
  induction items generalizing index w written with
  | nil =>
    cases wrote
    refine ⟨[], by simpa using holds, fun {index' r} starts => Or.inl ⟨[], ?_, trivial⟩⟩
    rw [List.length_nil, List.length_nil, starts.valid.advance_zero, decodeItems]
  | cons item items ih =>
    obtain ⟨first, others⟩ := List.forall_mem_cons.mp regular
    obtain ⟨w₁, wrote_first, wrote_others⟩ := encodeItems_cons_eq_ok_iff.mp wrote
    obtain ⟨front, holds₁, read_first⟩ := readsBack first wrote_first holds
    obtain ⟨back, holds', read_others⟩ := ih others wrote_others holds₁
    refine ⟨front ++ back, by rwa [← List.append_assoc], fun {index' r} starts => ?_⟩
    rw [List.length_cons]
    rcases read_first starts.front (Scope.supports_none none Set.univ) with ⟨item', read, -⟩ |
      ⟨failure, stopped, family⟩
    · rcases read_others starts.back with ⟨items', read', -⟩ | ⟨failure, stopped, family⟩
      · refine Or.inl ⟨item' :: items', ?_, trivial⟩
        rw [List.length_append, ← BitReader.advance_advance]
        exact decodeItems_succ_eq_ok_iff.mpr ⟨item', items', _, read, read', rfl⟩
      · exact Or.inr ⟨failure, decodeItems_succ_eq_error_iff.mpr (Or.inr ⟨item', _, read, stopped⟩),
          family⟩
    · exact Or.inr ⟨_, decodeItems_succ_eq_error_iff.mpr (Or.inl ⟨failure, stopped, rfl⟩),
        Failure.belongsTo_within.mpr family⟩

end Slots

namespace Layout

variable {known : Set Text}

/-- A layout without fields of its own reads back what it gives back. -/
theorem readsBack_of_givesBack {layout : Layout} (givesBack : layout.GivesBack known)
    (noNames : layout.numberNames = ∅)
    (fits : ∀ {memory : Memory} {scope : Scope} {value : Value} {w w' : BitWriter},
      Writing.IsRegular ⟨layout, scope, value⟩ → layout.encode memory value scope w = .ok w' →
      layout.Fits scope value) : layout.ReadsBack known := by
  intro memory scope value w w' written regular wrote holds
  obtain ⟨added, holds', read⟩ := givesBack (fits regular.here wrote) wrote holds
  refine ⟨added, holds', fun {scope' r} starts supports => ?_⟩
  obtain ⟨value', read_value, matches_⟩ := read starts supports
  refine Or.inl ⟨value', read_value, fun _ => matches_.number, fun record fields _ _ => ?_⟩
  rw [noNames]
  exact Scope.supports_empty _ _

theorem readsBack_byteSlice {length : Length} (refers : length.RefersTo known) :
    (byteSlice length).ReadsBack known := by
  refine readsBack_of_givesBack (givesBack_byteSlice refers) rfl ?_
  intro memory scope value w w' regular wrote
  obtain ⟨holder, raw, rfl, wrote_raw⟩ := encode_byteSlice_eq_ok_iff.mp wrote
  obtain ⟨⟨count, resolved⟩, -⟩ := writeSlice_eq_ok_iff.mp wrote_raw
  exact .byteSlice resolved (regular.length count resolved)

theorem readsBack_text {length : Length} {encoding : Text} (refers : length.RefersTo known) :
    (text length encoding).ReadsBack known := by
  refine readsBack_of_givesBack (givesBack_text refers) rfl ?_
  intro memory scope value w w' regular wrote
  obtain ⟨t, raw, rfl, spelled, wrote_raw⟩ := encode_text_eq_ok_iff.mp wrote
  obtain ⟨⟨count, resolved⟩, -⟩ := writeSlice_eq_ok_iff.mp wrote_raw
  exact .text resolved spelled (regular.length count raw resolved spelled)
    (EncodingName.decode_of_encode spelled)

/-- Padding writes the same bits whatever value it is given. -/
theorem readsBack_padding (width : Integer) : (padding width).ReadsBack known := by
  intro memory scope value w w' written _ wrote holds
  have wrote_null : (padding width).encode memory .null scope w = .ok w' :=
    encode_padding_eq_ok_iff.mpr (encode_padding_eq_ok_iff.mp wrote)
  obtain ⟨added, holds', read⟩ := givesBack_padding width .padding wrote_null holds
  refine ⟨added, holds', fun {scope' r} starts supports => ?_⟩
  obtain ⟨value', read_value, -⟩ := read starts supports
  exact Or.inl ⟨value', read_value, False.elim, fun _ _ _ _ => Scope.supports_empty _ _⟩

theorem readsBack_sequence {slots : List Slot} (slotsReadBack : SlotsReadBack slots ∅) :
    (sequence slots).ReadsBack known := by
  intro memory scope value w w' written regular wrote holds
  obtain ⟨record, rfl, wrote_slots⟩ := encode_sequence_eq_ok_iff.mp wrote
  obtain ⟨added, holds', read⟩ :=
    slotsReadBack (Writing.all_sequence_iff.mp regular).2 wrote_slots holds
  refine ⟨added, holds', fun {scope' r} starts _ => ?_⟩
  -- The record starts again without any field, whatever there is around it.
  rcases read starts (Entries.lacks_nil _) (Scope.supports_empty _ _) with
    ⟨final, read_slots, supports⟩ | ⟨failure, stopped, family⟩
  · refine Or.inl ⟨.dict final, decode_sequence_eq_ok_iff.mpr ⟨final, read_slots, rfl⟩,
      False.elim, ?_⟩
    intro record' fields same same'
    cases same
    cases same'
    rwa [Set.empty_union] at supports
  · exact Or.inr ⟨failure, decode_sequence_eq_error_iff.mpr stopped, family⟩

theorem readsBack_array {length : Length} {element : Layout} (refers : length.RefersTo known)
    (readsBack : element.ReadsBack Set.univ) : (array length element).ReadsBack known := by
  intro memory scope value w w' written regular wrote holds
  obtain ⟨items, count, list, resolved, same, wrote_items⟩ := encode_array_eq_ok_iff.mp wrote
  obtain ⟨added, holds', read⟩ := decodeItems_of_encodeItems_regular readsBack
    ((Writing.all_array_iff.mp regular).2 items list) wrote_items holds
  refine ⟨added, holds', fun {scope' r} starts supports => ?_⟩
  obtain ⟨count', resolved', same'⟩ := supports.resolve refers resolved
  -- The count may be spelled in another way, but it is the number of items.
  have count_eq : count'.toNat = items.length := by
    rw [Integer.toNat, same', same, Int.toNat_natCast]
  rcases read starts with ⟨items', read_items, -⟩ | ⟨failure, stopped, family⟩
  · refine Or.inl ⟨.list items', ?_, False.elim, fun _ _ _ _ => Scope.supports_empty _ _⟩
    exact decode_array_eq_ok_iff.mpr ⟨count', items', resolved', count_eq ▸ read_items, rfl⟩
  · refine Or.inr ⟨failure, decode_array_eq_error_iff.mpr (Or.inr ⟨count', resolved', ?_⟩), family⟩
    rwa [count_eq]

theorem readsBack_branch {discriminant : Text} {cases : List (Integer × Layout)}
    {otherwise : Option Layout} (refers : discriminant ∈ known)
    (each : ∀ layout, Alternative cases otherwise layout → layout.ReadsBack known) :
    (branch discriminant cases otherwise).ReadsBack known := by
  intro memory scope value w w' written regular wrote holds
  obtain ⟨key, layout, found, chosen, wrote_chosen⟩ := encode_branch_eq_ok_iff.mp wrote
  have alternative := alternative_of_select chosen
  obtain ⟨added, holds', read⟩ := each layout alternative
    (regular.below (.alternative found chosen)) wrote_chosen holds
  refine ⟨added, holds', fun {scope' r} starts supports => ?_⟩
  obtain ⟨key', found', chosen'⟩ := supports.select refers found chosen
  rcases read starts supports with ⟨value', read_chosen, carries⟩ | ⟨failure, stopped, family⟩
  · refine Or.inl ⟨value', decode_branch_eq_ok_iff.mpr ⟨key', layout, found', chosen', read_chosen⟩,
      fun isNumber => carries.number (isNumber.alternative alternative),
      fun record fields same same' => ?_⟩
    exact (carries.fields record fields same same').mono alternative.numberNames_subset
  · exact Or.inr ⟨failure, decode_branch_eq_error_iff.mpr
      (Or.inr ⟨key', layout, found', chosen', stopped⟩), family⟩

/-- Every well-formed layout with distinct names that refers to earlier numbers reads back what it
wrote for a regular value. -/
theorem readsBack {layout : Layout} (wellFormed : layout.WellFormed)
    (distinct : layout.DistinctNames) (refers : layout.RefersToNumbers known) :
    layout.ReadsBack known := by
  induction layout using Layout.induction generalizing known with
  | abstract => exact wellFormed.elim
  | sequence slots ih =>
    refine readsBack_sequence (slotsReadBack_of ?_ wellFormed distinct refers)
    intro slot member layout same known refers
    exact ih slot member layout same (wellFormed.of_mem member same) (distinct.2.of_mem member same)
      refers
  | array length element ih =>
    exact readsBack_array refers.1 (ih wellFormed.2 distinct.2 refers.2)
  | branch discriminant cases otherwise ih =>
    refine readsBack_branch refers.discriminant_mem fun layout alternative => ?_
    exact ih layout alternative (wellFormed.alternative alternative)
      (distinct.alternative alternative) (refers.alternative alternative)
  | bitField width =>
    exact readsBack_of_givesBack (givesBack_bitField width) rfl
      fun regular _ => .bitField regular.width
  | wideField width =>
    exact readsBack_of_givesBack (givesBack_wideField width) rfl
      fun regular _ => .wideField regular.width
  | byteSlice length => exact readsBack_byteSlice refers
  | text length encoding => exact readsBack_text refers
  | padding width => exact readsBack_padding width

end Layout

theorem slotsReadBack {slots : List Slot} {known : Set Text} (wellFormed : WellFormedSlots slots)
    (distinct : (Layout.sequence slots).DistinctNames) (refers : SlotsReferToNumbers slots known) :
    SlotsReadBack slots known := by
  refine slotsReadBack_of ?_ wellFormed distinct refers
  intro slot member layout same known refers
  exact Layout.readsBack (wellFormed.of_mem member same) (distinct.2.of_mem member same) refers

end BitLayout
