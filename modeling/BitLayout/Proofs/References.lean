import BitLayout.Proofs.ReadBack
import Mathlib

/-!
# References in both directions

A decoder that reads what an encoder wrote goes through the same layouts. Wherever it arrives, the
bits of that layout are before it, and the fields that it has read so far have the numbers that the
layout refers to. This is carried by every step, into a slot, an item or an alternative, so every
reference comes to the number that it came to when the value was encoded.

## Main definitions

* `Reading.Follows`: a reading at the bits that a writing of the same layout wrote

## Main results

* `exists_bits_of_slot`, `exists_bits_of_item`: where the bits of a part stand
* `Reading.Follows.step`, `Reading.Follows.walk`: a reading follows a writing all the way
* `Layout.references_agree`: the references of whole values
* `Layout.not_references_agree_countedApart`: a reference out of an embedded sequence, not found
-/

namespace BitLayout

/-- A reference of a layout that is written has been resolved. -/
theorem Layout.resolves_of_encode {layout : Layout} {memory : Memory} {scope : Scope} {value : Value}
    {w w' : BitWriter} {name : Text} (wrote : layout.encode memory value scope w = .ok w')
    (same : layout.reference? = some name) : ∃ n, resolveField scope name = .ok n := by
  cases layout with
  | array length element =>
    obtain ⟨_, count, _, resolved, -⟩ := encode_array_eq_ok_iff.mp wrote
    exact ⟨count, by rw [← resolved, length.resolve_of_field? same]⟩
  | branch discriminant cases otherwise =>
    cases same
    obtain ⟨key, _, found, -⟩ := encode_branch_eq_ok_iff.mp wrote
    exact ⟨key, found⟩
  | byteSlice length =>
    obtain ⟨_, _, -, wrote_raw⟩ := encode_byteSlice_eq_ok_iff.mp wrote
    obtain ⟨⟨count, resolved⟩, -⟩ := writeSlice_eq_ok_iff.mp wrote_raw
    exact ⟨count, by rw [← resolved, length.resolve_of_field? same]⟩
  | text length encoding =>
    obtain ⟨_, _, -, -, wrote_raw⟩ := encode_text_eq_ok_iff.mp wrote
    obtain ⟨⟨count, resolved⟩, -⟩ := writeSlice_eq_ok_iff.mp wrote_raw
    exact ⟨count, by rw [← resolved, length.resolve_of_field? same]⟩
  | _ => cases same

section Cuts

variable {memory : Memory} {w w' : BitWriter} {written added : List Bool}

/-- What slots write falls into the bits of those in front of one, of this one and of those behind. A
reader at the first bits recovers a record with the numbers that this slot may refer to. -/
theorem exists_bits_of_slot {slots : List Slot} (wellFormed : WellFormedSlots slots)
    (distinct : (Layout.sequence slots).DistinctNames) (refers : SlotsReferToNumbers slots ∅)
    {record : Entries}
    (regular : ∀ slot ∈ slots, ∀ layout, slot.layout? = some layout →
      Writing.All Writing.IsRegular ⟨layout, some record, slot.load record⟩)
    (wrote : encodeSlots memory slots record w = .ok w') (before : w.Holds written)
    (after : w'.Holds (written ++ added)) {index : Nat} {slot : Slot} {layout : Layout}
    (there : slots[index]? = some slot) (same : slot.layout? = some layout) :
    layout.RefersToNumbers (∅ ∪ numberNamesOfSlots (slots.take index)) ∧
    ∃ front bits back w₁ w₂, added = front ++ (bits ++ back) ∧
      layout.encode memory (slot.load record) (some record) w₁ = .ok w₂ ∧
      w₁.Holds (written ++ front) ∧ w₂.Holds (written ++ front ++ bits) ∧
      ∀ {r : BitReader}, r.StartsWith front written →
        Recovers (decodeSlots (slots.take index) [] r) (r.advance front.length) fun fields =>
          Scope.Supports (some fields) (∅ ∪ numberNamesOfSlots (slots.take index))
            (some record) := by
  have member := List.mem_of_getElem? there
  have wellFormed_layout := wellFormed.of_mem member same
  have distinct_layout := distinct.2.of_mem member same
  have regular_layout := regular slot member layout same
  have parts := eq_take_append_of_getElem? there
  generalize slots.take index = earlier at parts ⊢
  generalize slots.drop (index + 1) = later at parts
  subst parts
  obtain ⟨regular_earlier, regular_rest⟩ := List.forall_mem_append.mp regular
  obtain ⟨-, regular_later⟩ := List.forall_mem_cons.mp regular_rest
  obtain ⟨wellFormed_earlier, wellFormed_slot, wellFormed_later⟩ :=
    wellFormedSlots_append.mp wellFormed
  obtain ⟨distinct_earlier, distinct_rest⟩ := distinct.split
  obtain ⟨refers_earlier, refers_slot, refers_later⟩ := slotsReferToNumbers_append.mp refers
  have refers_layout := refers_slot.of_layout? same
  obtain ⟨w₁, wrote_earlier, wrote_rest⟩ :=
    (encodeSlots_append_eq_ok_iff wellFormed_earlier).mp wrote
  obtain ⟨_, w₂, same', wrote_layout, wrote_later⟩ :=
    (encodeSlots_cons_eq_ok_iff wellFormed_slot).mp wrote_rest
  rw [same] at same'
  cases same'
  obtain ⟨front, holds₁, read_front⟩ :=
    slotsReadBack wellFormed_earlier distinct_earlier refers_earlier regular_earlier wrote_earlier
      before
  obtain ⟨bits, holds₂, -⟩ :=
    Layout.readsBack wellFormed_layout distinct_layout refers_layout regular_layout wrote_layout holds₁
  obtain ⟨back, holds₃, -⟩ :=
    slotsReadBack wellFormed_later distinct_rest.rest refers_later regular_later wrote_later holds₂
  rw [List.append_assoc, List.append_assoc] at holds₃
  refine ⟨refers_layout, front, bits, back, w₁, w₂, after.added_eq holds₃, wrote_layout, holds₁,
    holds₂, fun {r} starts => ?_⟩
  exact read_front starts (Entries.lacks_nil _) (Scope.supports_empty _ _)

/-- The same for items. -/
theorem exists_bits_of_item {element : Layout} (readsBack : element.ReadsBack Set.univ)
    {items : List Value}
    (regular : ∀ item ∈ items, Writing.All Writing.IsRegular ⟨element, none, item⟩)
    (wrote : encodeItems (fun item w => element.encode memory item none w) 0 items w = .ok w')
    (before : w.Holds written) (after : w'.Holds (written ++ added)) {index : Nat} {item : Value}
    (there : items[index]? = some item) :
    ∃ front bits back w₁ w₂, added = front ++ (bits ++ back) ∧
      element.encode memory item none w₁ = .ok w₂ ∧
      w₁.Holds (written ++ front) ∧ w₂.Holds (written ++ front ++ bits) ∧
      ∀ {r : BitReader}, r.StartsWith front written →
        Recovers (decodeItems (fun r => element.decode none r) index 0 r) (r.advance front.length)
          fun _ => True := by
  obtain ⟨within, -⟩ := List.getElem?_eq_some_iff.mp there
  have length_earlier : (items.take index).length = index := List.length_take_of_le within.le
  rw [eq_take_append_of_getElem? there] at wrote
  obtain ⟨w₁, wrote_earlier, wrote_rest⟩ := encodeItems_append_eq_ok_iff.mp wrote
  obtain ⟨w₂, wrote_item, wrote_later⟩ := encodeItems_cons_eq_ok_iff.mp wrote_rest
  obtain ⟨front, holds₁, read_front⟩ := decodeItems_of_encodeItems_regular readsBack
    (fun item member => regular item (List.mem_of_mem_take member)) wrote_earlier before
  obtain ⟨bits, holds₂, -⟩ :=
    readsBack (regular item (List.mem_of_getElem? there)) wrote_item holds₁
  obtain ⟨back, holds₃, -⟩ := decodeItems_of_encodeItems_regular readsBack
    (fun item member => regular item (List.mem_of_mem_drop member)) wrote_later holds₂
  rw [List.append_assoc, List.append_assoc] at holds₃
  rw [length_earlier] at read_front
  exact ⟨front, bits, back, w₁, w₂, after.added_eq holds₃, wrote_item, holds₁, holds₂, read_front⟩

end Cuts

/-- A reading at the bits that a writing of the same layout has written, in a scope that knows what
the layout refers to. -/
inductive Reading.Follows : Reading → Writing → Prop
  | intro {layout : Layout} {scope scope' : Scope} {value : Value} {r : BitReader}
    {known : Set Text} {memory : Memory} {w w' : BitWriter} {written added : List Bool}
    (wellFormed : layout.WellFormed) (distinct : layout.DistinctNames)
    (refers : layout.RefersToNumbers known) (supports : scope'.Supports known scope)
    (regular : Writing.All Writing.IsRegular ⟨layout, scope, value⟩)
    (wrote : layout.encode memory value scope w = .ok w') (before : w.Holds written)
    (after : w'.Holds (written ++ added)) (starts : r.StartsWith added written) :
    Follows ⟨layout, scope', r⟩ ⟨layout, scope, value⟩

namespace Reading.Follows

variable {reading part : Reading} {writing : Writing} {scope scope' : Scope}
  {value : Value} {r r' : BitReader}

theorem same_layout (follows : reading.Follows writing) : writing.layout = reading.layout := by
  cases follows
  rfl

/-- A reference comes to the same number in both directions. -/
theorem resolves (follows : reading.Follows writing) {name : Text}
    (same : reading.layout.reference? = some name) :
    ∃ n n', resolveField writing.scope name = .ok n ∧ resolveField reading.scope name = .ok n' ∧
      n'.toInt = n.toInt := by
  obtain ⟨-, -, refers, supports, -, wrote, -, -, -⟩ := follows
  obtain ⟨n, resolved⟩ := Layout.resolves_of_encode wrote same
  obtain ⟨n', resolved', equal⟩ := supports name (refers.reference_mem same) n resolved
  exact ⟨n, n', resolved, resolved', equal⟩

theorem exists_record {slots : List Slot}
    (follows : Follows ⟨.sequence slots, scope', r⟩ ⟨.sequence slots, scope, value⟩) :
    ∃ record, value = .dict record := by
  obtain ⟨-, -, -, -, -, wrote, -, -, -⟩ := follows
  obtain ⟨record, same, -⟩ := Layout.encode_sequence_eq_ok_iff.mp wrote
  exact ⟨record, same⟩

/-- Behind the earlier slots come the bits of the next one, and the record has the numbers of the
earlier ones. -/
theorem slot {slots : List Slot} {record : Entries} {index : Nat} {slot : Slot} {layout : Layout}
    (follows : Follows ⟨.sequence slots, scope', r⟩ ⟨.sequence slots, scope, .dict record⟩)
    (there : slots[index]? = some slot) (same : slot.layout? = some layout) {fields : Entries}
    (read : decodeSlots (slots.take index) [] r = .ok (fields, r')) :
    Follows ⟨layout, some fields, r'⟩ ⟨layout, some record, slot.load record⟩ := by
  obtain ⟨wellFormed, distinct, refers, -, regular, wrote, before, after, starts⟩ := follows
  obtain ⟨_, same_record, wrote_slots⟩ := Layout.encode_sequence_eq_ok_iff.mp wrote
  cases same_record
  have regular_slots := (Writing.all_sequence_iff.mp regular).2
  have member := List.mem_of_getElem? there
  obtain ⟨refers_layout, front, bits, back, w₁, w₂, rfl, wrote_layout, holds₁, holds₂, read_front⟩ :=
    exists_bits_of_slot wellFormed distinct refers regular_slots wrote_slots before after there same
  obtain ⟨rfl, supports⟩ := (read_front starts.front).of_ok read
  exact .intro (WellFormedSlots.of_mem wellFormed member same) (distinct.2.of_mem member same)
    refers_layout supports (regular_slots slot member layout same) wrote_layout holds₁ holds₂
    starts.back.front

/-- Behind the earlier items come the bits of the next one. -/
theorem item {length : Length} {element : Layout} {count : Integer} {index : Nat}
    {items : List Value}
    (follows : Follows ⟨.array length element, scope', r⟩ ⟨.array length element, scope, value⟩)
    (resolved : length.resolve scope' = .ok count) (there : index < count.toNat)
    (read : decodeItems (fun r => element.decode none r) index 0 r = .ok (items, r')) :
    ∃ writing, Writing.Hands ⟨.array length element, scope, value⟩ (.item index) writing ∧
      Follows ⟨element, none, r'⟩ writing := by
  obtain ⟨wellFormed, distinct, refers, supports, regular, wrote, before, after, starts⟩ := follows
  obtain ⟨values, n, list, resolved_n, length_eq, wrote_items⟩ :=
    Layout.encode_array_eq_ok_iff.mp wrote
  have regular_items := (Writing.all_array_iff.mp regular).2 values list
  -- Both directions have as many items, so there is one at this position.
  have within : index < values.length := by
    obtain ⟨n', resolved', equal⟩ := supports.resolve refers.1 resolved_n
    rw [resolved] at resolved'
    cases resolved'
    rw [Integer.toNat, equal, length_eq] at there
    simpa using there
  have here := List.getElem?_eq_getElem within
  obtain ⟨front, bits, back, w₁, w₂, rfl, wrote_item, holds₁, holds₂, read_front⟩ :=
    exists_bits_of_item (Layout.readsBack wellFormed.2 distinct.2 refers.2) regular_items wrote_items
      before after here
  obtain ⟨rfl, -⟩ := (read_front starts.front).of_ok read
  refine ⟨_, .item list here, ?_⟩
  exact .intro wellFormed.2 distinct.2 refers.2 (Scope.supports_none none Set.univ)
    (regular_items _ (List.mem_of_getElem? here)) wrote_item holds₁ holds₂ starts.back.front

/-- A reading chooses the alternative that was written. -/
theorem alternative {discriminant : Text} {cases : List (Integer × Layout)}
    {otherwise : Option Layout} {key : Integer} {layout : Layout}
    (follows : Follows ⟨.branch discriminant cases otherwise, scope', r⟩
      ⟨.branch discriminant cases otherwise, scope, value⟩)
    (found : resolveField scope' discriminant = .ok key)
    (chosen : Layout.select cases otherwise key = some layout) :
    ∃ writing, Writing.Hands ⟨.branch discriminant cases otherwise, scope, value⟩ .alternative
      writing ∧ Follows ⟨layout, scope', r⟩ writing := by
  obtain ⟨wellFormed, distinct, refers, supports, regular, wrote, before, after, starts⟩ := follows
  obtain ⟨key', layout', found', chosen', wrote⟩ := Layout.encode_branch_eq_ok_iff.mp wrote
  obtain ⟨_, found'', chosen''⟩ := supports.select refers.discriminant_mem found' chosen'
  rw [found] at found''
  cases found''
  rw [chosen] at chosen''
  cases chosen''
  have alternative := Layout.alternative_of_select chosen
  refine ⟨_, .alternative found' chosen', ?_⟩
  exact .intro (wellFormed.alternative alternative) (distinct.alternative alternative)
    (refers.alternative alternative) supports (regular.below (.alternative found' chosen')) wrote
    before after starts

/-- Wherever a reading goes on, the writing has handed something down that it follows. -/
theorem step {move : Step} (follows : reading.Follows writing) (hands : reading.Hands move part) :
    ∃ below, writing.Hands move below ∧ part.Follows below := by
  obtain ⟨layout, scope, value⟩ := writing
  cases follows.same_layout
  cases hands with
  | slot there same read =>
    obtain ⟨record, rfl⟩ := follows.exists_record
    exact ⟨_, .slot there same, follows.slot there same read⟩
  | item resolved there read => exact follows.item resolved there read
  | alternative found chosen => exact follows.alternative found chosen

/-- A reading follows a writing all the way. -/
theorem walk {steps : List Step} (follows : reading.Follows writing)
    (walked : Walk Reading.Hands reading steps part) :
    ∃ below, Walk Writing.Hands writing steps below ∧ part.Follows below := by
  induction walked generalizing writing with
  | here => exact ⟨writing, .here writing, follows⟩
  | step first _ ih =>
    obtain ⟨next, hands, follows'⟩ := follows.step first
    obtain ⟨below, walked', follows''⟩ := ih follows'
    exact ⟨below, .step hands walked', follows''⟩

end Reading.Follows

/-- A value of another type than its layout is no unresolved reference. -/
theorem Failure.BelongsTo.not_unresolvedReference {failure : Failure}
    (family : failure.BelongsTo .typeMismatch) : ¬failure.BelongsTo .unresolvedReference := by
  cases failure with
  | located path cause =>
    rw [BelongsTo] at family ⊢
    generalize cause.category = category at family ⊢
    cases category <;> simp_all [Category.ancestors]
  | _ => exact family.elim

namespace Layout

/-- Once a regular value is encoded, every reference comes to the same number wherever a decoder
arrives in its bytes, and none is left unresolved. -/
theorem references_agree {layout : Layout} (wellFormed : layout.WellFormed)
    (distinct : layout.DistinctNames) (refers : layout.RefersToNumbers Set.univ) {value : Value}
    (regular : Writing.All Writing.IsRegular ⟨layout, none, value⟩) {memory : Memory}
    {bytes : List UInt8} (wrote : layout.encodeWithin memory value = .ok bytes) :
    (∀ strict failure, layout.decodeBytes bytes strict = .error failure →
      ¬failure.BelongsTo .unresolvedReference) ∧
    ∀ steps reading, Walk Reading.Hands ⟨layout, none, .ofBytes bytes⟩ steps reading →
      ∃ writing, Walk Writing.Hands ⟨layout, none, value⟩ steps writing ∧
        writing.layout = reading.layout ∧
        ∀ name, reading.layout.reference? = some name →
          ∃ n n', resolveField writing.scope name = .ok n ∧
            resolveField reading.scope name = .ok n' ∧ n'.toInt = n.toInt := by
  obtain ⟨w, wrote_bits, rfl⟩ := map_eq_ok_iff.mp wrote
  obtain ⟨added, holds, read⟩ :=
    readsBack wellFormed distinct refers regular wrote_bits BitWriter.holds_empty
  have starts : (BitReader.ofBytes w.toBytes).StartsWith added [] := by
    refine ⟨BitReader.valid_ofBytes w.toBytes, rfl, ?_⟩
    rw [BitWriter.Holds.remaining_ofBytes holds]
    exact List.prefix_append _ _
  constructor
  · intro strict failure stopped
    rcases bind_eq_error_iff.mp stopped with stopped | ⟨⟨value', r'⟩, -, trailing⟩
    · rcases read starts (Scope.supports_none none Set.univ) with ⟨_, read', -⟩ |
        ⟨_, stopped', family⟩
      · cases stopped.symm.trans read'
      · cases stopped.symm.trans stopped'
        exact family.not_unresolvedReference
    · -- What is left over is no reference.
      dsimp only at trailing
      split at trailing
      · cases trailing
        simp [Failure.BelongsTo, Cause.category, Category.ancestors]
      · cases trailing
  · intro steps reading walked
    have follows : Reading.Follows ⟨layout, none, .ofBytes w.toBytes⟩ ⟨layout, none, value⟩ :=
      .intro wellFormed distinct refers (Scope.supports_none none Set.univ) regular wrote_bits
        BitWriter.holds_empty holds starts
    obtain ⟨writing, walked', follows'⟩ := follows.walk walked
    exact ⟨writing, walked', follows'.same_layout, fun name same => follows'.resolves same⟩

theorem isRegular_telegramRecord :
    Writing.All Writing.IsRegular ⟨telegram, none, .dict telegramRecord⟩ := by
  refine Writing.all_sequence_iff.mpr ⟨⟨trivial, trivial⟩, fun slot member layout same => ?_⟩
  simp only [List.mem_cons, List.not_mem_nil, or_false] at member
  rcases member with rfl | rfl | rfl | rfl <;> cases same
  · exact Writing.all_of_isLeaf trivial ⟨⟨2, rfl, by decide, by decide⟩, trivial⟩
  · exact Writing.all_of_isLeaf trivial ⟨trivial, trivial⟩
  · refine Writing.all_array_iff.mpr ⟨⟨trivial, trivial⟩, fun items list item member => ?_⟩
    cases list
    simp only [List.mem_cons, List.not_mem_nil, or_false] at member
    rcases member with rfl | rfl
    · exact Writing.all_of_isLeaf trivial ⟨⟨10, rfl, by decide, by decide⟩, trivial⟩
    · exact Writing.all_of_isLeaf trivial ⟨⟨11, rfl, by decide, by decide⟩, trivial⟩
  · refine Writing.all_branch_iff.mpr ⟨⟨trivial, trivial⟩, fun key layout found chosen => ?_⟩
    -- With two items the unit is there, whose text is a single byte.
    have count : resolveField (some telegramRecord) "count" = .ok 2 := by cbv
    rw [count] at found
    cases found
    cases chosen
    refine Writing.all_sequence_iff.mpr ⟨⟨trivial, trivial⟩, fun slot member layout same => ?_⟩
    cases List.mem_singleton.mp member
    cases same
    refine Writing.all_of_isLeaf trivial ⟨trivial, ?_⟩
    intro count raw resolved spelled
    cases resolved
    have bytes : EncodingName.encode "ascii" "C" = .ok [0x43] := by cbv
    change EncodingName.encode "ascii" "C" = .ok raw at spelled
    rw [bytes] at spelled
    cases spelled
    rfl

theorem references_agree_telegram :
    telegram.WellFormed ∧ telegram.DistinctNames ∧ telegram.RefersToNumbers Set.univ ∧
      Writing.All Writing.IsRegular ⟨telegram, none, .dict telegramRecord⟩ ∧
      telegram.encodeWithin .ordinary (.dict telegramRecord) = .ok [0x40, 0xAB, 0x43] ∧
      (∀ strict failure, telegram.decodeBytes [0x40, 0xAB, 0x43] strict = .error failure →
        ¬failure.BelongsTo .unresolvedReference) ∧
      ∃ scope writing, Walk Reading.Hands ⟨telegram, none, .ofBytes [0x40, 0xAB, 0x43]⟩ [.slot 2]
          ⟨.array (.field "count") (.bitField 4), scope, ⟨#[0x40, 0xAB, 0x43], 1, 0⟩⟩ ∧
        Walk Writing.Hands ⟨telegram, none, .dict telegramRecord⟩ [.slot 2] writing ∧
        ∃ n n', resolveField writing.scope "count" = .ok n ∧ resolveField scope "count" = .ok n' ∧
          n'.toInt = n.toInt := by
  have refers : telegram.RefersToNumbers Set.univ :=
    ⟨trivial, trivial, ⟨by simp [Length.RefersTo, Slot.numberNames, IsNumber], trivial⟩,
      ⟨by simp [Slot.numberNames, IsNumber], ⟨⟨trivial, trivial⟩, trivial⟩, trivial⟩, trivial⟩
  have wrote : telegram.encodeWithin .ordinary (.dict telegramRecord) = .ok [0x40, 0xAB, 0x43] := by
    cbv
  obtain ⟨resolved, agree⟩ := references_agree wellFormed_telegram distinctNames_telegram refers
    isRegular_telegramRecord wrote
  have walked : Walk Reading.Hands ⟨telegram, none, .ofBytes [0x40, 0xAB, 0x43]⟩ [.slot 2]
      ⟨.array (.field "count") (.bitField 4), some [(.text "count", .int 2)],
        ⟨#[0x40, 0xAB, 0x43], 1, 0⟩⟩ :=
    .step (.slot rfl rfl (by cbv)) (.here _)
  obtain ⟨writing, walked', -, numbers⟩ := agree _ _ walked
  exact ⟨wellFormed_telegram, distinctNames_telegram, refers, isRegular_telegramRecord, wrote,
    resolved, _, writing, walked, walked', numbers "count" rfl⟩

/-- Items in an embedded sequence, with their number in the record around it. -/
def countedApart : Layout :=
  .sequence
    [.named "n" byte, .embedded (.sequence [.named "items" (.array (.field "n") byte)])]

/-- A single item. -/
def countedApartRecord : Entries := [(.text "n", .int 1), (.text "items", .list [.int 5])]

theorem isRegular_countedApartRecord :
    Writing.All Writing.IsRegular ⟨countedApart, none, .dict countedApartRecord⟩ := by
  refine Writing.all_sequence_iff.mpr ⟨⟨trivial, trivial⟩, fun slot member layout same => ?_⟩
  simp only [List.mem_cons, List.not_mem_nil, or_false] at member
  rcases member with rfl | rfl <;> cases same
  · exact Writing.all_of_isLeaf trivial ⟨⟨1, rfl, by decide, by decide⟩, trivial⟩
  · refine Writing.all_sequence_iff.mpr ⟨⟨trivial, trivial⟩, fun slot member layout same => ?_⟩
    cases List.mem_singleton.mp member
    cases same
    refine Writing.all_array_iff.mpr ⟨⟨trivial, trivial⟩, fun items list item member => ?_⟩
    cases list
    cases List.mem_singleton.mp member
    exact Writing.all_of_isLeaf trivial ⟨⟨5, rfl, by decide, by decide⟩, trivial⟩

/-- The encoder finds the number in the record around the items. The decoder starts the embedded
sequence with a record of its own and does not. -/
theorem not_references_agree_countedApart :
    countedApart.WellFormed ∧ countedApart.DistinctNames ∧
      Writing.All Writing.IsRegular ⟨countedApart, none, .dict countedApartRecord⟩ ∧
      countedApart.encodeWithin .ordinary (.dict countedApartRecord) = .ok [0x01, 0x05] ∧
      resolveField (some countedApartRecord) "n" = .ok 1 ∧
      ∃ failure, countedApart.decodeBytes [0x01, 0x05] false = .error failure ∧
        failure = .located [.field "items"] (.noSuchField "n") ∧
        failure.BelongsTo .unresolvedReference := by
  refine ⟨by decide +kernel, by decide +kernel, isRegular_countedApartRecord, by cbv, by cbv, ?_⟩
  refine ⟨_, by cbv, rfl, ?_⟩
  simp [Failure.BelongsTo, Cause.category, Category.ancestors]

end Layout

end BitLayout
