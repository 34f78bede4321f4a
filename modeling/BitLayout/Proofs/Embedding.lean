import BitLayout.Proofs.Decoding.Parts
import BitLayout.Proofs.Encoding.Success
import BitLayout.Proofs.Scope

/-!
# Embedded sequences

A sequence that is embedded in another one might as well have its slots there. The encoder goes
through the slots either way, with the same record. The decoder reads an embedded sequence into a
record of its own, which it then stores in the one around it: what the slots inside refer to is found
in the record around it too, and has the same value there.

## Main results

* `decodeSlots_append`, `encodeSlots_append`: slots one after another
* `Layout.decode_of_supports`: a scope in which the same references resolve does not change what is
  read
* `decodeSlots_merge`: slots read into a record of their own or into the record around it
* `Layout.embedded_sequence_inlined`: the same bytes, values and failures either way
-/

namespace BitLayout

section Decoding

variable {r r' : BitReader} {value : Value} {scope scope' : Scope}

/-- Slots are read one after another. -/
theorem decodeSlots_append {front back : List Slot} {record : Entries} :
    decodeSlots (front ++ back) record r =
      decodeSlots front record r >>= fun state => decodeSlots back state.1 state.2 := by
  induction front generalizing record r with
  | nil => rfl
  | cons slot rest ih =>
    cases slot with
    | named name layout | padding layout label =>
      simp only [List.cons_append, decodeSlots, ih, bind_assoc]
    | embedded layout =>
      simp only [List.cons_append, decodeSlots, bind_assoc]
      congr 1
      funext state
      obtain ⟨value, r₁⟩ := state
      cases value with
      | dict fields => exact ih
      | _ => rfl
    | foreign typeName written => rfl

theorem decodeSlots_append_eq_ok_iff {front back : List Slot} {record final : Entries} :
    decodeSlots (front ++ back) record r = .ok (final, r') ↔
      ∃ middle r₁, decodeSlots front record r = .ok (middle, r₁) ∧
        decodeSlots back middle r₁ = .ok (final, r') := by
  rw [decodeSlots_append]
  simp only [bind_eq_ok_iff, Prod.exists]

/-- Bytes are read alike where their length comes to the same number. -/
theorem readSlice_of_supports {kind : Layout.Kind} {length : Length} {raw : List UInt8}
    (supports : scope'.Supports Set.univ scope)
    (read : readSlice kind length scope r = .ok (raw, r')) :
    readSlice kind length scope' r = .ok (raw, r') := by
  obtain ⟨⟨count, resolved, same⟩, rest⟩ := readSlice_eq_ok_iff.mp read
  obtain ⟨count', resolved', same'⟩ := supports.resolve length.refersTo_univ resolved
  exact readSlice_eq_ok_iff.mpr ⟨⟨count', resolved', same'.trans same⟩, rest⟩

/-- What was read in a scope is read in every scope in which the same references resolve. -/
theorem Layout.decode_of_supports {layout : Layout} (supports : scope'.Supports Set.univ scope)
    (read : layout.decode scope r = .ok (value, r')) :
    layout.decode scope' r = .ok (value, r') := by
  -- Only arrays, branches, byte strings and texts look at the scope; a branch passes it on.
  induction layout using Layout.induction generalizing r r' value with
  | array length element ih =>
    obtain ⟨count, items, resolved, read_items, rfl⟩ := decode_array_eq_ok_iff.mp read
    obtain ⟨count', resolved', same⟩ := supports.resolve length.refersTo_univ resolved
    have count_eq : count'.toNat = count.toNat := by rw [Integer.toNat, same, Integer.toNat]
    exact decode_array_eq_ok_iff.mpr ⟨count', items, resolved', count_eq ▸ read_items, rfl⟩
  | branch discriminant cases otherwise ih =>
    obtain ⟨key, layout, found, chosen, read_chosen⟩ := decode_branch_eq_ok_iff.mp read
    obtain ⟨key', found', chosen'⟩ := supports.select trivial found chosen
    exact decode_branch_eq_ok_iff.mpr ⟨key', layout, found', chosen',
      ih layout (alternative_of_select chosen) read_chosen⟩
  | byteSlice length =>
    obtain ⟨raw, read_raw, rfl⟩ := decode_byteSlice_eq_ok_iff.mp read
    exact decode_byteSlice_eq_ok_iff.mpr ⟨raw, readSlice_of_supports supports read_raw, rfl⟩
  | text length encoding =>
    obtain ⟨raw, t, read_raw, spelled, rfl⟩ := decode_text_eq_ok_iff.mp read
    exact decode_text_eq_ok_iff.mpr
      ⟨raw, t, readSlice_of_supports supports read_raw, spelled, rfl⟩
  | abstract => cases read
  | sequence | bitField | wideField | padding =>
    rw [decode] at read ⊢
    exact read

/-- Storing in a record of its own, which is stored in a parent, is storing in the parent. -/
theorem Slot.store_merge {slot : Slot} {layout : Layout} {parent record record' : Entries}
    (same : slot.layout? = some layout) (keyed : record.KeyedBy fun _ => True)
    (read : layout.decode scope r = .ok (value, r'))
    (stored : slot.store record value = some record') :
    slot.store (parent.merge record) value = some (parent.merge record') := by
  cases slot with
  | named name layout =>
    cases stored
    exact congrArg some keyed.merge_insert.symm
  | embedded layout =>
    cases same
    cases value with
    | dict fields =>
      cases stored
      exact congrArg some (keyed.merge_merge (Layout.keyedBy_of_decode read)).symm
    | _ => cases stored
  | padding layout label =>
    cases stored
    rfl
  | foreign => cases stored

/-- Slots that were read into a record of their own are read into the record around it alike, and
what they add to it is that record. -/
theorem decodeSlots_merge {slots : List Slot} {parent record final : Entries}
    (keyed : record.KeyedBy fun _ => True)
    (read : decodeSlots slots record r = .ok (final, r')) :
    decodeSlots slots (parent.merge record) r = .ok (parent.merge final, r') := by
  induction slots generalizing record r with
  | nil =>
    cases read
    rfl
  | cons slot rest ih =>
    obtain ⟨layout, value, r₁, record₁, same, read_first, stored, read_rest⟩ :=
      decodeSlots_cons_eq_ok_iff.mp read
    -- What the fields before resolve, the parent resolves too once they are stored there.
    have supports : Scope.Supports (some (parent.merge record)) Set.univ (some record) :=
      Scope.supports_of_extends keyed.extends_merge
    have keyed₁ : record₁.KeyedBy fun _ => True :=
      Slot.keyedBy_store keyed (fun _ _ _ => trivial)
        (fun fields dict => Layout.keyedBy_of_decode (dict ▸ read_first)) stored
    exact decodeSlots_cons_eq_ok_iff.mpr ⟨layout, value, r₁, parent.merge record₁, same,
      Layout.decode_of_supports supports read_first, Slot.store_merge same keyed read_first stored,
      ih keyed₁ read_rest⟩

end Decoding

/-- Slots are written one after another. -/
theorem encodeSlots_append {memory : Memory} {front back : List Slot} {record : Entries}
    {w : BitWriter} :
    encodeSlots memory (front ++ back) record w =
      encodeSlots memory front record w >>= encodeSlots memory back record := by
  induction front generalizing w with
  | nil => rfl
  | cons slot rest ih =>
    cases slot with
    | named name layout | embedded layout =>
      simp only [List.cons_append, encodeSlots, ih, bind_assoc]
    | padding layout label =>
      rw [List.cons_append, encodeSlots, encodeSlots]
      cases layout.width? with
      | none => rfl
      | some width => simp only [ih, bind_assoc]
    | foreign typeName written => rfl

namespace Layout

variable {front inner back : List Slot}

/-- An embedded sequence writes what its slots write in its place. -/
theorem encode_embedded_sequence {memory : Memory} {value : Value} {scope : Scope} {w : BitWriter} :
    (sequence (front ++ .embedded (sequence inner) :: back)).encode memory value scope w =
      (sequence (front ++ (inner ++ back))).encode memory value scope w := by
  cases value with
  | dict record =>
    have embedded : encodeSlots memory (.embedded (sequence inner) :: back) record =
        encodeSlots memory (inner ++ back) record := by
      funext w
      rw [encodeSlots, encode, encodeSlots_append]
    rw [encode, encode, encodeSlots_append, embedded, ← encodeSlots_append]
  | _ => rfl

/-- What an embedded sequence reads, its slots read in its place. -/
theorem decode_embedded_sequence {value : Value} {scope : Scope} {r r' : BitReader}
    (read : (sequence (front ++ .embedded (sequence inner) :: back)).decode scope r =
      .ok (value, r')) :
    (sequence (front ++ (inner ++ back))).decode scope r = .ok (value, r') := by
  obtain ⟨record, read_slots, rfl⟩ := decode_sequence_eq_ok_iff.mp read
  obtain ⟨parent, r₁, read_front, read_back⟩ := decodeSlots_append_eq_ok_iff.mp read_slots
  obtain ⟨_, value, r₂, parent', same, read_inner, stored, read_rest⟩ :=
    decodeSlots_cons_eq_ok_iff.mp read_back
  cases same
  obtain ⟨fields, read_fields, rfl⟩ := decode_sequence_eq_ok_iff.mp read_inner
  cases stored
  have merged : decodeSlots inner (parent.merge []) r₁ = .ok (parent.merge fields, r₂) :=
    decodeSlots_merge (Entries.keyedBy_nil _) read_fields
  refine decode_sequence_eq_ok_iff.mpr ⟨record, ?_, rfl⟩
  exact decodeSlots_append_eq_ok_iff.mpr ⟨parent, r₁, read_front,
    decodeSlots_append_eq_ok_iff.mpr ⟨_, r₂, merged, read_rest⟩⟩

/-- Embedding a sequence is putting its slots in its place: every value is encoded to the same bytes
or refused for the same cause at the same place, whatever room there is, and what is decoded is
decoded to the same value, with its keys in the same order, from the same bits. -/
theorem embedded_sequence_inlined (front inner back : List Slot) :
    (∀ memory value,
      (sequence (front ++ .embedded (sequence inner) :: back)).encodeWithin memory value =
        (sequence (front ++ (inner ++ back))).encodeWithin memory value) ∧
      ∀ data value r,
        (sequence (front ++ .embedded (sequence inner) :: back)).read data = .ok (value, r) →
          (sequence (front ++ (inner ++ back))).read data = .ok (value, r) := by
  refine ⟨fun memory value => ?_, fun data value r read => decode_embedded_sequence read⟩
  rw [encodeWithin, writeWithin, encode_embedded_sequence]
  rfl

/-- A count, and an embedded sequence with a count of its own and as many items. -/
def recounted : Layout :=
  .sequence ([.named "n" byte] ++
    [.embedded (.sequence [.named "n" byte, .named "items" (.array (.field "n") byte)])])

/-- The same slots without the embedded sequence around them. -/
def recountedInPlace : Layout :=
  .sequence ([.named "n" byte] ++ [.named "n" byte, .named "items" (.array (.field "n") byte)])

theorem embedded_sequence_inlined_recounted :
    recounted.read [9, 1, 7] = .ok (.dict [(.text "n", .int 1), (.text "items", .list [.int 7])],
        ⟨#[9, 1, 7], 3, 0⟩) ∧
      recountedInPlace.read [9, 1, 7] =
        .ok (.dict [(.text "n", .int 1), (.text "items", .list [.int 7])], ⟨#[9, 1, 7], 3, 0⟩) ∧
      recounted.encodeWithin .ordinary (.dict [(.text "items", .list [.int 7])]) =
        recountedInPlace.encodeWithin .ordinary (.dict [(.text "items", .list [.int 7])]) := by
  have read : recounted.read [9, 1, 7] =
      .ok (.dict [(.text "n", .int 1), (.text "items", .list [.int 7])],
        ⟨#[9, 1, 7], 3, 0⟩) := by rfl
  have inlined := embedded_sequence_inlined [.named "n" byte]
    [.named "n" byte, .named "items" (.array (.field "n") byte)] []
  exact ⟨read, inlined.2 _ _ _ read, inlined.1 _ _⟩

end Layout

end BitLayout
