import BitLayout.Proofs.Decoding.Extension
import BitLayout.Proofs.Decoding.Record

/-!
# What is decoded has the type of its layout

A layout describes the values that come of reading it: plain numbers below the power of their width,
lists, byte strings and texts of the length that is found, records with the fields of the slots in
the order of the slots. While decoding, lengths and choices are looked up in the fields read so far.
Here they are looked up in the finished record, which is the same since no field is replaced later
if the names are distinct.

This is narrower than fitting a layout, which leaves room for truth values as numbers, for other
holders of bytes and for any order of fields.

## Main definitions

* `Layout.Describes`: a value of the type of a layout
* `Slot.Describes`, `SlotsDescribe`, `Layout.DescribesMerged`: fields of a record, with their names
  in order

## Main results

* `Layout.Describes.extend`: fields added to the record around a value do not matter
* `Layout.describes_of_decode`, `Layout.describes_of_decodeBytes`
-/

namespace BitLayout

mutual

/-- A value of the type of a layout, in a scope. -/
inductive Layout.Describes : Layout → Scope → Value → Prop
  /-- The keys of a record are the names of its slots, in order. -/
  | sequence {slots : List Slot} {scope : Scope} {record : Entries} {names : List Text}
    (fields : SlotsDescribe slots record names) (keys : record.keys = names.map .text) :
    (Layout.sequence slots).Describes scope (.dict record)
  /-- A list has as many items as found, which see no record around them. -/
  | array {length : Length} {element : Layout} {scope : Scope} {count : Integer}
    {items : List Value} (resolved : length.resolve scope = .ok count)
    (same : count.toInt = items.length) (each : ∀ item ∈ items, element.Describes none item) :
    (Layout.array length element).Describes scope (.list items)
  /-- The alternative is the one that the discriminant chooses. -/
  | branch {discriminant : Text} {cases : List (Integer × Layout)} {otherwise : Option Layout}
    {scope : Scope} {key : Integer} {layout : Layout} {value : Value}
    (found : resolveField scope discriminant = .ok key)
    (chosen : Layout.select cases otherwise key = some layout)
    (describes : layout.Describes scope value) :
    (Layout.branch discriminant cases otherwise).Describes scope value
  | bitField {width : Integer} {scope : Scope} {n : Nat} (small : n < 2 ^ width.toNat) :
    (Layout.bitField width).Describes scope (.int n)
  | wideField {width : Integer} {scope : Scope} {n : Nat} (small : n < 2 ^ width.toNat) :
    (Layout.wideField width).Describes scope (.int n)
  | byteSlice {length : Length} {scope : Scope} {count : Integer} {raw : List UInt8}
    (resolved : length.resolve scope = .ok count) (same : count.toInt = raw.length) :
    (Layout.byteSlice length).Describes scope (.ofBytes raw)
  /-- A text is what as many bytes spell as found. -/
  | text {length : Length} {encoding : Text} {scope : Scope} {count : Integer} {raw : List UInt8}
    {t : Text} (resolved : length.resolve scope = .ok count) (same : count.toInt = raw.length)
    (spelled : EncodingName.decode encoding raw = .ok t) :
    (Layout.text length encoding).Describes scope (.text t)
  | padding {width : Integer} {scope : Scope} : (Layout.padding width).Describes scope .null

/-- The fields of a record that come of a slot, in the scope of the whole record. -/
inductive Slot.Describes : Slot → Entries → List Text → Prop
  | named {name : Text} {layout : Layout} {record : Entries} {value : Value}
    (found : record.field? name = some value) (describes : layout.Describes (some record) value) :
    (Slot.named name layout).Describes record [name]
  | embedded {layout : Layout} {record : Entries} {names : List Text}
    (merged : layout.DescribesMerged record names) : (Slot.embedded layout).Describes record names
  | padding {layout : Layout} {label : Option Text} {record : Entries} :
    (Slot.padding layout label).Describes record []

/-- The fields of a record that come of slots one after another. -/
inductive SlotsDescribe : List Slot → Entries → List Text → Prop
  | nil {record : Entries} : SlotsDescribe [] record []
  | cons {slot : Slot} {rest : List Slot} {record : Entries} {names others : List Text}
    (first : slot.Describes record names) (later : SlotsDescribe rest record others) :
    SlotsDescribe (slot :: rest) record (names ++ others)

/-- The fields of a record that come of an embedded layout, which is one of records. -/
inductive Layout.DescribesMerged : Layout → Entries → List Text → Prop
  | sequence {slots : List Slot} {record : Entries} {names : List Text}
    (fields : SlotsDescribe slots record names) :
    (Layout.sequence slots).DescribesMerged record names
  | branch {discriminant : Text} {cases : List (Integer × Layout)} {otherwise : Option Layout}
    {record : Entries} {key : Integer} {layout : Layout} {names : List Text}
    (found : resolveField (some record) discriminant = .ok key)
    (chosen : Layout.select cases otherwise key = some layout)
    (merged : layout.DescribesMerged record names) :
    (Layout.branch discriminant cases otherwise).DescribesMerged record names

end

section Extension

variable {whole record : Entries} {names : List Text}

/-- Fields added to the record around a value do not matter. -/
theorem Layout.Describes.extend {layout : Layout} {value : Value} (extension : whole.Extends record)
    (describes : layout.Describes (some record) value) : layout.Describes (some whole) value := by
  induction layout using Layout.induction generalizing value with
  | abstract => cases describes
  | sequence slots ih =>
    cases describes with
    | sequence fields keys => exact .sequence fields keys
  | array length element ih =>
    cases describes with
    | array resolved same each => exact .array (extension.resolve resolved) same each
  | branch discriminant cases otherwise ih =>
    cases describes with
    | branch found chosen describes =>
      have inside := ih _ (alternative_of_select chosen) describes
      exact .branch (extension.resolveField found) chosen inside
  | bitField width =>
    cases describes with
    | bitField small => exact .bitField small
  | wideField width =>
    cases describes with
    | wideField small => exact .wideField small
  | byteSlice length =>
    cases describes with
    | byteSlice resolved same => exact .byteSlice (extension.resolve resolved) same
  | text length encoding =>
    cases describes with
    | text resolved same spelled => exact .text (extension.resolve resolved) same spelled
  | padding width =>
    cases describes
    exact .padding

theorem SlotsDescribe.extend_of {slots : List Slot}
    (each : ∀ slot ∈ slots, ∀ layout, slot.layout? = some layout → ∀ {names},
      layout.DescribesMerged record names → layout.DescribesMerged whole names)
    (extension : whole.Extends record) (describe : SlotsDescribe slots record names) :
    SlotsDescribe slots whole names := by
  induction slots generalizing names with
  | nil =>
    cases describe
    exact .nil
  | cons slot rest ih =>
    obtain ⟨inSlot, inRest⟩ := List.forall_mem_cons.mp each
    cases describe with
    | cons first later =>
      refine .cons ?_ (ih inRest later)
      cases first with
      | named found describes =>
        exact .named (extension _ _ found) (describes.extend extension)
      | embedded merged => exact .embedded (inSlot _ rfl merged)
      | padding => exact .padding

/-- Fields added to a record do not matter for what has been merged into it. -/
theorem Layout.DescribesMerged.extend {layout : Layout} (extension : whole.Extends record)
    (merged : layout.DescribesMerged record names) : layout.DescribesMerged whole names := by
  induction layout using Layout.induction generalizing names with
  | sequence slots ih =>
    cases merged with
    | sequence fields => exact .sequence (fields.extend_of ih extension)
  | branch discriminant cases otherwise ih =>
    cases merged with
    | branch found chosen merged =>
      have inside := ih _ (alternative_of_select chosen) merged
      exact .branch (extension.resolveField found) chosen inside
  | _ => cases merged

theorem SlotsDescribe.extend {slots : List Slot} (extension : whole.Extends record)
    (describe : SlotsDescribe slots record names) : SlotsDescribe slots whole names :=
  describe.extend_of (fun _ _ _ _ _ merged => merged.extend extension) extension

/-- A record of the type of an embedded layout, whose fields are all in the whole record, is what
comes of this layout there. -/
theorem Layout.Describes.merged {layout : Layout} {fields : Entries}
    (describes : layout.Describes (some whole) (.dict fields)) (extension : whole.Extends fields) :
    ∃ names, fields.keys = names.map .text ∧ layout.DescribesMerged whole names := by
  induction layout using Layout.induction with
  | sequence slots ih =>
    cases describes with
    | sequence slotsDescribe keys => exact ⟨_, keys, .sequence (slotsDescribe.extend extension)⟩
  | branch discriminant cases otherwise ih =>
    cases describes with
    | branch found chosen describes =>
      obtain ⟨names, keys, merged⟩ := ih _ (alternative_of_select chosen) describes
      exact ⟨names, keys, .branch found chosen merged⟩
  | _ => cases describes

end Extension

section Decoding

variable {r r' : BitReader}

/-- A number that is read has no more bits than asked for. -/
theorem BitReader.lt_of_readNat {width : Integer} {n : Nat} (read : r.readNat width = .ok (n, r')) :
    n < 2 ^ width.toNat := by
  rw [readNat] at read
  split_ifs at read
  obtain ⟨_, -, same⟩ := bind_eq_ok_iff.mp read
  cases same
  rw [Nat.one_shiftLeft]
  exact Nat.mod_lt _ (Nat.two_pow_pos _)

/-- What a slot reads into a record without its names is described in every record that goes on from
there. -/
theorem Slot.describes_of_store {slot : Slot} {layout : Layout} (same : slot.layout? = some layout)
    {record fields whole : Entries} {value : Value}
    (describes : layout.Describes (some record) value)
    (named : ∀ fields, value = .dict fields → Entries.NamedBy fields layout.mergedNames)
    (fresh : record.Lacks slot.names) (stored : slot.store record value = some (record ++ fields))
    (extension : whole.Extends (record ++ fields)) :
    ∃ names, fields.keys = names.map .text ∧ slot.Describes whole names := by
  have describes := describes.extend (extension.trans Entries.extends_append_left)
  cases slot with
  | named name _ =>
    cases same
    have stored : record.insert (.text name) value = record ++ fields := Option.some.inj stored
    rw [Entries.insert_of_absent (fresh name List.mem_cons_self)] at stored
    obtain rfl := List.append_cancel_left stored
    have found : whole.field? name = some value := by
      apply extension
      rw [Entries.field?_append,
        Entries.field?_eq_none_iff.mpr (fresh name List.mem_cons_self), Option.none_or,
        Entries.field?_cons_self]
    exact ⟨[name], rfl, .named found describes⟩
  | embedded _ =>
    cases same
    cases value with
    | dict merged =>
      have stored : record.merge merged = record ++ fields := Option.some.inj stored
      have named := named merged rfl
      rw [Entries.merge_of_absent named fresh] at stored
      obtain rfl := List.append_cancel_left stored
      obtain ⟨names, keys, inside⟩ :=
        describes.merged (extension.trans (Entries.extends_append_right named fresh))
      exact ⟨names, keys, .embedded inside⟩
    | _ => cases stored
  | padding _ label =>
    have stored : record = record ++ fields := Option.some.inj stored
    obtain rfl := List.append_right_eq_self.mp stored.symm
    exact ⟨[], rfl, .padding⟩
  | foreign => cases same

/-- Slots that are read after a record add fields that they describe in the finished record. -/
theorem slotsDescribe_of_decodeSlots {slots : List Slot}
    (each : ∀ slot ∈ slots, ∀ layout, slot.layout? = some layout → ∀ {r r' scope value},
      layout.WellFormed → layout.DistinctNames → scope.Natural →
      layout.decode scope r = .ok (value, r') → layout.Describes scope value)
    (wellFormed : WellFormedSlots slots) (distinct : (Layout.sequence slots).DistinctNames)
    {record final : Entries} (natural : record.Natural) (fresh : record.Lacks (namesOfSlots slots))
    (read : decodeSlots slots record r = .ok (final, r')) :
    ∃ added names, final = record ++ added ∧ added.keys = names.map .text ∧
      SlotsDescribe slots final names := by
  -- On the slots, from the record that the ones before have left; the last record extends it.
  induction slots generalizing record r with
  | nil =>
    cases read
    exact ⟨[], [], (List.append_nil _).symm, rfl, .nil⟩
  | cons slot rest ih =>
    obtain ⟨inSlot, inRest⟩ := List.forall_mem_cons.mp each
    obtain ⟨fresh_slot, fresh_rest⟩ := List.forall_mem_append.mp fresh
    obtain ⟨layout, value, r₁, record₁, same, read_first, stored, read_rest⟩ :=
      decodeSlots_cons_eq_ok_iff.mp read
    have wellFormed_first := wellFormed.of_mem List.mem_cons_self same
    have distinct_first := distinct.2.of_mem List.mem_cons_self same
    have describes := inSlot layout same wellFormed_first distinct_first natural.scope read_first
    have named : ∀ fields, value = .dict fields → Entries.NamedBy fields layout.mergedNames :=
      fun fields dict => Layout.namedBy_of_decode distinct_first (dict ▸ read_first)
    obtain ⟨alone, inRecord⟩ := Layout.natural_of_decode read_first
    have natural₁ := natural.store alone inRecord stored
    obtain ⟨fields, rfl, named_fields⟩ := Slot.store_eq_append same named fresh_slot stored
    obtain ⟨added, others, rfl, keys, later⟩ := ih inRest wellFormed.2 distinct.rest natural₁
      (Entries.Lacks.append fresh_rest named_fields distinct.1.1) read_rest
    have extension : (record ++ fields ++ added).Extends (record ++ fields) :=
      Entries.extends_append_left
    obtain ⟨names, keys_first, first⟩ :=
      Slot.describes_of_store same describes named fresh_slot stored extension
    refine ⟨fields ++ added, names ++ others, List.append_assoc _ _ _, ?_, .cons first later⟩
    rw [Entries.keys_append, keys_first, keys, List.map_append]

namespace Layout

variable {scope : Scope} {value : Value}

/-- What is decoded is described by the layout, in the scope it is decoded in. -/
theorem describes_of_decode {layout : Layout} (wellFormed : layout.WellFormed)
    (distinct : layout.DistinctNames) (natural : scope.Natural)
    (read : layout.decode scope r = .ok (value, r')) : layout.Describes scope value := by
  induction layout using Layout.induction generalizing scope r r' value with
  | abstract => cases read
  | sequence slots ih =>
    obtain ⟨record, read_slots, rfl⟩ := decode_sequence_eq_ok_iff.mp read
    obtain ⟨added, names, rfl, keys, fields⟩ := slotsDescribe_of_decodeSlots ih wellFormed distinct
      (by simp [Entries.Natural]) (Entries.lacks_nil _) read_slots
    exact .sequence fields keys
  | array length element ih =>
    obtain ⟨count, items, resolved, read_items, rfl⟩ := decode_array_eq_ok_iff.mp read
    have nonnegative := natural.resolve wellFormed.1 resolved
    have total := length_of_decodeItems read_items
    refine .array resolved ?_ ?_
    · change items.length = count.toInt.toNat at total
      omega
    · exact forall_of_decodeItems (ih wellFormed.2 distinct.2 Scope.natural_none) read_items
  | branch discriminant cases otherwise ih =>
    obtain ⟨key, layout, found, chosen, read_chosen⟩ := decode_branch_eq_ok_iff.mp read
    have alternative := alternative_of_select chosen
    exact .branch found chosen (ih layout alternative (wellFormed.alternative alternative)
      (distinct.alternative alternative) natural read_chosen)
  | bitField width =>
    rw [decode] at read
    obtain ⟨⟨n, _⟩, number, same⟩ := bind_eq_ok_iff.mp read
    cases same
    exact .bitField (BitReader.lt_of_readNat (ofCursor_eq_ok_iff.mp number))
  | wideField width =>
    rw [decode] at read
    obtain ⟨⟨n, _⟩, number, same⟩ := bind_eq_ok_iff.mp read
    cases same
    exact .wideField (BitReader.lt_of_readNat (ofCursor_eq_ok_iff.mp number))
  | byteSlice length =>
    obtain ⟨raw, read_raw, rfl⟩ := decode_byteSlice_eq_ok_iff.mp read
    obtain ⟨⟨count, resolved, same⟩, -⟩ := readSlice_eq_ok_iff.mp read_raw
    exact .byteSlice resolved same
  | text length encoding =>
    obtain ⟨raw, t, read_raw, spelled, rfl⟩ := decode_text_eq_ok_iff.mp read
    obtain ⟨⟨count, resolved, same⟩, -⟩ := readSlice_eq_ok_iff.mp read_raw
    exact .text resolved same spelled
  | padding width =>
    obtain ⟨-, -, rfl, -⟩ := decode_padding_eq_ok_iff.mp read
    exact .padding

/-- A decoded value has the type of its layout: numbers below the power of their width, lists, byte
strings and texts of the length in the finished record, the alternative that its discriminant chooses,
nothing for padding, and records with exactly the names of the slots that were read, in order. -/
theorem describes_of_decodeBytes {layout : Layout} (wellFormed : layout.WellFormed)
    (distinct : layout.DistinctNames) {data : List UInt8} {strict : Bool}
    (decoded : layout.decodeBytes data strict = .ok value) : layout.Describes none value := by
  obtain ⟨r, read⟩ := read_of_decodeBytes decoded
  exact describes_of_decode wellFormed distinct Scope.natural_none read

theorem describes_of_decodeBytes_telegram :
    telegram.WellFormed ∧ telegram.DistinctNames ∧
      telegram.decodeBytes [0x5F, 0xAB, 0x43] true = .ok (.dict telegramRecord) ∧
      telegram.Describes none (.dict telegramRecord) := by
  have decoded : telegram.decodeBytes [0x5F, 0xAB, 0x43] true = .ok (.dict telegramRecord) := by cbv
  exact ⟨wellFormed_telegram, distinctNames_telegram, decoded,
    describes_of_decodeBytes wellFormed_telegram distinctNames_telegram decoded⟩

end Layout

end Decoding

end BitLayout
