import BitLayout.Proofs.Decoding.Success
import BitLayout.Proofs.Value.Parts

/-!
# What decoded values are made of

A layout reads numbers, byte strings, texts and nothing, and puts them into lists and into records
with the names of its slots for keys, each once.

## Main definitions

* `Layout.Yields`: the simple values and the names that a layout brings in by itself

## Main results

* `Layout.madeOf_of_decode`: what is decoded is made of what the layouts yield
* `Layout.bare_of_decode`, `Layout.plain_of_decode`: what is decoded is bare, whatever the layout
* `Layout.keyedBy_of_decode`: the keys of a decoded record are texts, each once
-/

namespace BitLayout

/-- The simple values that a layout reads are parts, and the names of its slots are names. -/
def Layout.Yields (part : Value → Prop) (name : Text → Prop) : Layout → Prop
  | .sequence slots => ∀ slot ∈ slots, ∀ t layout, slot = .named t layout → name t
  | .bitField _ | .wideField _ => ∀ n : Nat, part (.int n)
  | .byteSlice _ => ∀ raw, part (.ofBytes raw)
  | .text _ encoding => ∀ raw t, EncodingName.decode encoding raw = .ok t → part (.text t)
  | .padding _ => part .null
  | .abstract | .array .. | .branch .. => True

/-- A property of every layout holds everywhere. -/
theorem Layout.everywhere_of_forall {P : Layout → Prop} (all : ∀ layout, P layout)
    (layout : Layout) : layout.Everywhere P := by
  induction layout using Layout.induction with
  | sequence slots ih => exact ⟨all _, everywhereInSlots_iff.mpr ih⟩
  | array length element ih => exact ⟨all _, ih⟩
  | branch discriminant cases otherwise ih =>
    have inCases : EverywhereInCases P cases :=
      everywhereInCases_iff.mpr fun key layout member => ih layout (Or.inl ⟨key, member⟩)
    cases otherwise with
    | none => exact ⟨all _, inCases, trivial⟩
    | some layout => exact ⟨all _, inCases, ih layout (Or.inr rfl)⟩
  | abstract | bitField | wideField | byteSlice | text | padding => exact all _

section Decoding

variable {part : Value → Prop} {name : Text → Prop} {r r' : BitReader} {value : Value}

/-- What a slot stores leaves the keys of a record texts of one kind, each once. -/
theorem Slot.keyedBy_store {slot : Slot} {record record' : Entries} (keyed : record.KeyedBy name)
    (named : ∀ t layout, slot = .named t layout → name t)
    (inRecord : ∀ fields, value = .dict fields → Entries.KeyedBy fields name)
    (stored : slot.store record value = some record') : record'.KeyedBy name := by
  cases slot with
  | named t layout =>
    cases stored
    exact keyed.insert (named t layout rfl)
  | embedded layout =>
    cases value with
    | dict fields =>
      cases stored
      exact keyed.merge (inRecord fields rfl)
    | _ => cases stored
  | padding layout label =>
    cases stored
    exact keyed
  | foreign => cases stored

/-- What a slot stores keeps what holds of all values. -/
theorem Slot.forall_store {P : Value → Prop} {slot : Slot} {record record' : Entries}
    (each : ∀ entry ∈ record, P entry.2) (alone : P value)
    (inRecord : ∀ fields, value = .dict fields → ∀ entry ∈ fields, P entry.2)
    (stored : slot.store record value = some record') : ∀ entry ∈ record', P entry.2 := by
  cases slot with
  | named t layout =>
    cases stored
    exact Entries.forall_insert each alone
  | embedded layout =>
    cases value with
    | dict fields =>
      cases stored
      exact Entries.forall_merge each (inRecord fields rfl)
    | _ => cases stored
  | padding layout label =>
    cases stored
    exact each
  | foreign => cases stored

theorem madeOf_of_decodeSlots {slots : List Slot}
    (below : ∀ slot ∈ slots, ∀ layout, slot.layout? = some layout → ∀ {scope r r' value},
      layout.decode scope r = .ok (value, r') → value.MadeOf part name)
    (simple : ∀ entries, ¬part (.dict entries))
    (named : ∀ slot ∈ slots, ∀ t layout, slot = .named t layout → name t)
    {record final : Entries} (keyed : record.KeyedBy name)
    (each : ∀ entry ∈ record, entry.2.MadeOf part name)
    (read : decodeSlots slots record r = .ok (final, r')) :
    final.KeyedBy name ∧ ∀ entry ∈ final, entry.2.MadeOf part name := by
  induction slots generalizing record r with
  | nil =>
    cases read
    exact ⟨keyed, each⟩
  | cons slot rest ih =>
    obtain ⟨inSlot, inRest⟩ := List.forall_mem_cons.mp below
    obtain ⟨named_slot, named_rest⟩ := List.forall_mem_cons.mp named
    obtain ⟨layout, value, r₁, record₁, same, read_first, stored, read_rest⟩ :=
      decodeSlots_cons_eq_ok_iff.mp read
    have made := inSlot layout same read_first
    have inRecord : ∀ fields, value = .dict fields → Entries.KeyedBy fields name ∧
        ∀ entry ∈ fields, entry.2.MadeOf part name := by
      rintro fields rfl
      exact made.keyedBy simple
    exact ih inRest named_rest
      (Slot.keyedBy_store keyed named_slot (fun fields dict => (inRecord fields dict).1) stored)
      (Slot.forall_store each made (fun fields dict => (inRecord fields dict).2) stored) read_rest

/-- A decoded value is made of what the layouts in it yield, and so are its keys. -/
theorem Layout.madeOf_of_decode {layout : Layout} (yields : layout.Everywhere (Yields part name))
    (simple : ∀ entries, ¬part (.dict entries)) {scope : Scope}
    (read : layout.decode scope r = .ok (value, r')) : value.MadeOf part name := by
  induction layout using Layout.induction generalizing scope r r' value with
  | abstract => cases read
  | sequence slots ih =>
    obtain ⟨record, read_slots, rfl⟩ := decode_sequence_eq_ok_iff.mp read
    obtain ⟨here, below⟩ := yields
    obtain ⟨keyed, each⟩ := madeOf_of_decodeSlots
      (fun slot member layout same => ih slot member layout same (below.of_mem member same))
      simple here (Entries.keyedBy_nil name) (fun _ member => nomatch member) read_slots
    exact .dict keyed each
  | array length element ih =>
    obtain ⟨count, items, -, read_items, rfl⟩ := decode_array_eq_ok_iff.mp read
    exact .list (forall_of_decodeItems (fun read_item => ih yields.2 read_item) read_items)
  | branch discriminant cases otherwise ih =>
    obtain ⟨key, layout, -, chosen, read_chosen⟩ := decode_branch_eq_ok_iff.mp read
    have alternative := alternative_of_select chosen
    exact ih layout alternative (yields.alternative alternative) read_chosen
  | bitField width | wideField width =>
    rw [decode] at read
    obtain ⟨⟨n, r₁⟩, -, same⟩ := bind_eq_ok_iff.mp read
    cases same
    exact .part (yields n)
  | byteSlice length =>
    obtain ⟨raw, -, rfl⟩ := decode_byteSlice_eq_ok_iff.mp read
    exact .part (yields raw)
  | text length encoding =>
    obtain ⟨raw, t, -, spelled, rfl⟩ := decode_text_eq_ok_iff.mp read
    exact .part (yields raw t spelled)
  | padding width =>
    obtain ⟨-, -, rfl, -⟩ := decode_padding_eq_ok_iff.mp read
    exact .part yields

/-- Whatever the layout, a decoded value is made of bare ones. -/
theorem Layout.bare_of_decode {layout : Layout} {scope : Scope}
    (read : layout.decode scope r = .ok (value, r')) :
    value.MadeOf Value.IsBare fun _ => True := by
  have yields : ∀ layout : Layout, layout.Yields Value.IsBare fun _ => True := by
    intro layout
    cases layout with
    | sequence slots => exact fun _ _ _ _ _ => trivial
    | byteSlice length | bitField width | wideField width => exact fun _ => trivial
    | text length encoding => exact fun _ _ _ => trivial
    | abstract | array length element | branch discriminant cases otherwise | padding width =>
      trivial
  exact madeOf_of_decode (everywhere_of_forall yields layout) (fun _ => id) read

/-- Whatever the layout, a decoded value is plain. -/
theorem Layout.plain_of_decode {layout : Layout} {scope : Scope}
    (read : layout.decode scope r = .ok (value, r')) :
    value.MadeOf (Value.IsPlain fun _ => True) fun _ => True :=
  (bare_of_decode read).mono (fun _ bare => bare.plain) fun _ => id

/-- A decoded record has texts for keys, each once. -/
theorem Layout.keyedBy_of_decode {layout : Layout} {scope : Scope} {fields : Entries}
    (read : layout.decode scope r = .ok (.dict fields, r')) : fields.KeyedBy fun _ => True :=
  ((plain_of_decode read).keyedBy fun _ => id).1

end Decoding

end BitLayout
