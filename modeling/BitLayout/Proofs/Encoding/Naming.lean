import BitLayout.Proofs.Encoding.Related
import BitLayout.Proofs.Failure
import BitLayout.Proofs.Layout.Decidable
import BitLayout.Proofs.Layout.Numbers
import BitLayout.Proofs.Text.Numeral
import BitLayout.Proofs.Value.Equality

/-!
# What encoding sees of a record

A layout looks into a record under the names of its slots, of the slots of everything embedded in it,
and under the names that lengths and discriminants in these slots refer to. Other entries of the
record do not matter to what is written or refused, and neither does the order of its entries. The
same holds for the records inside it, each with the layouts that are given this record.

Only one thing shows more of a value. A reference to a field that holds a list or a record is refused
with the list or the record in the message, as it is in each of the values.

## Main definitions

* `Layout.HandsOn`: a layout that is given the same value as another one
* `Layout.LooksUp`: the names that a layout may look up in the record around it
* `Layout.consultedNames`, `Layout.fieldReaders`, `Layout.itemReaders`: the names under which a record
  is looked into, and the layouts that are given its fields or the items of a list
* `Value.SameFor`: the same value, as far as the given layouts can tell
* `Failure.SameReason`: the same failure up to the value that a message shows

## Main results

* `Value.SameFor.of_field?_eq`, `Value.SameFor.of_perm`: entries under other names, and the order of
  entries
* `Layout.encodeWithin_of_sameFor`: values that are the same for a layout are encoded alike
* `Layout.not_same_error_countedByRecord`: an entry that makes a message too long
-/

namespace BitLayout

namespace Layout

/-- The value that a layout is given is also given to what is embedded in it, and to the alternatives
of a branch. -/
inductive HandsOn (layout : Layout) : Layout → Prop
  | here : HandsOn layout layout
  | embedded {slots : List Slot} {part : Layout} (front : HandsOn layout (.sequence slots))
    (member : .embedded part ∈ slots) : HandsOn layout part
  | alternative {discriminant : Text} {cases : List (Integer × Layout)} {otherwise : Option Layout}
    {part : Layout} (front : HandsOn layout (.branch discriminant cases otherwise))
    (alternative : Alternative cases otherwise part) : HandsOn layout part

/-- A length or discriminant that is looked up in the record around a layout, by itself or by one of
its alternatives. -/
inductive LooksUp : Layout → Text → Prop
  | here {layout : Layout} {name : Text} (refers : layout.reference? = some name) :
    LooksUp layout name
  | alternative {discriminant : Text} {cases : List (Integer × Layout)} {otherwise : Option Layout}
    {part : Layout} {name : Text} (alternative : Alternative cases otherwise part)
    (below : LooksUp part name) : LooksUp (.branch discriminant cases otherwise) name

/-- Only a branch and what has embedded slots hand their value on. -/
theorem HandsOn.eq {layout part : Layout} (hands : layout.HandsOn part)
    (noSlots : ∀ slots, layout = .sequence slots → ∀ part, .embedded part ∉ slots)
    (noBranch : ∀ discriminant cases otherwise, layout ≠ .branch discriminant cases otherwise) :
    part = layout := by
  induction hands with
  | here => rfl
  | embedded _ member ih => exact absurd member (noSlots _ ih.symm _)
  | alternative _ _ ih => exact absurd ih.symm (noBranch _ _ _)

variable (readers : Set Layout)

/-- The names under which a record is looked into: those of slots, and those that slots refer to. -/
def consultedNames : Set Text :=
  {name | ∃ reader ∈ readers, ∃ slots, ∃ slot ∈ slots, ∃ part, reader.HandsOn (.sequence slots) ∧
    slot.layout? = some part ∧ (slot = .named name part ∨ part.LooksUp name)}

/-- The layouts that are given a field. -/
def fieldReaders (name : Text) : Set Layout :=
  {part | ∃ reader ∈ readers, ∃ slots, reader.HandsOn (.sequence slots) ∧ .named name part ∈ slots}

/-- The layouts that are given the items of a list. -/
def itemReaders : Set Layout :=
  {element | ∃ reader ∈ readers, ∃ length, reader.HandsOn (.array length element)}

end Layout

open Layout

/-- The same value as far as the given layouts can tell: a list with as many items that are the same
for the layouts of items, a record with the same fields among those that are looked into. -/
inductive Value.SameFor : Set Layout → Value → Value → Prop
  | same (readers : Set Layout) (value : Value) : Value.SameFor readers value value
  | list {readers : Set Layout} {items items' : List Value} (length : items.length = items'.length)
    (each : ∀ (index : Nat) (item item' : Value), items[index]? = some item →
      items'[index]? = some item' → Value.SameFor (itemReaders readers) item item') :
    Value.SameFor readers (.list items) (.list items')
  | tuple {readers : Set Layout} {items items' : List Value} (length : items.length = items'.length)
    (each : ∀ (index : Nat) (item item' : Value), items[index]? = some item →
      items'[index]? = some item' → Value.SameFor (itemReaders readers) item item') :
    Value.SameFor readers (.tuple items) (.tuple items')
  | dict {readers : Set Layout} {record record' : List (Value × Value)}
    (absent : ∀ name ∈ consultedNames readers,
      (Entries.field? record name = none ↔ Entries.field? record' name = none))
    (fields : ∀ name ∈ consultedNames readers, ∀ value value', Entries.field? record name = some value →
      Entries.field? record' name = some value' →
      Value.SameFor (fieldReaders readers name) value value') :
    Value.SameFor readers (.dict record) (.dict record')

/-- Records with the same fields among those that are looked into. -/
structure Entries.SameFor (readers : Set Layout) (record record' : Entries) : Prop where
  absent : ∀ name ∈ consultedNames readers, (record.field? name = none ↔ record'.field? name = none)
  fields : ∀ name ∈ consultedNames readers, ∀ value value', record.field? name = some value →
    record'.field? name = some value' → Value.SameFor (fieldReaders readers name) value value'

section SameFor

variable {readers : Set Layout} {record record' : Entries} {value value' : Value}

theorem Entries.sameFor_refl (readers : Set Layout) (record : Entries) :
    Entries.SameFor readers record record := by
  refine ⟨fun _ _ => Iff.rfl, fun name _ value value' found found' => ?_⟩
  rw [found] at found'
  cases found'
  exact .same _ value

/-- Under a name that is looked into there are two values, or none. -/
theorem Entries.SameFor.field? (same : Entries.SameFor readers record record') {name : Text}
    (consulted : name ∈ consultedNames readers) :
    (record.field? name = none ∧ record'.field? name = none) ∨
      ∃ value value', record.field? name = some value ∧ record'.field? name = some value' ∧
        Value.SameFor (fieldReaders readers name) value value' := by
  have absent := same.absent name consulted
  cases found : record.field? name with
  | none => exact Or.inl ⟨rfl, absent.mp found⟩
  | some value =>
    cases found' : record'.field? name with
    | none =>
      rw [absent.mpr found'] at found
      cases found
    | some value' =>
      exact Or.inr ⟨value, value', rfl, rfl, same.fields name consulted value value' found found'⟩

namespace Value.SameFor

/-- What stands under other names does not matter, and neither does the order of the entries. -/
theorem of_field?_eq (same : ∀ name ∈ consultedNames readers, record'.field? name = record.field? name) :
    SameFor readers (.dict record) (.dict record') := by
  refine .dict (fun name consulted => by rw [same name consulted]) ?_
  intro name consulted value value' found found'
  rw [same name consulted, found] at found'
  cases found'
  exact .same _ value

theorem of_perm (once : record.keys.Nodup) (order : record'.Perm record) :
    SameFor readers (.dict record) (.dict record') := by
  have once' : record'.keys.Nodup := (order.map Prod.fst).nodup_iff.mpr once
  refine of_field?_eq fun name _ => ?_
  cases found : record.field? name with
  | none =>
    rw [Entries.field?_eq_none_iff] at found ⊢
    exact fun member => found ((order.map Prod.fst).mem_iff.mp member)
  | some value =>
    exact Entries.field?_of_mem once' (order.mem_iff.mpr (Entries.mem_of_field? found))

theorem typeName_eq (same : SameFor readers value value') : value.typeName = value'.typeName := by
  cases same <;> rfl

theorem dict_inv (same : SameFor readers (.dict record) value') :
    ∃ record' : Entries, value' = .dict record' ∧ Entries.SameFor readers record record' := by
  cases same with
  | same => exact ⟨record, rfl, Entries.sameFor_refl readers record⟩
  | dict absent fields => exact ⟨_, rfl, absent, fields⟩

theorem items?_inv (same : SameFor readers value value') :
    (value.items? = none ∧ value'.items? = none) ∨
      ∃ items items', value.items? = some items ∧ value'.items? = some items' ∧
        items.length = items'.length ∧ ∀ (index : Nat) (item item' : Value),
          items[index]? = some item → items'[index]? = some item' →
          SameFor (itemReaders readers) item item' := by
  cases same with
  | same =>
    cases value.items? with
    | none => exact Or.inl ⟨rfl, rfl⟩
    | some items =>
      refine Or.inr ⟨items, items, rfl, rfl, rfl, fun index item item' there there' => ?_⟩
      rw [there] at there'
      cases there'
      exact .same _ item
  | list length each | tuple length each => exact Or.inr ⟨_, _, rfl, rfl, length, each⟩
  | dict => exact Or.inl ⟨rfl, rfl⟩

end Value.SameFor

end SameFor

/-- The same failure, except that the message of a reference which finds no integer may show another
value of the same type. -/
inductive Failure.SameReason : Failure → Failure → Prop
  | same (failure : Failure) : Failure.SameReason failure failure
  | shown {path : Path} {name : Text} {value value' : Value} (noInteger : value.integer? = none)
    (noInteger' : value'.integer? = none) (sort : value.typeName = value'.typeName) :
    Failure.SameReason (.located path (.fieldNotInteger name value))
      (.located path (.fieldNotInteger name value'))

theorem Failure.SameReason.isTolerance : Failure.IsTolerance Failure.SameReason := by
  refine ⟨.same, fun reason element => ?_⟩
  cases reason with
  | same => exact .same _
  | shown noInteger noInteger' sort => exact .shown noInteger noInteger' sort

/-- The same reason is met as an error of the same class at the same path, unless the value in one
message can be written and the one in the other cannot. -/
theorem Failure.SameReason.sameKind_raised {failure failure' : Failure}
    (reason : failure.SameReason failure')
    (writable : failure.message.isWritable = failure'.message.isWritable) :
    failure.raised.SameKind failure'.raised := by
  cases reason with
  | same => exact ⟨rfl, rfl⟩
  | shown => exact Failure.sameKind_raised rfl rfl writable

/-- Scopes in which everything that a layout may look up comes to the same. -/
structure Layout.LooksUpAlike (layout : Layout) (scope scope' : Scope) : Prop where
  inside : scope = none ↔ scope' = none
  references : ∀ name, layout.LooksUp name →
    SameUpTo Failure.SameReason ((resolveField scope name).mapError .here)
      ((resolveField scope' name).mapError .here)

section Encoding

variable {memory : Memory} {scope scope' : Scope} {readers : Set Layout} {record record' : Entries}
  {value value' : Value} {layout : Layout}

/-- A name that is looked into is resolved alike. -/
theorem Entries.SameFor.resolveField (same : Entries.SameFor readers record record') {name : Text}
    (consulted : name ∈ consultedNames readers) :
    SameUpTo Failure.SameReason ((BitLayout.resolveField (some record) name).mapError .here)
      ((BitLayout.resolveField (some record') name).mapError .here) := by
  have tolerance := Failure.SameReason.isTolerance
  rcases same.field? consulted with ⟨found, found'⟩ | ⟨value, value', found, found', same⟩
  · simp only [BitLayout.resolveField, found, found']
    exact tolerance.same _
  · simp only [BitLayout.resolveField, found, found']
    cases same with
    | same => exact tolerance.same _
    | list | tuple | dict =>
      -- None of them is an integer, and each is shown in the message.
      exact .error (.shown rfl rfl rfl)

namespace Layout.LooksUpAlike

theorem none (layout : Layout) : layout.LooksUpAlike none none :=
  ⟨Iff.rfl, fun _ _ => Failure.SameReason.isTolerance.same _⟩

theorem resolve {length : Length} (alike : layout.LooksUpAlike scope scope')
    (refers : layout.reference? = length.field?) :
    SameUpTo Failure.SameReason ((length.resolve scope).mapError .here)
      ((length.resolve scope').mapError .here) := by
  cases length with
  | literal count => exact Failure.SameReason.isTolerance.same _
  | field name => exact alike.references name (.here refers)

theorem alternative {discriminant : Text} {cases : List (Integer × Layout)}
    {otherwise : Option Layout} (alike : (branch discriminant cases otherwise).LooksUpAlike scope scope')
    (alternative : Alternative cases otherwise layout) : layout.LooksUpAlike scope scope' :=
  ⟨alike.inside, fun name below => alike.references name (.alternative alternative below)⟩

/-- What a slot looks up is looked into. -/
theorem ofSlot {slots : List Slot} {slot : Slot}
    (given : ∃ reader ∈ readers, reader.HandsOn (.sequence slots))
    (same : Entries.SameFor readers record record') (member : slot ∈ slots)
    (inSlot : slot.layout? = some layout) : layout.LooksUpAlike (some record) (some record') := by
  obtain ⟨reader, reads, hands⟩ := given
  refine ⟨by simp, fun name looksUp => same.resolveField ?_⟩
  exact ⟨reader, reads, slots, slot, member, layout, hands, inSlot, Or.inr looksUp⟩

end Layout.LooksUpAlike

/-- What a slot takes from records that are the same is the same for the layout in the slot, which is
given the field of its name, or the whole record if it is embedded. -/
theorem Slot.sameFor_load {slots : List Slot} {slot : Slot}
    (given : ∃ reader ∈ readers, reader.HandsOn (.sequence slots))
    (same : Entries.SameFor readers record record') (member : slot ∈ slots)
    (inSlot : slot.layout? = some layout) :
    ∃ readers' : Set Layout, (∃ reader ∈ readers', reader.HandsOn layout) ∧
      (slot.load record).SameFor readers' (slot.load record') := by
  obtain ⟨reader, reads, hands⟩ := given
  cases slot with
  | named name =>
    cases inSlot
    have consulted : name ∈ consultedNames readers :=
      ⟨reader, reads, slots, _, member, layout, hands, rfl, Or.inl rfl⟩
    refine ⟨fieldReaders readers name, ⟨layout, ⟨reader, reads, slots, hands, member⟩, .here⟩, ?_⟩
    rcases same.field? consulted with ⟨found, found'⟩ | ⟨value, value', found, found', same⟩
    · simp only [Slot.load, found, found']
      exact .same _ _
    · simp only [Slot.load, found, found']
      exact same
  | embedded =>
    cases inSlot
    exact ⟨readers, ⟨reader, reads, hands.embedded member⟩, .dict same.absent same.fields⟩
  | padding => exact ⟨{layout}, ⟨layout, rfl, .here⟩, .same _ _⟩
  | foreign => cases inSlot

/-- A layout writes values alike that are the same for all layouts which are given them. -/
theorem Layout.encode_of_sameFor (given : ∃ reader ∈ readers, reader.HandsOn layout)
    (same : value.SameFor readers value') (alike : layout.LooksUpAlike scope scope') (w : BitWriter) :
    SameUpTo Failure.SameReason (layout.encode memory value scope w)
      (layout.encode memory value' scope' w) := by
  have tolerance := Failure.SameReason.isTolerance
  -- On the tree of layouts: what a reader hands on stays with it, and every field or item gets the
  -- readers of its own.
  induction layout using Layout.induction generalizing readers scope scope' value value' w with
  | abstract => exact tolerance.same _
  | sequence slots ih =>
    cases value with
    | dict record =>
      obtain ⟨record', rfl, fields⟩ := same.dict_inv
      refine tolerance.sequence (fun slot member layout inSlot w => ?_) w
      obtain ⟨readers', given', same'⟩ := Slot.sameFor_load given fields member inSlot
      exact ih slot member layout inSlot given' same' (.ofSlot given fields member inSlot) w
    | _ => cases same <;> exact tolerance.same _
  | array length element ih =>
    rcases same.items?_inv with ⟨list, list'⟩ | ⟨items, items', list, list', lengths, each⟩
    · -- A value without items is refused by its type alone.
      rw [encode, encode, list, list', same.typeName_eq]
      exact tolerance.same _
    · obtain ⟨reader, reads, hands⟩ := given
      refine tolerance.array list list' (alike.resolve rfl) ?_ w
      refine List.forall₂_iff_get.mpr ⟨lengths, fun index within within' w => ?_⟩
      have given : ∃ reader ∈ itemReaders readers, reader.HandsOn element :=
        ⟨element, ⟨reader, reads, length, hands⟩, .here⟩
      refine ih given ?_ (.none element) w
      exact each index _ _ (List.getElem?_eq_getElem within) (List.getElem?_eq_getElem within')
  | branch discriminant cases otherwise ih =>
    cases scope with
    | none =>
      obtain rfl := alike.inside.mp rfl
      rw [encode, encode]
      exact tolerance.same _
    | some record =>
      cases scope' with
      | none => cases alike.inside.mpr rfl
      | some record' =>
        refine tolerance.branch (alike.references discriminant (.here rfl)) ?_
        intro key layout found chosen
        obtain ⟨reader, reads, hands⟩ := given
        have member := alternative_of_select chosen
        exact ih layout member ⟨reader, reads, hands.alternative member⟩ same
          (alike.alternative member) w
  | bitField width | wideField width =>
    rw [encode, encode]
    cases same <;> exact tolerance.same _
  | byteSlice length =>
    cases value with
    | bytes holder raw =>
      cases same
      exact tolerance.byteSlice (alike.resolve rfl) holder raw w
    | _ => cases same <;> exact tolerance.same _
  | text length encoding =>
    cases value with
    | text t =>
      cases same
      exact tolerance.text (alike.resolve rfl) t w
    | _ => cases same <;> exact tolerance.same _
  | padding width =>
    rw [encode, encode]
    exact tolerance.same _

end Encoding

/-- A failure shows its cause, so it cannot be written if its cause cannot. -/
theorem Failure.isWritable_eq_false {path : Path} {cause : Cause}
    (unwritable : cause.message.isWritable = false) :
    (Failure.located path cause).message.isWritable = false := by
  rw [message]
  split
  · exact unwritable
  · rw [Wording.isWritable_append, unwritable, Bool.and_false]

namespace Layout

/-- Encoding sees a record only under the names of its slots and of what is embedded in it, and under
those that lengths and discriminants refer to. Values that are the same but for the order of entries
and for entries under other names, at any depth, are encoded to the same bytes, or are refused for the
same reason at the same path, except that a reference which finds no integer shows what it finds in
each of the values. So the error that is met is of the same class at the same path, unless one of
these messages can be written and the other cannot. -/
theorem encodeWithin_of_sameFor (layout : Layout) (memory : Memory) {value value' : Value}
    (same : value.SameFor {layout} value') :
    SameUpTo Failure.SameReason (layout.encodeWithin memory value)
      (layout.encodeWithin memory value') ∧
    ∀ failure failure', layout.encodeWithin memory value = .error failure →
      layout.encodeWithin memory value' = .error failure' →
      failure.message.isWritable = failure'.message.isWritable →
      failure.raised.SameKind failure'.raised := by
  have given : ∃ reader ∈ ({layout} : Set Layout), reader.HandsOn layout := ⟨layout, rfl, .here⟩
  have outcomes : SameUpTo Failure.SameReason (layout.encodeWithin memory value)
      (layout.encodeWithin memory value') :=
    (encode_of_sameFor given same (.none layout) .empty).map _
  refine ⟨outcomes, fun failure failure' refused refused' => ?_⟩
  rw [refused, refused'] at outcomes
  cases outcomes with
  | error reason => exact reason.sameKind_raised

/-- Parcels with their weights, as many as the first field says. -/
def manifest : Layout :=
  .sequence
    [.named "count" (.bitField 8),
      .named "parcels" (.array (.field "count") (.sequence [.named "weight" (.bitField 8)]))]

/-- One parcel. -/
def manifestRecord : Entries :=
  [(.text "count", .int 1), (.text "parcels", .list [.dict [(.text "weight", .int 5)]])]

/-- The same parcel with a color, in another order and from somewhere. -/
def manifestRecordFrom : Entries :=
  [(.text "parcels", .list [.dict [(.text "color", .text "red"), (.text "weight", .int 5)]]),
    (.text "origin", .text "here"), (.text "count", .int 1)]

/-- A sequence without embedded slots looks into its record for its own slots only. -/
theorem exists_slot_of_consulted {readers : Set Layout} {slots : List Slot}
    (only : ∀ reader ∈ readers, reader = .sequence slots) (noneEmbedded : ∀ part, .embedded part ∉ slots)
    {name : Text} (consulted : name ∈ consultedNames readers) :
    ∃ slot ∈ slots, ∃ part, slot.layout? = some part ∧
      (slot = .named name part ∨ part.LooksUp name) := by
  obtain ⟨reader, reads, slots', slot, member, part, hands, inSlot, why⟩ := consulted
  obtain rfl := only reader reads
  have same : Layout.sequence slots' = .sequence slots :=
    hands.eq (fun _ same => by cases same; exact noneEmbedded) nofun
  cases same
  exact ⟨slot, member, part, inSlot, why⟩

theorem sameFor_manifestRecord :
    Value.SameFor {manifest} (.dict manifestRecord) (.dict manifestRecordFrom) := by
  -- The parcels are given to one layout, which names nothing but the weight.
  have parcel : ∀ reader ∈ itemReaders (fieldReaders {manifest} "parcels"),
      reader = .sequence [.named "weight" (.bitField 8)] := by
    rintro reader ⟨list, ⟨whole, rfl, slots, hands, member⟩, length, hands'⟩
    cases hands.eq (by rintro _ same part; cases same; simp) nofun
    have apart : Text.ofString "parcels" ≠ Text.ofString "count" := by decide
    obtain rfl : list = .array (.field "count") (.sequence [.named "weight" (.bitField 8)]) := by
      simpa [apart] using member
    cases hands'.eq nofun nofun
    rfl
  have inside : Value.SameFor (itemReaders (fieldReaders {manifest} "parcels"))
      (.dict [(.text "weight", .int 5)])
      (.dict [(.text "color", .text "red"), (.text "weight", .int 5)]) := by
    refine .of_field?_eq fun name consulted => ?_
    obtain ⟨slot, member, part, inSlot, why⟩ := exists_slot_of_consulted parcel (by simp) consulted
    obtain rfl := List.mem_singleton.mp member
    cases inSlot
    rcases why with same | looksUp
    · cases same
      rfl
    · cases looksUp with
      | here refers => cases refers
  have outside : ∀ name ∈ consultedNames {manifest}, name = "count" ∨ name = "parcels" := by
    intro name consulted
    obtain ⟨slot, member, part, inSlot, why⟩ :=
      exists_slot_of_consulted (fun _ same => same) (by simp) consulted
    simp only [List.mem_cons, List.not_mem_nil, or_false] at member
    rcases member with rfl | rfl <;> cases inSlot <;> rcases why with same | looksUp
    · cases same
      exact Or.inl rfl
    · cases looksUp with
      | here refers => cases refers
    · cases same
      exact Or.inr rfl
    · cases looksUp with
      | here refers => exact Or.inl (Option.some.inj refers).symm
  refine .dict (fun name consulted => ?_) (fun name consulted value value' found found' => ?_)
  · rcases outside name consulted with rfl | rfl
    · exact iff_of_false nofun nofun
    · exact iff_of_false nofun nofun
  · rcases outside name consulted with rfl | rfl
    · cases found
      cases found'
      exact .same _ _
    · cases found
      cases found'
      refine .list rfl fun index item item' there there' => ?_
      cases index with
      | zero =>
        cases there
        cases there'
        exact inside
      | succ => cases there

theorem encodeWithin_of_sameFor_manifest :
    Value.SameFor {manifest} (.dict manifestRecord) (.dict manifestRecordFrom) ∧
      manifest.encodeWithin .ordinary (.dict manifestRecord) = .ok [1, 5] ∧
      manifest.encodeWithin .ordinary (.dict manifestRecordFrom) = .ok [1, 5] := by
  have wrote : manifest.encodeWithin .ordinary (.dict manifestRecord) = .ok [1, 5] := by rfl
  have same := (encodeWithin_of_sameFor manifest .ordinary sameFor_manifestRecord).1
  rw [wrote] at same
  exact ⟨sameFor_manifestRecord, wrote, same.eq_of_ok⟩

/-- Bytes, as many as a record says, which it cannot. -/
def countedByRecord : Layout :=
  .sequence
    [.named "head" (.sequence []), .named "items" (.array (.field "head") (.bitField 8))]

/-- A record that holds something or nothing in its head. -/
def headRecord (head : Entries) : Entries := [(.text "head", .dict head), (.text "items", .list [])]

theorem encodeWithin_headRecord (head : Entries) :
    countedByRecord.encodeWithin .ordinary (.dict (headRecord head)) =
      .error (.located [.field "items"] (.fieldNotInteger "head" (.dict head))) := by
  rfl

/-- Whatever is in the head is not looked into. -/
theorem sameFor_headRecord (head head' : Entries) :
    Value.SameFor {countedByRecord} (.dict (headRecord head)) (.dict (headRecord head')) := by
  have empty : ∀ reader ∈ fieldReaders {countedByRecord} "head", reader = .sequence [] := by
    rintro reader ⟨whole, rfl, slots, hands, member⟩
    cases hands.eq (by rintro _ same part; cases same; simp) nofun
    have apart : Text.ofString "head" ≠ Text.ofString "items" := by decide
    simpa [apart] using member
  have inside : Value.SameFor (fieldReaders {countedByRecord} "head") (.dict head) (.dict head') := by
    refine .of_field?_eq fun name consulted => ?_
    obtain ⟨slot, member, -⟩ := exists_slot_of_consulted empty (by simp) consulted
    cases member
  refine .dict (fun name _ => ?_) (fun name _ value value' found found' => ?_)
  · rw [Entries.field?_eq_none_iff, Entries.field?_eq_none_iff]
    rfl
  · rw [headRecord] at found found'
    by_cases same : name = "head"
    · rw [same, Entries.field?_cons_self] at found found'
      cases found
      cases found'
      rw [same]
      exact inside
    · have apart : Value.text "head" ≠ .text name := fun other => same (Value.text.inj other).symm
      rw [Entries.field?_cons_of_ne apart] at found found'
      rw [found] at found'
      cases found'
      exact .same _ value

/-- The head is looked into under no name, but a number of too many digits in it cannot be written
into the message that shows the head, so another error is met. -/
theorem not_same_error_countedByRecord :
    countedByRecord.WellFormed ∧
      Value.SameFor {countedByRecord} (.dict (headRecord []))
        (.dict (headRecord [(.text "size", .int (Int.ofNat (10 ^ maxDigits)))])) ∧
      ∃ failure failure',
        countedByRecord.encodeWithin .ordinary (.dict (headRecord [])) = .error failure ∧
        countedByRecord.encodeWithin .ordinary
          (.dict (headRecord [(.text "size", .int (Int.ofNat (10 ^ maxDigits)))])) =
            .error failure' ∧
        failure.raised.errorClass = .family .unresolvedReference ∧
        failure.raised.path? = some [.field "items"] ∧
        failure'.raised.errorClass = .value ∧ failure'.raised.path? = none := by
  have long : (Wording.ofInt (Int.ofNat (10 ^ maxDigits))).isWritable = false := by
    rw [Wording.ofInt, Bool.eq_false_iff]
    exact fun writable => (Wording.isWritable_ofNat_iff.mp writable).false
  have unwritable : (Failure.located [.field "items"] (.fieldNotInteger "head"
      (.dict [(.text "size", .int (Int.ofNat (10 ^ maxDigits)))]))).message.isWritable = false := by
    refine Failure.isWritable_eq_false ?_
    simp only [Cause.message, Value.written, Value.writtenEntries, Wording.joined,
      Wording.isWritable_append, long, Bool.and_false, Bool.false_and]
  refine ⟨by decide +kernel, sameFor_headRecord _ _, _, _, encodeWithin_headRecord _,
    encodeWithin_headRecord _, by decide +kernel, by decide +kernel, ?_, ?_⟩
  · rw [Failure.raised, Raised.errorClass_saying, unwritable]
    rfl
  · rw [Failure.raised, Raised.path?_saying, unwritable]
    rfl

end Layout

end BitLayout
