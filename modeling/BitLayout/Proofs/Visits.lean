import BitLayout.Decoder
import BitLayout.Proofs.Encoding.Success

/-!
# The parts of a value and of its bits

Encoding hands the parts of a value down to the parts of a layout. A sequence hands each slot its
field of the record, and the record as the scope; an array hands over its items without any scope;
a branch hands everything on to the alternative that it chooses. What is asked of the values of all
fields, items and texts is asked of all that is handed down. Decoding comes by the same steps to the
parts of a layout, with the fields and the place that it has reached by then.

## Main definitions

* `Step`, `Walk`: from a layout to a slot, an item or an alternative of it, and so on
* `Writing`, `Writing.Hands`: a layout with its value, and what it hands down
* `Writing.All`: a property of everything that is handed down
* `Writing.KeepsLength`: bytes and texts are as long as their layout says
* `Reading`, `Reading.Hands`: a layout with its place, and where it goes on from there

## Main results

* `Writing.all_sequence_iff`, `Writing.all_array_iff`, `Writing.all_branch_iff`: what is asked of
  everything that is handed down is asked of the parts
* `Reading.Hands.extend`, `Reading.Hands.behind`: a decoder goes to a slot by those in front of it
-/

namespace BitLayout

/-- A layout without parts. -/
def Layout.IsLeaf : Layout → Prop
  | .sequence _ => False
  | .array .. => False
  | .branch .. => False
  | _ => True

/-- A step from a layout to a part of it. -/
inductive Step where
  | slot (index : Nat)
  | item (index : Nat)
  | alternative

/-- Steps one after another. -/
inductive Walk {α : Type} (hands : α → Step → α → Prop) : α → List Step → α → Prop
  | here (visit : α) : Walk hands visit [] visit
  | step {visit part below : α} {step : Step} {steps : List Step}
    (first : hands visit step part) (rest : Walk hands part steps below) :
    Walk hands visit (step :: steps) below

/-- A layout with the value that it is given and the scope around it. -/
structure Writing where
  layout : Layout
  scope : Scope
  value : Value

namespace Writing

/-- What an encoder hands down in one step. -/
inductive Hands : Writing → Step → Writing → Prop
  | slot {slots : List Slot} {scope : Scope} {record : Entries} {index : Nat} {slot : Slot}
    {layout : Layout} (there : slots[index]? = some slot) (same : slot.layout? = some layout) :
    Hands ⟨.sequence slots, scope, .dict record⟩ (.slot index)
      ⟨layout, some record, slot.load record⟩
  | item {length : Length} {element : Layout} {scope : Scope} {value item : Value}
    {items : List Value} {index : Nat} (list : value.items? = some items)
    (there : items[index]? = some item) :
    Hands ⟨.array length element, scope, value⟩ (.item index) ⟨element, none, item⟩
  | alternative {discriminant : Text} {cases : List (Integer × Layout)}
    {otherwise : Option Layout} {scope : Scope} {value : Value} {key : Integer} {layout : Layout}
    (found : resolveField scope discriminant = .ok key)
    (chosen : Layout.select cases otherwise key = some layout) :
    Hands ⟨.branch discriminant cases otherwise, scope, value⟩ .alternative ⟨layout, scope, value⟩

/-- A property of a layout with its value and of everything that is handed down from there. -/
def All (P : Writing → Prop) (visit : Writing) : Prop :=
  ∀ steps below, Walk Hands visit steps below → P below

variable {P : Writing → Prop} {visit part : Writing} {step : Step}

theorem All.here (all : visit.All P) : P visit := all [] visit (.here visit)

theorem All.below (all : visit.All P) (hands : visit.Hands step part) : part.All P :=
  fun steps below walk => all (step :: steps) below (.step hands walk)

/-- Whatever is handed down is handed down in one step first. -/
theorem all_iff : visit.All P ↔ P visit ∧ ∀ step part, visit.Hands step part → part.All P := by
  constructor
  · exact fun all => ⟨all.here, fun step part hands => all.below hands⟩
  · rintro ⟨here, below⟩ steps visit' walk
    cases walk with
    | here => exact here
    | step first rest => exact below _ _ first _ _ rest

/-- A layout without parts hands nothing down. -/
theorem all_of_isLeaf (leaf : visit.layout.IsLeaf) (here : P visit) : visit.All P := by
  refine all_iff.mpr ⟨here, fun step part hands => ?_⟩
  cases hands with
  | slot | item | alternative => exact leaf.elim

section Parts

variable {scope : Scope} {value : Value}

theorem all_sequence_iff {slots : List Slot} {record : Entries} :
    All P ⟨.sequence slots, scope, .dict record⟩ ↔
      P ⟨.sequence slots, scope, .dict record⟩ ∧
        ∀ slot ∈ slots, ∀ layout, slot.layout? = some layout →
          All P ⟨layout, some record, slot.load record⟩ := by
  rw [all_iff]
  refine and_congr_right fun _ => ⟨?_, ?_⟩
  · intro below slot member layout same
    obtain ⟨index, there⟩ := List.mem_iff_getElem?.mp member
    exact below _ _ (.slot there same)
  · rintro below _ _ (@⟨_, _, _, index, slot, layout, there, same⟩)
    exact below slot (List.mem_of_getElem? there) layout same

theorem all_array_iff {length : Length} {element : Layout} :
    All P ⟨.array length element, scope, value⟩ ↔
      P ⟨.array length element, scope, value⟩ ∧
        ∀ items, value.items? = some items → ∀ item ∈ items, All P ⟨element, none, item⟩ := by
  rw [all_iff]
  refine and_congr_right fun _ => ⟨?_, ?_⟩
  · intro below items list item member
    obtain ⟨index, there⟩ := List.mem_iff_getElem?.mp member
    exact below _ _ (.item list there)
  · intro below step part hands
    cases hands with
    | item list there => exact below _ list _ (List.mem_of_getElem? there)

theorem all_branch_iff {discriminant : Text} {cases : List (Integer × Layout)}
    {otherwise : Option Layout} :
    All P ⟨.branch discriminant cases otherwise, scope, value⟩ ↔
      P ⟨.branch discriminant cases otherwise, scope, value⟩ ∧
        ∀ key layout, resolveField scope discriminant = .ok key →
          Layout.select cases otherwise key = some layout → All P ⟨layout, scope, value⟩ := by
  rw [all_iff]
  refine and_congr_right fun _ => ⟨?_, ?_⟩
  · exact fun below key layout found chosen => below _ _ (.alternative found chosen)
  · intro below step part hands
    cases hands with
    | alternative found chosen => exact below _ _ found chosen

end Parts

/-- Bytes, and the bytes of a text, are as many as the length of their layout. -/
def KeepsLength (visit : Writing) : Prop :=
  match visit.layout, visit.value with
  | .byteSlice length, .bytes _ raw =>
    ∀ count, length.resolve visit.scope = .ok count → count.toInt = raw.length
  | .text length encoding, .text t =>
    ∀ count raw, length.resolve visit.scope = .ok count → EncodingName.encode encoding t = .ok raw →
      count.toInt = raw.length
  | _, _ => True

end Writing

/-- A layout with the place of a reader and the scope around it. -/
structure Reading where
  layout : Layout
  scope : Scope
  reader : BitReader

/-- Where a decoder goes on in one step: to a slot behind the earlier ones, with the fields that they
have put into the record, or to an item behind the earlier ones, or to the alternative that is
chosen. -/
inductive Reading.Hands : Reading → Step → Reading → Prop
  | slot {slots : List Slot} {scope : Scope} {r r' : BitReader} {index : Nat} {slot : Slot}
    {layout : Layout} {record : Entries} (there : slots[index]? = some slot)
    (same : slot.layout? = some layout)
    (before : decodeSlots (slots.take index) [] r = .ok (record, r')) :
    Hands ⟨.sequence slots, scope, r⟩ (.slot index) ⟨layout, some record, r'⟩
  | item {length : Length} {element : Layout} {scope : Scope} {r r' : BitReader} {count : Integer}
    {index : Nat} {items : List Value} (resolved : length.resolve scope = .ok count)
    (there : index < count.toNat)
    (before : decodeItems (fun r => element.decode none r) index 0 r = .ok (items, r')) :
    Hands ⟨.array length element, scope, r⟩ (.item index) ⟨element, none, r'⟩
  | alternative {discriminant : Text} {cases : List (Integer × Layout)}
    {otherwise : Option Layout} {scope : Scope} {r : BitReader} {key : Integer} {layout : Layout}
    (found : resolveField scope discriminant = .ok key)
    (chosen : Layout.select cases otherwise key = some layout) :
    Hands ⟨.branch discriminant cases otherwise, scope, r⟩ .alternative ⟨layout, scope, r⟩

section Readings

variable {front back : List Slot} {scope : Scope} {r r' : BitReader}

/-- A decoder that goes to a slot does so whatever slots come behind. -/
theorem Reading.Hands.extend {step : Step} {part : Reading}
    (hands : Hands ⟨.sequence front, scope, r⟩ step part) :
    Hands ⟨.sequence (front ++ back), scope, r⟩ step part := by
  cases hands with
  | @slot _ _ _ r' index slot layout record there same before =>
    obtain ⟨inside, -⟩ := List.getElem?_eq_some_iff.mp there
    refine .slot ?_ same ?_
    · rw [List.getElem?_append_left inside, there]
    · rwa [List.take_append_of_le_length inside.le]

/-- A decoder goes to the slot behind those that it has read. -/
theorem Reading.Hands.behind {slot : Slot} {layout : Layout} {record : Entries}
    (same : slot.layout? = some layout) (read : decodeSlots front [] r = .ok (record, r')) :
    Hands ⟨.sequence (front ++ slot :: back), scope, r⟩ (.slot front.length)
      ⟨layout, some record, r'⟩ := by
  refine .slot ?_ same ?_
  · simp
  · rwa [List.take_left]

end Readings

end BitLayout
