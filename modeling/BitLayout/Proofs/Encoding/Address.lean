import BitLayout.Proofs.Encoding.Failure
import BitLayout.Proofs.Places
import BitLayout.Proofs.Value.Numbers

/-!
# Where a writing stops

The path of a failed writing leads through the value that was to be written, down to the part that a
layout refused. A named slot and an item have a step of their own, while an embedded layout and an
alternative are handed the value that is handed to what is around them. So walking the value along
the path finds exactly what the failing layout was handed, and the message is about this.

## Main definitions

* `Layout.Takes`: a value of the type that a layout needs
* `Layout.Kind.need?`: what a message says that a layout needs
* `Writing.Refuses`: the causes for which a layout itself refuses what it is handed

## Main results

* `Writing.Reaches.at?_eq`: what is reached by a path is the part of the value at this path
* `Layout.stopsAt_of_encode`: a writing stops where a layout refuses what it is handed
* `Layout.exists_refused_of_encodeWithin`: the same for whole values, with what the messages say
-/

namespace BitLayout

/-- A value of the type that a layout needs. Branches and padding need none in particular. -/
def Layout.Takes (layout : Layout) (value : Value) : Prop :=
  match layout with
  | .sequence _ => ∃ record, value = .dict record
  | .array .. => ∃ items, value.items? = some items
  | .bitField _ => ∃ n, value.integer? = some n
  | .wideField _ => ∃ n, value.integer? = some n
  | .byteSlice _ => ∃ holder raw, value = .bytes holder raw
  | .text .. => ∃ t, value = .text t
  | _ => True

/-- What a layout needs to be given, in messages. -/
def Layout.Kind.need? : Layout.Kind → Option Text
  | .sequence => some "a mapping"
  | .array => some "a list"
  | .bitField => some "an integer"
  | .wideField => some "an integer"
  | .byteSlice => some "bytes"
  | .text => some "a str"
  | _ => none

/-- A layout of an integer. -/
def Layout.IsField (layout : Layout) : Prop := layout.kind = .bitField ∨ layout.kind = .wideField

/-- Why a layout itself refuses what it is handed, as opposed to a part of it. -/
inductive Writing.Refuses : Writing → Cause → Prop
  | notRecord {slots : List Slot} {scope : Scope} {value : Value}
    (other : ∀ record, value ≠ .dict record) :
    Refuses ⟨.sequence slots, scope, value⟩ (.notRecord value.typeName)
  | notList {length : Length} {element : Layout} {scope : Scope} {value : Value}
    (other : value.items? = none) :
    Refuses ⟨.array length element, scope, value⟩ (.notList value.typeName)
  | wrongLength {length : Length} {element : Layout} {scope : Scope} {value : Value}
    {items : List Value} {count : Integer} (list : value.items? = some items)
    (resolved : length.resolve scope = .ok count) (differs : count.toInt ≠ items.length) :
    Refuses ⟨.array length element, scope, value⟩ (.wrongLength count items.length)
  | missing {layout : Layout} {scope : Scope} (field : layout.IsField) :
    Refuses ⟨layout, scope, .null⟩ (.missingInteger layout.kind)
  | notInteger {layout : Layout} {scope : Scope} {value : Value} (field : layout.IsField)
    (given : value ≠ .null) (other : value.integer? = none) :
    Refuses ⟨layout, scope, value⟩ (.notInteger layout.kind value.typeName)
  | notBytes {length : Length} {scope : Scope} {value : Value}
    (other : ∀ holder raw, value ≠ .bytes holder raw) :
    Refuses ⟨.byteSlice length, scope, value⟩ (.notBytes value.typeName)
  | notText {length : Length} {encoding : Text} {scope : Scope} {value : Value}
    (other : ∀ t, value ≠ .text t) :
    Refuses ⟨.text length encoding, scope, value⟩ (.notText value.typeName)
  | unencodable {length : Length} {encoding t : Text} {scope : Scope} {fault : EncodeFault}
    (unspelled : EncodingName.encode encoding t = .error (.content fault)) :
    Refuses ⟨.text length encoding, scope, .text t⟩ (.unencodableText encoding fault)
  | misaligned {layout : Layout} {scope : Scope} {value : Value} {bitOffset : Nat}
    (slice : layout.kind = .byteSlice ∨ layout.kind = .text) (inside : bitOffset ≠ 0) :
    Refuses ⟨layout, scope, value⟩ (.misaligned layout.kind bitOffset)
  | unresolved {layout : Layout} {scope : Scope} {value : Value} {name : Text} {cause : Cause}
    (refers : layout.reference? = some name) (unresolved : resolveField scope name = .error cause) :
    Refuses ⟨layout, scope, value⟩ cause
  | branchOutside {discriminant : Text} {cases : List (Integer × Layout)}
    {otherwise : Option Layout} {value : Value} :
    Refuses ⟨.branch discriminant cases otherwise, none, value⟩ .branchOutsideSequence
  | noMatchingCase {discriminant : Text} {cases : List (Integer × Layout)}
    {otherwise : Option Layout} {scope : Scope} {value : Value} {key : Integer}
    (found : resolveField scope discriminant = .ok key)
    (missing : Layout.select cases otherwise key = none) :
    Refuses ⟨.branch discriminant cases otherwise, scope, value⟩ (.noMatchingCase discriminant key)

namespace Writing

section Walking

variable {visit part below : Writing} {move : Step} {path : Path}

/-- Padding hands nothing down, so nothing but itself is reached from it. -/
theorem Reaches.not_isPadding (reaches : visit.Reaches path below)
    (noPadding : below.layout.isPadding = false) : visit.layout.isPadding = false := by
  cases reaches with
  | here => exact noPadding
  | step hands => cases hands <;> rfl

/-- What is reached by a path is the part of the value at this path, unless it is padding. -/
theorem Reaches.at?_eq (reaches : visit.Reaches path below) (wellFormed : visit.layout.WellFormed)
    (noPadding : below.layout.isPadding = false) : visit.value.at? path = some below.value := by
  induction reaches with
  | here => rfl
  | step hands rest ih =>
    rcases hands.at?_append _ with there | ⟨-, padding⟩
    · rw [there]
      exact ih (hands.wellFormed wellFormed) noPadding
    · have noPadding_part := rest.not_isPadding noPadding
      rw [padding wellFormed] at noPadding_part
      cases noPadding_part

end Walking

/-- A writing stops with this cause where a layout refuses what it is handed, which is reached by
this path. -/
def StopsAt (memory : Memory) (visit : Writing) (path : Path) (cause : Cause) : Prop :=
  ∃ below, visit.Reaches path below ∧ below.Refuses cause ∧
    ∃ w, below.layout.encode memory below.value below.scope w = .error (.here cause)

section Stopping

variable {memory : Memory} {visit part : Writing} {move : Step} {path : Path} {cause : Cause}
  {w : BitWriter}

theorem Refuses.stopsAt (refuses : visit.Refuses cause) (nowhere : path = [])
    (stopped : visit.layout.encode memory visit.value visit.scope w = .error (.located path cause)) :
    visit.StopsAt memory path cause := by
  subst nowhere
  exact ⟨visit, .here _, refuses, w, stopped⟩

/-- Where a part stops, the whole stops. -/
theorem StopsAt.step (hands : visit.Hands move part) (stops : part.StopsAt memory path cause) :
    visit.StopsAt memory (visit.pathOf move ++ path) cause := by
  obtain ⟨below, reaches, refuses, stopped⟩ := stops
  exact ⟨below, .step hands reaches, refuses, stopped⟩

end Stopping

section Leaves

variable {memory : Memory} {layout : Layout} {scope : Scope} {value : Value} {length : Length}
  {path : Path} {cause : Cause} {w : BitWriter}

theorem refuses_of_resolve (refers : layout.reference? = length.field?)
    (unresolved : length.resolve scope = .error cause) : Refuses ⟨layout, scope, value⟩ cause := by
  cases length with
  | literal count => cases unresolved
  | field name => exact .unresolved refers unresolved

/-- A value is refused as a number on the spot. -/
theorem refuses_of_writeInteger (field : layout.IsField) {width : Integer}
    (stopped : writeInteger memory layout.kind width value w = .error (.located path cause)) :
    path = [] ∧ Refuses ⟨layout, scope, value⟩ cause := by
  rcases writeInteger_eq_error_iff.mp stopped with ⟨rfl, located⟩ | ⟨given, other, located⟩ |
    ⟨n, error, -, -, located⟩
  · cases located
    exact ⟨rfl, .missing field⟩
  · cases located
    exact ⟨rfl, .notInteger field given other⟩
  · cases located

/-- A slice is refused on the spot, for its place or its length. -/
theorem refuses_of_writeSlice (slice : layout.kind = .byteSlice ∨ layout.kind = .text)
    (refers : layout.reference? = length.field?) {raw : List UInt8}
    (stopped : writeSlice layout.kind length raw scope w = .error (.located path cause)) :
    path = [] ∧ Refuses ⟨layout, scope, value⟩ cause := by
  rcases writeSlice_eq_error_iff.mp stopped with ⟨inside, located⟩ | ⟨-, _, unresolved, located⟩
  · cases located
    exact ⟨rfl, .misaligned slice inside⟩
  · cases located
    exact ⟨rfl, refuses_of_resolve refers unresolved⟩

/-- The path of a failure of a slot starts with the path of the slot. -/
theorem exists_rest_of_place {slot : Slot} (wellFormed : slot.WellFormed)
    (same : slot.layout? = some layout) {inner : Failure}
    (stopped : layout.encode memory value scope w = .error inner)
    (placed : slot.place inner = .located path cause) :
    ∃ rest, inner = .located rest cause ∧ path = slot.path ++ rest := by
  cases slot with
  | named => exact Failure.within_eq_located_iff.mp placed
  | embedded => exact ⟨path, placed, rfl⟩
  | padding =>
    cases same
    obtain ⟨isPadding, -⟩ := wellFormed
    cases layout with
    | padding width =>
      -- Padding is refused by the writer only, without any place.
      obtain ⟨error, -, rfl⟩ := Layout.encode_padding_eq_error_iff.mp stopped
      rw [Slot.place_cursor] at placed
      cases placed
    | _ => cases isPadding
  | foreign => cases same

/-- A branch that does not choose refuses on the spot. -/
theorem refuses_of_choiceFails {discriminant : Text} {cases : List (Integer × Layout)}
    {otherwise : Option Layout}
    (fails : Layout.ChoiceFails scope discriminant cases otherwise cause) :
    Refuses ⟨.branch discriminant cases otherwise, scope, value⟩ cause := by
  rcases fails with ⟨rfl, rfl⟩ | ⟨-, unresolved⟩ | ⟨key, found, missing, rfl⟩
  · exact .branchOutside
  · exact .unresolved rfl unresolved
  · exact .noMatchingCase found missing

end Leaves

end Writing

open Writing in
/-- A writing that stops with a place stops where a layout refuses what it is handed. -/
theorem Layout.stopsAt_of_encode {layout : Layout} {memory : Memory} {scope : Scope} {value : Value}
    {w : BitWriter} {path : Path} {cause : Cause} (wellFormed : layout.WellFormed)
    (stopped : layout.encode memory value scope w = .error (.located path cause)) :
    StopsAt memory ⟨layout, scope, value⟩ path cause := by
  -- On the tree of layouts: each level puts its step in front of the path from the one below.
  induction layout using Layout.induction generalizing scope value w path cause with
  | abstract => exact wellFormed.elim
  | sequence slots ih =>
    rcases encode_sequence_eq_error_iff.mp stopped with ⟨other, located⟩ | ⟨record, rfl, inSlots⟩
    · cases located
      exact (Refuses.notRecord other).stopsAt rfl stopped
    · obtain ⟨index, slot, layout, w₁, inner, there, same, -, inSlot, placed⟩ :=
        exists_slot_of_encodeSlots wellFormed inSlots
      have member := List.mem_of_getElem? there
      have wellFormed_layout := wellFormed.of_mem member same
      have hands : Hands ⟨.sequence slots, scope, .dict record⟩ (.slot index) _ := .slot there same
      obtain ⟨rest, rfl, rfl⟩ := exists_rest_of_place (wellFormed.cut there).2.1 same inSlot placed
      have below := (ih slot member layout same wellFormed_layout inSlot).step hands
      rwa [pathOf_slot there] at below
  | array length element ih =>
    rcases encode_array_eq_error_iff.mp stopped with ⟨other, located⟩ | ⟨items, list,
      ⟨_, unresolved, located⟩ | ⟨count, resolved, ⟨differs, located⟩ | ⟨-, inItems⟩⟩⟩
    · cases located
      exact (Refuses.notList other).stopsAt rfl stopped
    · cases located
      exact (refuses_of_resolve rfl unresolved).stopsAt rfl stopped
    · cases located
      exact (Refuses.wrongLength list resolved differs).stopsAt rfl stopped
    · obtain ⟨index, item, w₁, inner, there, -, inItem, placed⟩ :=
        encodeItems_eq_error_iff.mp inItems
      obtain ⟨rest, rfl, rfl⟩ := Failure.within_eq_located_iff.mp placed
      have hands : Hands ⟨.array length element, scope, value⟩ (.item index) _ := .item list there
      have below := (ih wellFormed.2 inItem).step hands
      rwa [Nat.zero_add]
  | branch discriminant cases otherwise ih =>
    rcases encode_branch_eq_error_iff.mp stopped with ⟨_, fails, located⟩ |
      ⟨key, layout, found, chosen, inLayout⟩
    · cases located
      exact (refuses_of_choiceFails fails).stopsAt rfl stopped
    · have member := alternative_of_select chosen
      exact (ih layout member (wellFormed.alternative member) inLayout).step
        (.alternative found chosen)
  | bitField width =>
    have field : IsField (bitField width) := Or.inl rfl
    obtain ⟨nowhere, refuses⟩ :=
      refuses_of_writeInteger field (encode_bitField_eq_error_iff.mp stopped)
    exact refuses.stopsAt nowhere stopped
  | wideField width =>
    have field : IsField (wideField width) := Or.inr rfl
    obtain ⟨nowhere, refuses⟩ :=
      refuses_of_writeInteger field (encode_wideField_eq_error_iff.mp stopped)
    exact refuses.stopsAt nowhere stopped
  | byteSlice length =>
    rcases encode_byteSlice_eq_error_iff.mp stopped with ⟨other, located⟩ | ⟨holder, raw, rfl, inRaw⟩
    · cases located
      exact (Refuses.notBytes other).stopsAt rfl stopped
    · have refers : (byteSlice length).reference? = length.field? := rfl
      obtain ⟨nowhere, refuses⟩ := refuses_of_writeSlice (Or.inl rfl) refers inRaw
      exact refuses.stopsAt nowhere stopped
  | text length encoding =>
    obtain ⟨-, e, found⟩ := wellFormed
    rcases encode_text_eq_error_iff.mp stopped with ⟨other, located⟩ | ⟨t, rfl, inText | ⟨raw, -, inRaw⟩⟩
    · cases located
      exact (Refuses.notText other).stopsAt rfl stopped
    · obtain ⟨fault, unspelled, located⟩ := (writeText_eq_error_iff found).mp inText
      cases located
      refine (Refuses.unencodable ?_).stopsAt rfl stopped
      rw [EncodingName.encode, found]
      exact mapError_eq_error_iff.mpr ⟨fault, unspelled, rfl⟩
    · have refers : (text length encoding).reference? = length.field? := rfl
      obtain ⟨nowhere, refuses⟩ := refuses_of_writeSlice (Or.inr rfl) refers inRaw
      exact refuses.stopsAt nowhere stopped
  | padding width =>
    obtain ⟨error, -, located⟩ := encode_padding_eq_error_iff.mp stopped
    cases located

namespace Writing

variable {visit : Writing} {cause : Cause}

/-- What a message says about a value of another type than its layout needs: that it is missing if
nothing is in the place of an integer, and otherwise its type. -/
def NamesMismatch (visit : Writing) (message : Wording) : Prop :=
  (visit.value = .null ∧ visit.layout.IsField ∧
      message = "missing value for required " ++ visit.layout.kind.name) ∨
    (¬(visit.value = .null ∧ visit.layout.IsField) ∧ ∃ need, visit.layout.kind.need? = some need ∧
      message = visit.layout.kind.name ++ " expects " ++ need ++ ", got " ++ visit.value.typeName)

theorem not_takes_of_isField {layout : Layout} {value : Value} (field : layout.IsField)
    (other : value.integer? = none) : ¬layout.Takes value := by
  cases layout with
  | bitField | wideField =>
    rintro ⟨n, number⟩
    rw [other] at number
    cases number
  | _ => rcases field with sort | sort <;> cases sort

/-- A layout of no integer names the type of whatever it refuses. -/
theorem namesMismatch_of_need {need : Text} {message : Wording}
    (noField : visit.layout.kind ≠ .bitField ∧ visit.layout.kind ≠ .wideField)
    (needs : visit.layout.kind.need? = some need)
    (same : message =
      visit.layout.kind.name ++ " expects " ++ need ++ ", got " ++ visit.value.typeName) :
    visit.NamesMismatch message :=
  Or.inr ⟨fun ⟨_, field⟩ => field.elim noField.1 noField.2, need, needs, same⟩

/-- A value that is refused for its type is of another type, which the message names. -/
theorem Refuses.not_takes (refuses : visit.Refuses cause) (family : cause.category = .typeMismatch) :
    ¬visit.layout.Takes visit.value ∧ visit.NamesMismatch cause.message := by
  cases refuses with
  | notRecord other =>
    refine ⟨?_, namesMismatch_of_need ⟨nofun, nofun⟩ rfl rfl⟩
    exact fun ⟨record, same⟩ => other record same
  | notList other =>
    refine ⟨?_, namesMismatch_of_need ⟨nofun, nofun⟩ rfl rfl⟩
    rintro ⟨items, list⟩
    rw [other] at list
    cases list
  | notBytes other =>
    refine ⟨?_, namesMismatch_of_need ⟨nofun, nofun⟩ rfl rfl⟩
    exact fun ⟨holder, raw, same⟩ => other holder raw same
  | notText other =>
    refine ⟨?_, namesMismatch_of_need ⟨nofun, nofun⟩ rfl rfl⟩
    exact fun ⟨t, same⟩ => other t same
  | missing field => exact ⟨not_takes_of_isField field rfl, Or.inl ⟨rfl, field, rfl⟩⟩
  | notInteger field given other =>
    refine ⟨not_takes_of_isField field other, Or.inr ⟨fun both => given both.1, "an integer", ?_, ?_⟩⟩
    · rcases field with sort | sort <;> simp only [sort, Layout.Kind.need?]
    · rcases field with sort | sort <;> simp only [sort] <;> rfl
  | unresolved refers unresolved =>
    rw [category_of_resolveField unresolved] at family
    cases family
  | wrongLength | unencodable | misaligned | branchOutside | noMatchingCase => cases family

/-- A list that is refused for its length has another one than its layout says, and the message shows
both. -/
theorem Refuses.length_ne (refuses : visit.Refuses cause)
    (family : cause.category = .lengthMismatch) :
    ∃ length element items count, visit.layout = .array length element ∧
      visit.value.items? = some items ∧ length.resolve visit.scope = .ok count ∧
      count.toInt ≠ items.length ∧
      cause.message =
        "expected array with length " ++ count.written ++ ", got " ++ Wording.ofNat items.length := by
  cases refuses with
  | wrongLength list resolved differs => exact ⟨_, _, _, _, rfl, list, resolved, differs, rfl⟩
  | unresolved refers unresolved =>
    rw [category_of_resolveField unresolved] at family
    cases family
  | _ => cases family

/-- A text that is refused for its content cannot be encoded. -/
theorem Refuses.exists_fault (refuses : visit.Refuses cause) (family : cause.category = .encode) :
    ∃ length encoding t fault, visit.layout = .text length encoding ∧ visit.value = .text t ∧
      EncodingName.encode encoding t = .error (.content fault) := by
  cases refuses with
  | unencodable unspelled => exact ⟨_, _, _, _, rfl, rfl, unspelled⟩
  | unresolved refers unresolved =>
    rw [category_of_resolveField unresolved] at family
    cases family
  | _ => cases family

/-- Padding refuses nothing. -/
theorem Refuses.not_isPadding (refuses : visit.Refuses cause) : visit.layout.isPadding = false := by
  obtain ⟨layout, scope, value⟩ := visit
  cases layout with
  | padding width =>
    cases refuses with
    | missing field | notInteger field => rcases field with sort | sort <;> cases sort
    | misaligned slice => rcases slice with sort | sort <;> cases sort
    | unresolved refers => cases refers
  | _ => rfl

end Writing

namespace Layout

/-- The path of a failed writing leads through the value to the part that a layout refused. Whatever
is of another type than needed is named by its type, or is missing where an integer is needed. A list
of another length is shown with its own and the one that its layout says, and a text is refused for
its content only if its encoding has no bytes for it. -/
theorem exists_refused_of_encodeWithin {layout : Layout} {memory : Memory} {value : Value}
    {path : Path} {cause : Cause} (wellFormed : layout.WellFormed)
    (stopped : layout.encodeWithin memory value = .error (.located path cause)) :
    ∃ below, Writing.Reaches ⟨layout, none, value⟩ path below ∧
      value.at? path = some below.value ∧ below.Refuses cause ∧
      (∃ w, below.layout.encode memory below.value below.scope w = .error (.here cause)) ∧
      (cause.category = .typeMismatch →
        ¬below.layout.Takes below.value ∧ below.NamesMismatch cause.message) ∧
      (cause.category = .lengthMismatch →
        ∃ length element items count, below.layout = .array length element ∧
          below.value.items? = some items ∧ length.resolve below.scope = .ok count ∧
          count.toInt ≠ items.length ∧
          cause.message = "expected array with length " ++ count.written ++ ", got " ++
            Wording.ofNat items.length) ∧
      (cause.category = .encode →
        ∃ length encoding t fault, below.layout = .text length encoding ∧ below.value = .text t ∧
          EncodingName.encode encoding t = .error (.content fault)) := by
  obtain ⟨below, reaches, refuses, refused⟩ := stopsAt_of_encode wellFormed (map_eq_error_iff.mp stopped)
  exact ⟨below, reaches, reaches.at?_eq wellFormed refuses.not_isPadding, refuses, refused,
    refuses.not_takes, refuses.length_ne, refuses.exists_fault⟩

/-- Two items of which the second is a text. -/
def telegramWithText : Entries :=
  [(.text "count", .int 2), (.text "items", .list [.int 10, .text "B"])]

theorem exists_refused_of_encodeWithin_telegram :
    telegram.WellFormed ∧
      telegram.encodeWithin .ordinary (.dict telegramWithText) =
        .error (.located [.field "items", .index 1] (.notInteger .bitField "str")) ∧
      ∃ below : Writing, below.value = .text "B" ∧
        Writing.Reaches ⟨telegram, none, .dict telegramWithText⟩ [.field "items", .index 1] below ∧
        below.Refuses (.notInteger .bitField "str") ∧ ¬below.layout.Takes below.value ∧
        below.NamesMismatch (Cause.notInteger .bitField "str").message := by
  have stopped : telegram.encodeWithin .ordinary (.dict telegramWithText) =
    .error (.located [.field "items", .index 1] (.notInteger .bitField "str")) := by cbv
  have there : Value.at? (.dict telegramWithText) [.field "items", .index 1] = some (.text "B") := by
    cbv
  obtain ⟨below, reaches, part, refuses, -, mismatch, -⟩ :=
    exists_refused_of_encodeWithin wellFormed_telegram stopped
  rw [there] at part
  obtain ⟨other, named⟩ := mismatch rfl
  exact ⟨wellFormed_telegram, stopped, below, (Option.some.inj part).symm, reaches, refuses, other,
    named⟩

end Layout

end BitLayout
