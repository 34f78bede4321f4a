import BitLayout.Proofs.Decoding.Failure
import BitLayout.Proofs.Layout.Decidable
import BitLayout.Proofs.Layout.Numbers
import Mathlib

/-!
# Where a reading stops

The path of a failed reading leads from the layout that was to be read down to the part that could
not go on. Names and labels of slots and positions of items are steps of the path. Embedded layouts
and the alternatives of branches take no step, so the path of one of them is the path of what is
around it.

## Main definitions

* `Layout.Addresses`: a path from a layout to a part of it
* `Layout.CanStop`: the causes for which a layout itself stops a reading

## Main results

* `Layout.exists_addresses_of_decode`: the path of a failure ends where it can arise
-/

namespace BitLayout

/-- A path from a layout to a part of it. Padding is at the end of a path, under its label. -/
inductive Layout.Addresses : Layout → Path → Layout → Prop
  | here (layout : Layout) : Addresses layout [] layout
  | named {slots : List Slot} {name : Text} {layout target : Layout} {path : Path}
    (member : .named name layout ∈ slots) (rest : Addresses layout path target) :
    Addresses (.sequence slots) (.field name :: path) target
  | labelled {slots : List Slot} {label : Text} {layout : Layout}
    (member : .padding layout (some label) ∈ slots) (nonempty : label ≠ []) :
    Addresses (.sequence slots) [.field label] layout
  | embedded {slots : List Slot} {layout target : Layout} {path : Path}
    (member : .embedded layout ∈ slots) (rest : Addresses layout path target) :
    Addresses (.sequence slots) path target
  | item {length : Length} {element target : Layout} {index : Nat} {path : Path}
    (within : ∀ count, length = .literal count → index < count.toInt)
    (rest : Addresses element path target) :
    Addresses (.array length element) (.index index :: path) target
  | alternative {discriminant : Text} {cases : List (Integer × Layout)} {otherwise : Option Layout}
    {layout target : Layout} {path : Path} (member : Alternative cases otherwise layout)
    (rest : Addresses layout path target) :
    Addresses (.branch discriminant cases otherwise) path target

/-- A slot of padding that has no label, or an empty one. -/
def Slot.IsUnlabelled (slot : Slot) : Prop :=
  ∃ layout label, slot = .padding layout label ∧ (label = none ∨ label = some [])

/-- The causes for which a layout itself stops a reading. A sequence does so for padding without a
label, and for an embedded layout that reads no record. -/
def Layout.CanStop (target : Layout) : Cause → Prop
  | .truncated kind _ _ =>
    (target.kind = kind ∧ kind ∈ [Kind.bitField, .wideField, .byteSlice, .text, .padding]) ∨
      kind = .padding ∧ ∃ slots, target = .sequence slots ∧ ∃ slot ∈ slots, slot.IsUnlabelled
  | .misaligned kind _ => target.kind = kind ∧ kind ∈ [Kind.byteSlice, .text]
  | .undecodableText encoding _ => ∃ length, target = .text length encoding
  | .branchOutsideSequence => target.kind = .branch
  | .noMatchingCase discriminant key =>
    ∃ cases, target = .branch discriminant cases none ∧ select cases none key = none
  | .referenceOutsideSequence name | .noSuchField name | .fieldNotInteger name _ =>
    target.reference? = some name
  | .embeddedNotRecord kind _ =>
    ∃ slots layout, target = .sequence slots ∧ .embedded layout ∈ slots ∧ layout.kind = kind
  | _ => False

section Leaves

variable {r : BitReader} {path : Path} {cause : Cause} {target : Layout}

/-- A request to a reader is refused on the spot. -/
theorem ofKind_eq_located {kind : Layout.Kind} {error : CursorError}
    (located : error.ofKind kind = .located path cause) :
    path = [] ∧ ∃ need available, cause = .truncated kind need available := by
  cases error with
  | outOfBits need available =>
    cases located
    exact ⟨rfl, need, available, rfl⟩
  | _ => cases located

/-- A layout stops if the field that it refers to holds no integer. -/
theorem Layout.canStop_of_resolveField {scope : Scope} {name : Text}
    (refers : target.reference? = some name) (unresolved : resolveField scope name = .error cause) :
    target.CanStop cause := by
  rcases eq_of_resolveField_eq_error unresolved with rfl | rfl | ⟨value, rfl⟩ <;> exact refers

theorem Layout.canStop_of_resolve {scope : Scope} {length : Length}
    (refers : target.reference? = length.field?)
    (unresolved : length.resolve scope = .error cause) : target.CanStop cause := by
  cases length with
  | literal count => cases unresolved
  | field name => exact canStop_of_resolveField refers unresolved

/-- A slice is refused on the spot, for its place, its length or the bits that are left. -/
theorem Layout.canStop_of_readSlice {scope : Scope} {length : Length} (target : Layout)
    (sort : target.kind = .byteSlice ∨ target.kind = .text)
    (refers : target.reference? = length.field?)
    (stopped : readSlice target.kind length scope r = .error (.located path cause)) :
    path = [] ∧ target.CanStop cause := by
  rcases readSlice_eq_error_iff.mp stopped with ⟨-, located⟩ | ⟨-, _, unresolved, located⟩ |
    ⟨-, count, -, ⟨-, located⟩ | ⟨-, -, located⟩⟩
  · cases located
    exact ⟨rfl, rfl, by simpa using sort⟩
  · cases located
    exact ⟨rfl, canStop_of_resolve refers unresolved⟩
  · cases located
  · cases located
    refine ⟨rfl, Or.inl ⟨rfl, ?_⟩⟩
    rcases sort with same | same <;> simp [same]

/-- A branch that does not choose stops on the spot. -/
theorem Layout.canStop_of_choiceFails {scope : Scope} {discriminant : Text}
    {cases : List (Integer × Layout)} {otherwise : Option Layout}
    (fails : ChoiceFails scope discriminant cases otherwise cause) :
    (branch discriminant cases otherwise).CanStop cause := by
  rcases fails with ⟨-, rfl⟩ | ⟨-, unresolved⟩ | ⟨key, -, missing, rfl⟩
  · rfl
  · exact canStop_of_resolveField rfl unresolved
  · -- Nothing is left for other keys, since that would be chosen.
    rw [select_eq_or, Option.or_eq_none_iff] at missing
    obtain ⟨missing, rfl⟩ := missing
    exact ⟨cases, rfl, missing⟩

end Leaves

section Parts

variable {r : BitReader} {path : Path} {cause : Cause}

/-- The failure of an item is at a position before the end of the list. -/
theorem exists_index_of_decodeItems {item : BitReader → Except Failure (Value × BitReader)}
    {count start : Nat} (stopped : decodeItems item count start r = .error (.located path cause)) :
    ∃ index rest r', index < start + count ∧ path = .index index :: rest ∧
      item r' = .error (.located rest cause) := by
  induction count generalizing start r with
  | zero => cases stopped
  | succ count ih =>
    rcases decodeItems_succ_eq_error_iff.mp stopped with ⟨inner, here, placed⟩ | ⟨_, r₁, -, later⟩
    · obtain ⟨rest, rfl, rfl⟩ := Failure.within_eq_located_iff.mp placed
      exact ⟨start, rest, r, by omega, rfl, here⟩
    · obtain ⟨index, rest, r', before, same, stopped⟩ := ih later
      exact ⟨index, rest, r', by omega, same, stopped⟩

/-- The failure of a slot is at its name or its label, or where its layout has it. -/
theorem exists_addresses_of_slot {slots : List Slot} {slot : Slot} {layout : Layout}
    {scope : Scope} {failure : Failure} (member : slot ∈ slots) (wellFormed : slot.WellFormed)
    (same : slot.layout? = some layout)
    (each : ∀ {path cause}, layout.WellFormed →
      layout.decode scope r = .error (.located path cause) →
      ∃ target, layout.Addresses path target ∧ target.CanStop cause)
    (stopped : layout.decode scope r = .error failure)
    (placed : slot.place failure = .located path cause) :
    ∃ target, (Layout.sequence slots).Addresses path target ∧ target.CanStop cause := by
  cases slot with
  | named name _ =>
    cases same
    obtain ⟨rest, rfl, rfl⟩ := Failure.within_eq_located_iff.mp placed
    obtain ⟨target, addresses, canStop⟩ := each wellFormed.2.2 stopped
    exact ⟨target, .named member addresses, canStop⟩
  | embedded _ =>
    cases same
    obtain rfl : failure = .located path cause := placed
    obtain ⟨target, addresses, canStop⟩ := each wellFormed.2 stopped
    exact ⟨target, .embedded member addresses, canStop⟩
  | padding _ label =>
    cases same
    -- The layout in such a slot is padding, which stops for want of bits only.
    obtain ⟨isPadding, wellFormed⟩ := wellFormed
    cases layout with
    | padding width =>
      obtain ⟨error, -, refused⟩ := Layout.decode_padding_eq_error_iff.mp stopped
      rcases withinLabel_eq_located placed with
        ⟨unlabelled, rfl⟩ | ⟨name, rest, rfl, nonempty, rfl, rfl⟩
      · obtain ⟨rfl, need, available, rfl⟩ := ofKind_eq_located refused
        refine ⟨_, .here _, Or.inr ⟨rfl, slots, rfl, _, member, _, label, rfl, unlabelled⟩⟩
      · obtain ⟨rfl, need, available, rfl⟩ := ofKind_eq_located refused
        exact ⟨_, .labelled member nonempty, Or.inl ⟨rfl, by simp⟩⟩
    | _ => cases isPadding
  | foreign typeName written => cases same

/-- The failure of slots is that of one of them, or of their sequence. -/
theorem exists_addresses_of_decodeSlots {slots all : List Slot} (within : slots ⊆ all)
    (wellFormed : WellFormedSlots slots)
    (each : ∀ slot ∈ slots, ∀ layout, slot.layout? = some layout → ∀ {scope r path cause},
      layout.WellFormed → layout.decode scope r = .error (.located path cause) →
      ∃ target, layout.Addresses path target ∧ target.CanStop cause)
    {record : Entries} (stopped : decodeSlots slots record r = .error (.located path cause)) :
    ∃ target, (Layout.sequence all).Addresses path target ∧ target.CanStop cause := by
  induction slots generalizing record r with
  | nil => cases stopped
  | cons slot rest ih =>
    obtain ⟨inSlot, inRest⟩ := List.forall_mem_cons.mp each
    obtain ⟨member, others⟩ := List.cons_subset.mp within
    rcases decodeSlots_cons_eq_error_iff.mp stopped with ⟨_, _, rfl, -⟩ | ⟨layout, same,
      ⟨failure, here, placed⟩ | ⟨value, r₁, -, ⟨unstored, located⟩ | ⟨record₁, -, later⟩⟩⟩
    · exact wellFormed.1.elim
    · exact exists_addresses_of_slot member wellFormed.1 same (inSlot layout same) here placed
    · -- Only an embedded value may be impossible to store.
      cases slot with
      | embedded _ =>
        cases same
        cases located
        exact ⟨_, .here _, all, layout, rfl, member, rfl⟩
      | named | padding => cases unstored
      | foreign => cases same
    · exact ih others wellFormed.2 inRest later

end Parts

namespace Layout

/-- A reading that stops with a place stops at a part of the layout to which the path leads, and
which can stop for this reason. -/
theorem exists_addresses_of_decode {layout : Layout} {scope : Scope} {r : BitReader} {path : Path}
    {cause : Cause} (wellFormed : layout.WellFormed)
    (stopped : layout.decode scope r = .error (.located path cause)) :
    ∃ target, layout.Addresses path target ∧ target.CanStop cause := by
  -- On the tree of layouts: each level puts its step in front of the path from the one below.
  induction layout using Layout.induction generalizing scope r path cause with
  | abstract => exact wellFormed.elim
  | sequence slots ih =>
    have inSlots := decode_sequence_eq_error_iff.mp stopped
    exact exists_addresses_of_decodeSlots (List.Subset.refl slots) wellFormed ih inSlots
  | array length element ih =>
    rcases decode_array_eq_error_iff.mp stopped with ⟨_, unresolved, located⟩ |
      ⟨count, resolved, inItems⟩
    · cases located
      exact ⟨_, .here _, canStop_of_resolve rfl unresolved⟩
    · obtain ⟨index, rest, r', before, rfl, inItem⟩ := exists_index_of_decodeItems inItems
      obtain ⟨target, addresses, canStop⟩ := ih wellFormed.2 inItem
      refine ⟨target, .item ?_ addresses, canStop⟩
      rintro count' rfl
      cases resolved
      have toNat : count.toNat = count.toInt.toNat := rfl
      omega
  | branch discriminant cases otherwise ih =>
    rcases decode_branch_eq_error_iff.mp stopped with ⟨_, fails, located⟩ |
      ⟨key, layout, -, chosen, inLayout⟩
    · cases located
      exact ⟨_, .here _, canStop_of_choiceFails fails⟩
    · have member := alternative_of_select chosen
      obtain ⟨target, addresses, canStop⟩ :=
        ih layout member (wellFormed.alternative member) inLayout
      exact ⟨target, .alternative member addresses, canStop⟩
  | bitField width =>
    obtain ⟨error, -, located⟩ := decode_bitField_eq_error_iff.mp stopped
    obtain ⟨rfl, need, available, rfl⟩ := ofKind_eq_located located
    exact ⟨_, .here _, Or.inl ⟨rfl, by simp⟩⟩
  | wideField width =>
    obtain ⟨error, -, located⟩ := decode_wideField_eq_error_iff.mp stopped
    obtain ⟨rfl, need, available, rfl⟩ := ofKind_eq_located located
    exact ⟨_, .here _, Or.inl ⟨rfl, by simp⟩⟩
  | byteSlice length =>
    have stopped := decode_byteSlice_eq_error_iff.mp stopped
    obtain ⟨rfl, canStop⟩ := canStop_of_readSlice (byteSlice length) (Or.inl rfl) rfl stopped
    exact ⟨_, .here _, canStop⟩
  | text length encoding =>
    obtain ⟨-, e, found⟩ := wellFormed
    rcases decode_text_eq_error_iff.mp stopped with stopped | ⟨raw, r', -, stopped⟩
    · obtain ⟨rfl, canStop⟩ := canStop_of_readSlice (text length encoding) (Or.inr rfl) rfl stopped
      exact ⟨_, .here _, canStop⟩
    · obtain ⟨fault, -, located⟩ := (readText_eq_error_iff found).mp stopped
      cases located
      exact ⟨_, .here _, length, rfl⟩
  | padding width =>
    obtain ⟨error, -, located⟩ := decode_padding_eq_error_iff.mp stopped
    obtain ⟨rfl, need, available, rfl⟩ := ofKind_eq_located located
    exact ⟨_, .here _, Or.inl ⟨rfl, by simp⟩⟩

/-- The path of a failed reading leads from the layout to a part that can stop for such a reason: a
truncation is at a field, a slice or padding (padding without a label is reported by its sequence), a
misaligned start at a slice, bytes that spell no text at a text, a choice that fails at a branch, an
unresolved reference at a branch or at a length that names a field, and a value that cannot be merged
at a sequence with an embedded layout. Nothing else stops a reading that is not strict. -/
theorem exists_addresses_of_decodeBytes {layout : Layout} {data : List UInt8} {path : Path}
    {cause : Cause} (wellFormed : layout.WellFormed)
    (stopped : layout.decodeBytes data false = .error (.located path cause)) :
    ∃ target, layout.Addresses path target ∧ target.CanStop cause := by
  rcases bind_eq_error_iff.mp stopped with stopped | ⟨answer, -, stopped⟩
  · exact exists_addresses_of_decode wellFormed stopped
  · cases stopped

/-- The third of three items is missing. -/
theorem exists_addresses_of_decodeBytes_telegram :
    telegram.decodeBytes [0x7F, 0xAB] false =
        .error (.located [.field "items", .index 2] (.truncated .bitField 4 0)) ∧
      ∃ target, telegram.Addresses [.field "items", .index 2] target ∧
        target.CanStop (.truncated .bitField 4 0) := by
  have stopped : telegram.decodeBytes [0x7F, 0xAB] false =
      .error (.located [.field "items", .index 2] (.truncated .bitField 4 0)) := by cbv
  exact ⟨stopped, exists_addresses_of_decodeBytes wellFormed_telegram stopped⟩

end Layout

end BitLayout
