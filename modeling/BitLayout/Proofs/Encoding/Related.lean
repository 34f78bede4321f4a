import BitLayout.Proofs.Encoding.Success
import Mathlib.Data.List.Forall2

/-!
# Two writings of one layout

Two values are written by one layout to the same bytes, or are refused for related reasons, if this
is so for all that the layout hands down and if it looks up the same lengths and discriminants. Which
reasons count as related does not matter, as long as they still do one level further out.

## Main definitions

* `Failure.IsTolerance`: failures that count as the same, wherever they are

## Main results

* `Failure.IsTolerance.sequence`, `Failure.IsTolerance.array`, and so on: one for each layout
-/

namespace BitLayout

/-- A relation between failures that count as the same, also for layouts further out. -/
structure Failure.IsTolerance (R : Failure → Failure → Prop) : Prop where
  refl (failure : Failure) : R failure failure
  within {failure failure' : Failure} (related : R failure failure') (element : PathElement) :
    R (failure.within element) (failure'.within element)

namespace Failure.IsTolerance

variable {R : Failure → Failure → Prop} {memory : Memory} {scope scope' : Scope}
  {value value' : Value}

theorem same {α : Type} (tolerance : IsTolerance R) (outcome : Except Failure α) :
    SameUpTo R outcome outcome :=
  SameUpTo.refl tolerance.refl outcome

/-- A slice is written alike if its length is looked up alike. -/
theorem writeSlice (tolerance : IsTolerance R) {kind : Layout.Kind} {length : Length}
    (resolved : SameUpTo R ((length.resolve scope).mapError .here)
      ((length.resolve scope').mapError .here)) (raw : List UInt8) (w : BitWriter) :
    SameUpTo R (BitLayout.writeSlice kind length raw scope w)
      (BitLayout.writeSlice kind length raw scope' w) := by
  rw [BitLayout.writeSlice, BitLayout.writeSlice]
  split_ifs
  · exact tolerance.same _
  · exact resolved.bind fun _ _ _ => tolerance.same _

theorem encodeItems (tolerance : IsTolerance R)
    {item : Value → BitWriter → Except Failure BitWriter} {items items' : List Value}
    (each : List.Forall₂ (fun first first' => ∀ w, SameUpTo R (item first w) (item first' w))
      items items') (index : Nat) (w : BitWriter) :
    SameUpTo R (BitLayout.encodeItems item index items w)
      (BitLayout.encodeItems item index items' w) := by
  induction each generalizing index w with
  | nil => exact tolerance.same _
  | cons first _ ih =>
    rw [BitLayout.encodeItems, BitLayout.encodeItems]
    have placed := (first w).mapError fun _ _ related => tolerance.within related (.index index)
    exact placed.bind fun w _ _ => ih (index + 1) w

theorem encodeSlots (tolerance : IsTolerance R) {slots : List Slot} {record record' : Entries}
    (each : ∀ slot ∈ slots, ∀ layout, slot.layout? = some layout → ∀ w,
      SameUpTo R (layout.encode memory (slot.load record) (some record) w)
        (layout.encode memory (slot.load record') (some record') w)) (w : BitWriter) :
    SameUpTo R (BitLayout.encodeSlots memory slots record w)
      (BitLayout.encodeSlots memory slots record' w) := by
  induction slots generalizing w with
  | nil => exact tolerance.same _
  | cons slot rest ih =>
    obtain ⟨inSlot, inRest⟩ := List.forall_mem_cons.mp each
    cases slot with
    | named name layout =>
      rw [BitLayout.encodeSlots, BitLayout.encodeSlots]
      have placed := (inSlot layout rfl w).mapError fun _ _ related =>
        tolerance.within related (.field name)
      exact placed.bind fun w _ _ => ih inRest w
    | embedded layout =>
      rw [BitLayout.encodeSlots, BitLayout.encodeSlots]
      exact (inSlot layout rfl w).bind fun w _ _ => ih inRest w
    | padding layout label =>
      -- Padding does not look at the record at all.
      rw [BitLayout.encodeSlots, BitLayout.encodeSlots]
      cases layout.width? with
      | none => exact tolerance.same _
      | some width => exact (tolerance.same _).bind fun w _ _ => ih inRest w
    | foreign => exact tolerance.same _

theorem sequence (tolerance : IsTolerance R) {slots : List Slot} {record record' : Entries}
    (each : ∀ slot ∈ slots, ∀ layout, slot.layout? = some layout → ∀ w,
      SameUpTo R (layout.encode memory (slot.load record) (some record) w)
        (layout.encode memory (slot.load record') (some record') w)) (w : BitWriter) :
    SameUpTo R ((Layout.sequence slots).encode memory (.dict record) scope w)
      ((Layout.sequence slots).encode memory (.dict record') scope' w) := by
  rw [Layout.encode, Layout.encode]
  exact tolerance.encodeSlots each w

theorem array (tolerance : IsTolerance R) {length : Length} {element : Layout}
    {items items' : List Value} (list : value.items? = some items)
    (list' : value'.items? = some items')
    (resolved : SameUpTo R ((length.resolve scope).mapError .here)
      ((length.resolve scope').mapError .here))
    (each : List.Forall₂ (fun item item' => ∀ w,
      SameUpTo R (element.encode memory item none w) (element.encode memory item' none w))
      items items') (w : BitWriter) :
    SameUpTo R ((Layout.array length element).encode memory value scope w)
      ((Layout.array length element).encode memory value' scope' w) := by
  rw [Layout.encode, Layout.encode, list, list']
  refine resolved.bind fun count _ _ => ?_
  rw [each.length_eq]
  split_ifs
  · exact tolerance.same _
  · exact tolerance.encodeItems each 0 w

/-- Both branches choose the same alternative, or none. -/
theorem branch (tolerance : IsTolerance R) {discriminant : Text} {cases : List (Integer × Layout)}
    {otherwise : Option Layout} {record record' : Entries}
    (resolved : SameUpTo R ((resolveField (some record) discriminant).mapError .here)
      ((resolveField (some record') discriminant).mapError .here)) {w : BitWriter}
    (each : ∀ key layout, resolveField (some record) discriminant = .ok key →
      Layout.select cases otherwise key = some layout →
      SameUpTo R (layout.encode memory value (some record) w)
        (layout.encode memory value' (some record') w)) :
    SameUpTo R ((Layout.branch discriminant cases otherwise).encode memory value (some record) w)
      ((Layout.branch discriminant cases otherwise).encode memory value' (some record') w) := by
  rw [Layout.encode, Layout.encode]
  refine resolved.bind fun key found _ => ?_
  -- The layout of the default is taken only if there is no case for the key.
  have inside (layout) := each key layout (mapError_eq_ok_iff.mp found)
  rw [Layout.select_eq_or] at inside
  rw [encodeCase?_eq, encodeCase?_eq]
  cases chosen : Layout.select cases none key with
  | some layout => exact inside layout (by rw [chosen, Option.some_or])
  | none =>
    cases otherwise with
    | some layout => exact inside layout (by rw [chosen, Option.none_or])
    | none => exact tolerance.same _

theorem byteSlice (tolerance : IsTolerance R) {length : Length}
    (resolved : SameUpTo R ((length.resolve scope).mapError .here)
      ((length.resolve scope').mapError .here)) (holder : ByteHolder) (raw : List UInt8)
    (w : BitWriter) :
    SameUpTo R ((Layout.byteSlice length).encode memory (.bytes holder raw) scope w)
      ((Layout.byteSlice length).encode memory (.bytes holder raw) scope' w) := by
  rw [Layout.encode, Layout.encode]
  exact tolerance.writeSlice resolved raw w

theorem text (tolerance : IsTolerance R) {length : Length} {encoding : Text}
    (resolved : SameUpTo R ((length.resolve scope).mapError .here)
      ((length.resolve scope').mapError .here)) (t : Text) (w : BitWriter) :
    SameUpTo R ((Layout.text length encoding).encode memory (.text t) scope w)
      ((Layout.text length encoding).encode memory (.text t) scope' w) := by
  rw [Layout.encode, Layout.encode]
  exact (tolerance.same _).bind fun raw _ _ => tolerance.writeSlice resolved raw w

end Failure.IsTolerance

end BitLayout
