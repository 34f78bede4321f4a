import BitLayout.Proofs.Decoding.Success

/-!
# Padding in a reading

A reading passes bits one after another, some into its value and some as padding. `Layout.padded`
tells them apart, and a successful reading moves by exactly the bits that it passes.

## Main definitions

* `Layout.padded`: for each bit that a reading passes, whether it is padding
* `BitReader.Passes`: one reader is another one after some bits

## Main results

* `Layout.padded_array`, `Layout.padded_branch`, and so on: the bits of one layout
* `Layout.passes_of_decode`: a successful reading moves by the bits it passes
-/

namespace BitLayout

/-- The bits that reading up to `count` items passes, as far as items are read. -/
def paddedInItems (item : BitReader → Except Failure (Value × BitReader))
    (padded : BitReader → List Bool) (count : Nat) (r : BitReader) : List Bool :=
  match count with
  | 0 => []
  | count + 1 =>
    padded r ++
      match item r with
      | .ok (_, r) => paddedInItems item padded count r
      | .error _ => []

/-- The bits of a slice, if it is read. -/
def paddedInSlice (kind : Layout.Kind) (length : Length) (scope : Scope) (r : BitReader) :
    List Bool :=
  match readSlice kind length scope r with
  | .ok (raw, _) => List.replicate (8 * raw.length) false
  | .error _ => []

mutual

/-- For each bit that a reading passes, whether it is padding. A reading that stops has passed the
bits before that. -/
def Layout.padded (layout : Layout) (scope : Scope) (r : BitReader) : List Bool :=
  match layout with
  | .abstract => []
  | .sequence slots => paddedInSlots slots [] r
  | .array length element =>
    match length.resolve scope with
    | .ok count =>
      -- The record around an array is out of sight for its items.
      paddedInItems (fun r => element.decode none r) (fun r => element.padded none r) count.toNat r
    | .error _ => []
  | .branch discriminant cases otherwise =>
    (resolveField scope discriminant).toOption.elim [] fun key =>
      match paddedInCase? cases key scope r with
      | some padded => padded
      | none =>
        match otherwise with
        | some layout => layout.padded scope r
        | none => []
  | .bitField width =>
    match r.readNat width with
    | .ok _ => List.replicate width.toNat false
    | .error _ => []
  | .wideField width =>
    match r.readNat width with
    | .ok _ => List.replicate width.toNat false
    | .error _ => []
  | .byteSlice length => paddedInSlice .byteSlice length scope r
  | .text length _ => paddedInSlice .text length scope r
  | .padding width =>
    match r.skip width with
    | .ok _ => List.replicate width.toNat true
    | .error _ => []
termination_by structural layout

/-- The bits that reading slots passes after the fields in `record`. -/
def paddedInSlots (slots : List Slot) (record : Entries) (r : BitReader) : List Bool :=
  match slots with
  | [] => []
  | .named name layout :: rest =>
    layout.padded (some record) r ++
      match layout.decode (some record) r with
      | .ok (value, r) => paddedInSlots rest (record.insert (.text name) value) r
      | .error _ => []
  | .embedded layout :: rest =>
    layout.padded (some record) r ++
      match layout.decode (some record) r with
      | .ok (.dict fields, r) => paddedInSlots rest (record.merge fields) r
      -- Other values cannot be merged, so the reading stops here too.
      | _ => []
  | .padding layout _ :: rest =>
    layout.padded (some record) r ++
      match layout.decode (some record) r with
      | .ok (_, r) => paddedInSlots rest record r
      | .error _ => []
  | .foreign .. :: _ => []
termination_by structural slots

/-- The bits that reading the first case with the given key passes, if there is one. -/
def paddedInCase? (cases : List (Integer × Layout)) (key : Integer) (scope : Scope)
    (r : BitReader) : Option (List Bool) :=
  match cases with
  | [] => none
  | (k, layout) :: rest =>
    if k.same key then some (layout.padded scope r) else paddedInCase? rest key scope r
termination_by structural cases

end

-- The equations of the mask are made once here, not by every proof that waits for them.
attribute [local simp] Layout.padded paddedInSlots paddedInCase?

section Successful

variable {scope : Scope} {r r' : BitReader} {record : Entries} {layout : Layout} {rest : List Slot}
  {value : Value}

@[simp] theorem paddedInItems_zero (item : BitReader → Except Failure (Value × BitReader))
    (padded : BitReader → List Bool) (r : BitReader) : paddedInItems item padded 0 r = [] := rfl

theorem paddedInItems_succ {item : BitReader → Except Failure (Value × BitReader)}
    {padded : BitReader → List Bool} {count : Nat} (read : item r = .ok (value, r')) :
    paddedInItems item padded (count + 1) r =
      padded r ++ paddedInItems item padded count r' := by
  rw [paddedInItems, read]

theorem paddedInSlots_cons {slot : Slot} {record' : Entries} (same : slot.layout? = some layout)
    (read : layout.decode (some record) r = .ok (value, r'))
    (stored : slot.store record value = some record') :
    paddedInSlots (slot :: rest) record r =
      layout.padded (some record) r ++ paddedInSlots rest record' r' := by
  cases slot with
  | named | padding =>
    cases same
    cases stored
    rw [paddedInSlots, read]
  | embedded =>
    cases same
    cases value with
    | dict fields =>
      cases stored
      rw [paddedInSlots, read]
    | _ => cases stored
  | foreign => cases same

theorem paddedInSlice_eq {kind : Layout.Kind} {length : Length} {raw : List UInt8}
    (read : readSlice kind length scope r = .ok (raw, r')) :
    paddedInSlice kind length scope r = List.replicate (8 * raw.length) false := by
  rw [paddedInSlice, read]

theorem paddedInCase?_eq {cases : List (Integer × Layout)} {key : Integer} (scope : Scope)
    (r : BitReader) :
    paddedInCase? cases key scope r =
      (Layout.select cases none key).map fun layout => layout.padded scope r := by
  induction cases with
  | nil => rfl
  | cons entry rest ih =>
    obtain ⟨k, layout⟩ := entry
    rw [paddedInCase?, Layout.select]
    split
    · rfl
    · exact ih

namespace Layout

theorem padded_array {length : Length} {element : Layout} {count : Integer}
    (resolved : length.resolve scope = .ok count) :
    (array length element).padded scope r =
      paddedInItems (fun r => element.decode none r) (fun r => element.padded none r)
        count.toNat r := by
  rw [padded, resolved]

/-- A branch passes the bits of the alternative it chooses. -/
theorem padded_branch {discriminant : Text} {cases : List (Integer × Layout)}
    {otherwise : Option Layout} {key : Integer}
    (found : resolveField scope discriminant = .ok key)
    (chosen : select cases otherwise key = some layout) :
    (branch discriminant cases otherwise).padded scope r = layout.padded scope r := by
  rw [padded.eq_def]
  simp only [found, Except.toOption, Option.elim_some, paddedInCase?_eq]
  -- The choice is that of the cases alone, and the default where they leave none.
  rw [select_eq_or] at chosen
  cases first : select cases none key with
  | some layout' =>
    rw [first, Option.some_or] at chosen
    rw [Option.some.inj chosen]
    rfl
  | none =>
    rw [first, Option.none_or] at chosen
    rw [chosen]
    rfl

theorem padded_bitField (valid : r.Valid) {width : Integer} (positive : 1 ≤ width.toInt)
    (enough : width.toNat ≤ r.bitsRemaining) :
    (bitField width).padded scope r = List.replicate width.toNat false := by
  rw [padded, (BitReader.readNat_eq_ok_iff valid).mpr ⟨positive, enough, rfl, rfl⟩]

theorem padded_wideField {width : Integer} :
    (wideField width).padded scope r = (bitField width).padded scope r := by
  rw [padded, padded]

theorem padded_padding {width : Integer} (nonnegative : 0 ≤ width.toInt)
    (enough : width.toNat ≤ r.bitsRemaining) :
    (padding width).padded scope r = List.replicate width.toNat true := by
  rw [padded, BitReader.skip_eq_ok_iff.mpr ⟨nonnegative, enough, rfl⟩]

end Layout

end Successful

namespace BitReader

/-- One reader is the other one after as many bits, all of which were there. -/
structure Passes (r : BitReader) (passed : List Bool) (r' : BitReader) : Prop where
  within : passed.length ≤ r.bitsRemaining
  moved : r' = r.advance passed.length

variable {r r' r'' : BitReader} {first second : List Bool}

@[simp] theorem bitsRemaining_advance (r : BitReader) (count : Nat) :
    (r.advance count).bitsRemaining = r.bitsRemaining - count := by
  rw [← length_remaining, remaining_advance, List.length_drop, length_remaining]

theorem Valid.passes_nil (valid : r.Valid) : r.Passes [] r :=
  ⟨Nat.zero_le _, valid.advance_zero.symm⟩

/-- A reader passes bits of one kind by moving. -/
theorem passes_replicate {width : Nat} (enough : width ≤ r.bitsRemaining) (isPadding : Bool) :
    r.Passes (List.replicate width isPadding) (r.advance width) := by
  refine ⟨?_, ?_⟩
  · rwa [List.length_replicate]
  · rw [List.length_replicate]

theorem Passes.valid (passes : r.Passes first r') (valid : r.Valid) : r'.Valid :=
  passes.moved ▸ valid.advance passes.within

theorem Passes.append (front : r.Passes first r') (back : r'.Passes second r'') :
    r.Passes (first ++ second) r'' := by
  obtain ⟨within, rfl⟩ := front
  obtain ⟨within', rfl⟩ := back
  rw [bitsRemaining_advance] at within'
  refine ⟨?_, ?_⟩
  · rw [List.length_append]
    omega
  · rw [advance_advance, List.length_append]

end BitReader

theorem passes_of_readSlice {kind : Layout.Kind} {length : Length} {scope : Scope}
    {r r' : BitReader} {raw : List UInt8} (read : readSlice kind length scope r = .ok (raw, r')) :
    r.Passes (paddedInSlice kind length scope r) r' := by
  rw [paddedInSlice_eq read]
  obtain ⟨-, -, enough, -, rfl⟩ := readSlice_eq_ok_iff.mp read
  exact BitReader.passes_replicate enough false

theorem passes_of_decodeItems {item : BitReader → Except Failure (Value × BitReader)}
    {padded : BitReader → List Bool}
    (each : ∀ {r r' value}, r.Valid → item r = .ok (value, r') → r.Passes (padded r) r')
    {count index : Nat} {r r' : BitReader} {items : List Value} (valid : r.Valid)
    (read : decodeItems item count index r = .ok (items, r')) :
    r.Passes (paddedInItems item padded count r) r' := by
  -- One item after another; the place is valid again behind each of them.
  induction count generalizing index r items with
  | zero =>
    cases read
    exact valid.passes_nil
  | succ count ih =>
    obtain ⟨first, others, r₁, read_first, read_others, -⟩ := decodeItems_succ_eq_ok_iff.mp read
    have passes := each valid read_first
    rw [paddedInItems_succ read_first]
    exact passes.append (ih (passes.valid valid) read_others)

theorem passes_of_decodeSlots {slots : List Slot}
    (each : ∀ slot ∈ slots, ∀ layout, slot.layout? = some layout → ∀ {scope r r' value}, r.Valid →
      layout.decode scope r = .ok (value, r') → r.Passes (layout.padded scope r) r')
    {record final : Entries} {r r' : BitReader} (valid : r.Valid)
    (read : decodeSlots slots record r = .ok (final, r')) :
    r.Passes (paddedInSlots slots record r) r' := by
  induction slots generalizing record r with
  | nil =>
    cases read
    exact valid.passes_nil
  | cons slot rest ih =>
    obtain ⟨inSlot, inRest⟩ := List.forall_mem_cons.mp each
    obtain ⟨layout, value, r₁, record₁, same, read_first, stored, read_rest⟩ :=
      decodeSlots_cons_eq_ok_iff.mp read
    have passes := inSlot layout same valid read_first
    rw [paddedInSlots_cons same read_first stored]
    exact passes.append (ih inRest (passes.valid valid) read_rest)

/-- A successful reading moves by the bits it passes, all of which were there. -/
theorem Layout.passes_of_decode {layout : Layout} {scope : Scope} {r r' : BitReader} {value : Value}
    (valid : r.Valid) (read : layout.decode scope r = .ok (value, r')) :
    r.Passes (layout.padded scope r) r' := by
  -- On the tree of layouts. Scope and place vary, since parts are read in other ones.
  induction layout using Layout.induction generalizing scope r r' value with
  | abstract => cases read
  | sequence slots ih =>
    obtain ⟨record, read, -⟩ := decode_sequence_eq_ok_iff.mp read
    exact passes_of_decodeSlots ih valid read
  | array length element ih =>
    obtain ⟨count, items, resolved, read, -⟩ := decode_array_eq_ok_iff.mp read
    rw [padded_array resolved]
    exact passes_of_decodeItems ih valid read
  | branch discriminant cases otherwise ih =>
    obtain ⟨key, layout, found, chosen, read⟩ := decode_branch_eq_ok_iff.mp read
    rw [padded_branch found chosen]
    exact ih layout (alternative_of_select chosen) valid read
  | bitField width =>
    obtain ⟨positive, enough, -, rfl⟩ := (decode_bitField_eq_ok_iff valid).mp read
    rw [padded_bitField valid positive enough]
    exact BitReader.passes_replicate enough false
  | wideField width =>
    rw [decode_wideField_eq_ok_iff] at read
    obtain ⟨positive, enough, -, rfl⟩ := (decode_bitField_eq_ok_iff valid).mp read
    rw [padded_wideField, padded_bitField valid positive enough]
    exact BitReader.passes_replicate enough false
  | byteSlice length =>
    obtain ⟨raw, read, -⟩ := decode_byteSlice_eq_ok_iff.mp read
    exact passes_of_readSlice read
  | text length encoding =>
    obtain ⟨raw, t, read, -, -⟩ := decode_text_eq_ok_iff.mp read
    exact passes_of_readSlice read
  | padding width =>
    obtain ⟨nonnegative, enough, -, rfl⟩ := decode_padding_eq_ok_iff.mp read
    rw [padded_padding nonnegative enough]
    exact BitReader.passes_replicate enough true

end BitLayout
