import BitLayout.Proofs.Decoding.Masked
import BitLayout.Proofs.Decoding.Stopping
import BitLayout.Proofs.Layout.Decidable
import Mathlib

/-!
# What a reading does not look at

The bits of padding and those that a reading never comes to have no part in its outcome. Another
byte string of the same length, with the same bits wherever the reading puts them into a value, is
read to the same value or stops for the same reason, and the same bits are passed before that.

A reading that stops gives no reader back, so its place is counted in the bits that it has passed.

## Main definitions

* `BitReader.withData`: the same place in other bytes
* `BitReader.MatchedBy`: as many other bytes with the same bits from the place on, outside padding
* `Overlooks`: a reading does not look at padding, nor at what it does not pass
* `Layout.ReadsBit`: a bit that is read into a value
* `Layout.bitsPassed`: the bits that are passed before the end, or before the reading stops

## Main results

* `Overlooks.followedBy`: a reading and what follows it
* `Layout.overlooks`: every layout
* `Layout.read_alike_of_agree`: whole byte strings
-/

namespace BitLayout

namespace BitReader

/-- The same place in other bytes. -/
def withData (r : BitReader) (data : Array UInt8) : BitReader := { r with data := data }

/-- Other bytes, as many as those of a reader, with the same bits from its place on outside the
padding. -/
structure MatchedBy (r : BitReader) (data : Array UInt8) (padded : List Bool) : Prop where
  size : data.size = r.data.size
  bits : masked (r.withData data).remaining padded = masked r.remaining padded

variable {r r' : BitReader} {data : Array UInt8} {padded first second : List Bool}

@[simp] theorem bitOffset_withData : (r.withData data).bitOffset = r.bitOffset := rfl

@[simp] theorem position_withData : (r.withData data).position = r.position := rfl

theorem advance_withData (count : Nat) :
    (r.withData data).advance count = (r.advance count).withData data := rfl

/-- As many bytes leave as many bits. -/
theorem bitsRemaining_withData (size : data.size = r.data.size) :
    (r.withData data).bitsRemaining = r.bitsRemaining := by
  rw [bitsRemaining, bitsRemaining, position_withData, ← size]
  rfl

theorem trailingBytes_withData (size : data.size = r.data.size) :
    (r.withData data).trailingBytes = r.trailingBytes := by
  rw [trailingBytes, trailingBytes, bitsRemaining_withData size, bitOffset_withData]

theorem MatchedBy.valid_withData (matched : r.MatchedBy data padded) (valid : r.Valid) :
    (r.withData data).Valid := by
  have within := valid.within
  rw [← matched.size] at within
  exact ⟨valid.offset_lt, within⟩

/-- Bytes that match in two readings in a row match in each of them. -/
theorem MatchedBy.split (matched : r.MatchedBy data (first ++ second))
    (passes : r.Passes first r') :
    r.MatchedBy data first ∧ r'.MatchedBy data second := by
  obtain ⟨within, rfl⟩ := passes
  have enough : first.length ≤ r.remaining.length := by simpa using within
  have enough' : first.length ≤ (r.withData data).remaining.length := by
    rwa [length_remaining, bitsRemaining_withData matched.size]
  obtain ⟨size, bits⟩ := matched
  -- Both masks are as long as the first reading, so the bits behind them begin at the same place.
  rw [masked_append enough, masked_append enough'] at bits
  have lengths : (masked (r.withData data).remaining first).length =
      (masked r.remaining first).length := by
    rw [length_masked enough, length_masked enough']
  obtain ⟨front, back⟩ := List.append_inj bits lengths
  refine ⟨⟨size, front⟩, size, ?_⟩
  rw [← advance_withData, remaining_advance, remaining_advance, back]

/-- Bits outside the padding are the same bits. -/
theorem MatchedBy.take_eq {width : Nat} (matched : r.MatchedBy data (List.replicate width false)) :
    (r.withData data).remaining.take width = r.remaining.take width := by
  have bits := matched.bits
  rwa [masked_replicate_false, masked_replicate_false] at bits

end BitReader

/-- A reading does not look at padding, nor at bits that it does not pass: in other bytes that match
its own elsewhere it has the same outcome, and the same bits are padding. -/
def Overlooks {α : Type} (reading : BitReader → Except Failure (α × BitReader))
    (padded : BitReader → List Bool) : Prop :=
  ∀ (r : BitReader) (data : Array UInt8), r.Valid → r.MatchedBy data (padded r) →
    reading (r.withData data) = (reading r).map (Prod.map id fun r' => r'.withData data) ∧
      padded (r.withData data) = padded r

section Readings

variable {α β : Type} {reading : BitReader → Except Failure (α × BitReader)}
  {padded : BitReader → List Bool}

/-- An outcome that is settled without passing any bits. -/
theorem overlooks_settled (outcome : Except Failure α) :
    Overlooks (fun r => outcome >>= fun a => .ok (a, r)) fun _ => [] := by
  intro r data _ _
  refine ⟨?_, rfl⟩
  cases outcome <;> rfl

/-- What is made of a value afterwards does not look at any bits. -/
theorem Overlooks.andThen {γ : Type} (first : Overlooks reading padded) (use : α → Except Failure γ)
    (wrap : γ → β) :
    Overlooks (fun r => reading r >>= fun (a, r') => use a >>= fun c => .ok (wrap c, r'))
      padded := by
  intro r data valid matched
  obtain ⟨same, marks⟩ := first r data valid matched
  refine ⟨?_, marks⟩
  dsimp only
  rw [same]
  cases reading r with
  | error failure => rfl
  | ok answer =>
    change (use answer.1 >>= _) = (use answer.1 >>= _).map _
    cases use answer.1 <;> rfl

/-- One reading goes on as another one, or stops. The first one passes the bits that it marks, so
what is left for the second one matches too. -/
theorem Overlooks.followedBy {whole : BitReader → Except Failure (β × BitReader)}
    {marks : BitReader → List Bool} (first : Overlooks reading padded)
    (passes : ∀ {r r' a}, r.Valid → reading r = .ok (a, r') → r.Passes (padded r) r')
    (next : α → BitReader → Except Failure (β × BitReader)) (marksNext : α → BitReader → List Bool)
    (second : ∀ a, Overlooks (next a) (marksNext a))
    (goes : ∀ {r r' a}, reading r = .ok (a, r') →
      whole r = next a r' ∧ marks r = padded r ++ marksNext a r')
    (place : Failure → Failure)
    (stops : ∀ {r failure}, reading r = .error failure →
      whole r = .error (place failure) ∧ marks r = padded r) :
    Overlooks whole marks := by
  intro r data valid matched
  cases read : reading r with
  | error failure =>
    obtain ⟨stopped, marked⟩ := stops read
    rw [marked] at matched
    obtain ⟨same, again⟩ := first r data valid matched
    rw [read] at same
    obtain ⟨stopped', marked'⟩ := stops same
    rw [stopped, stopped', marked, marked', again]
    exact ⟨rfl, rfl⟩
  | ok answer =>
    obtain ⟨a, r'⟩ := answer
    obtain ⟨gone, marked⟩ := goes read
    rw [marked] at matched
    have passed := passes valid read
    obtain ⟨front, back⟩ := matched.split passed
    obtain ⟨same, again⟩ := first r data valid front
    obtain ⟨same', again'⟩ := second a r' data (passed.valid valid) back
    rw [read] at same
    obtain ⟨gone', marked'⟩ := goes same
    rw [gone, gone', marked, marked', again]
    exact ⟨same', congrArg _ again'⟩

end Readings

section Leaves

theorem overlooks_readNat (kind : Layout.Kind) (width : Integer) (scope : Scope) :
    Overlooks (fun r => ofCursor kind (r.readNat width))
      ((Layout.bitField width).padded scope) := by
  intro r data valid matched
  have valid' := matched.valid_withData valid
  have remaining := BitReader.bitsRemaining_withData matched.size
  simp only [Layout.padded, BitReader.readNat_eq valid, BitReader.readNat_eq valid', remaining]
    at matched ⊢
  split_ifs at matched ⊢ with narrow short
  · exact ⟨rfl, rfl⟩
  · exact ⟨rfl, rfl⟩
  · rw [matched.take_eq]
    exact ⟨rfl, rfl⟩

/-- Bits that are skipped are not looked at. -/
theorem overlooks_padding (width : Integer) (scope : Scope) :
    Overlooks ((Layout.padding width).decode scope) ((Layout.padding width).padded scope) := by
  intro r data _ matched
  have remaining := BitReader.bitsRemaining_withData matched.size
  simp only [Layout.decode, Layout.padded, BitReader.skip_eq, remaining]
  split_ifs <;> exact ⟨rfl, rfl⟩

theorem overlooks_readSlice (kind : Layout.Kind) (length : Length) (scope : Scope) :
    Overlooks (readSlice kind length scope) (paddedInSlice kind length scope) := by
  intro r data valid matched
  cases read : readSlice kind length scope r with
  | ok answer =>
    obtain ⟨raw, r'⟩ := answer
    have passed := passes_of_readSlice read
    have agrees : (r.withData data).Agrees (paddedInSlice kind length scope r) r :=
      ⟨rfl, BitReader.bitsRemaining_withData matched.size ▸ passed.within, matched.bits⟩
    have again := readSlice_of_agrees read agrees
    refine ⟨?_, ?_⟩
    · rw [again, passed.moved, BitReader.advance_withData]
      rfl
    · rw [paddedInSlice_eq again, paddedInSlice_eq read]
  | error failure =>
    -- A slice is refused for its place, its length or the number of bits left.
    have again : readSlice kind length scope (r.withData data) = .error failure := by
      rw [readSlice_eq_error_iff] at read ⊢
      rwa [BitReader.bitOffset_withData, BitReader.bitsRemaining_withData matched.size]
    refine ⟨again, ?_⟩
    rw [paddedInSlice, paddedInSlice, again, read]

end Leaves

section Parts

theorem overlooks_decodeItems {item : BitReader → Except Failure (Value × BitReader)}
    {padded : BitReader → List Bool} (each : Overlooks item padded)
    (passes : ∀ {r r' value}, r.Valid → item r = .ok (value, r') → r.Passes (padded r) r')
    (count index : Nat) :
    Overlooks (decodeItems item count index) (paddedInItems item padded count) := by
  -- One item after another. An item that stops passes on its failure from its own position.
  induction count generalizing index with
  | zero => exact overlooks_settled (.ok [])
  | succ count ih =>
    refine each.followedBy passes _ _ (fun first => (ih (index + 1)).andThen .ok (first :: ·))
      (fun read => ⟨?_, paddedInItems_succ read⟩) (.within (.index index)) fun stopped => ⟨?_, ?_⟩
    · rw [decodeItems, read]
      rfl
    · rw [decodeItems, stopped]
      rfl
    · rw [paddedInItems, stopped, List.append_nil]

theorem overlooks_decodeSlots {slots : List Slot}
    (each : ∀ slot ∈ slots, ∀ layout, slot.layout? = some layout →
      ∀ scope, Overlooks (layout.decode scope) (layout.padded scope))
    (record : Entries) : Overlooks (decodeSlots slots record) (paddedInSlots slots record) := by
  induction slots generalizing record with
  | nil => exact overlooks_settled (.ok record)
  | cons slot rest ih =>
    obtain ⟨inSlot, inRest⟩ := List.forall_mem_cons.mp each
    cases same : slot.layout? with
    | none =>
      cases slot with
      | foreign typeName written =>
        exact overlooks_settled (.error (.layout (.unsupportedSlot typeName)))
      | _ => cases same
    | some layout =>
      refine (inSlot layout same (some record)).followedBy Layout.passes_of_decode _ _
        (fun value => ?_)
        (fun read => ⟨decodeSlots_cons_of_ok same read, paddedInSlots_cons_of_ok same read⟩)
        slot.place fun stopped => ⟨?_, paddedInSlots_cons_of_error same stopped⟩
      · -- What the slot reads decides what the others see.
        cases slot.store record value with
        | some record' => exact ih inRest record'
        | none =>
          exact overlooks_settled (.error (.here (.embeddedNotRecord layout.kind value.typeName)))
      · exact decodeSlots_cons_eq_error_iff.mpr (Or.inr ⟨layout, same, Or.inl ⟨_, stopped, rfl⟩⟩)

end Parts

namespace Layout

section Branches

variable {scope : Scope} {discriminant : Text} {cases : List (Integer × Layout)}
  {otherwise : Option Layout}

/-- A branch reads what the alternative that it chooses reads. -/
theorem decode_branch_of_select {key : Integer} {layout : Layout}
    (found : resolveField scope discriminant = .ok key)
    (chosen : select cases otherwise key = some layout) (r : BitReader) :
    (branch discriminant cases otherwise).decode scope r = layout.decode scope r := by
  cases outcome : layout.decode scope r with
  | ok answer => exact decode_branch_eq_ok_iff.mpr ⟨key, layout, found, chosen, outcome⟩
  | error failure =>
    exact decode_branch_eq_error_iff.mpr (Or.inr ⟨key, layout, found, chosen, outcome⟩)

/-- A branch chooses an alternative or fails to. -/
theorem chooses_or_fails (scope : Scope) (discriminant : Text) (cases : List (Integer × Layout))
    (otherwise : Option Layout) :
    (∃ key layout, resolveField scope discriminant = .ok key ∧
        select cases otherwise key = some layout) ∨
      ∃ cause, ChoiceFails scope discriminant cases otherwise cause := by
  cases found : resolveField scope discriminant with
  | error cause =>
    cases scope with
    | none => exact Or.inr ⟨_, Or.inl ⟨rfl, rfl⟩⟩
    | some record => exact Or.inr ⟨cause, Or.inr (Or.inl ⟨nofun, found⟩)⟩
  | ok key =>
    cases chosen : select cases otherwise key with
    | some layout => exact Or.inl ⟨key, layout, rfl, chosen⟩
    | none => exact Or.inr ⟨_, Or.inr (Or.inr ⟨key, found, chosen, rfl⟩)⟩

end Branches

/-- Reading a layout does not look at padding, nor at what it does not pass. -/
theorem overlooks (layout : Layout) (scope : Scope) :
    Overlooks (layout.decode scope) (layout.padded scope) := by
  -- On the tree of layouts. Scope varies, since parts are read in other ones.
  induction layout using Layout.induction generalizing scope with
  | abstract => exact overlooks_settled (.error (.layout (.unsupported .abstract)))
  | sequence slots ih =>
    intro r data
    rw [decode, decode, padded, padded]
    exact (overlooks_decodeSlots ih []).andThen .ok Value.dict r data
  | array length element ih =>
    intro r data
    rw [decode, decode, padded, padded]
    cases length.resolve scope with
    | error cause => exact overlooks_settled (.error (.here cause)) r data
    | ok count =>
      have items := overlooks_decodeItems (ih none) passes_of_decode count.toNat 0
      exact items.andThen .ok Value.list r data
  | branch discriminant cases otherwise ih =>
    rcases chooses_or_fails scope discriminant cases otherwise with
      ⟨key, layout, found, chosen⟩ | ⟨cause, fails⟩
    · intro r data
      rw [padded_branch found chosen, padded_branch found chosen,
        decode_branch_of_select found chosen, decode_branch_of_select found chosen]
      exact ih layout (alternative_of_select chosen) scope r data
    · intro r data _ _
      have stops (r : BitReader) :
          (branch discriminant cases otherwise).decode scope r = .error (.here cause) :=
        decode_branch_eq_error_iff.mpr (Or.inl ⟨cause, fails, rfl⟩)
      rw [stops, stops, padded_branch_of_fails fails, padded_branch_of_fails fails]
      exact ⟨rfl, rfl⟩
  | bitField width =>
    intro r data
    rw [decode, decode]
    exact (overlooks_readNat .bitField width scope).andThen .ok (fun n => Value.int n) r data
  | wideField width =>
    intro r data
    rw [decode, decode, padded_wideField, padded_wideField]
    exact (overlooks_readNat .wideField width scope).andThen .ok (fun n => Value.int n) r data
  | byteSlice length =>
    intro r data
    rw [decode, decode, padded, padded]
    exact (overlooks_readSlice .byteSlice length scope).andThen .ok Value.ofBytes r data
  | text length encoding =>
    intro r data
    rw [decode, decode, padded, padded]
    have slice := overlooks_readSlice .text length scope
    exact slice.andThen (readText encoding) Value.text r data
  | padding width => exact overlooks_padding width scope

/-- A bit of a byte string that its reading puts into a value: it is passed, and not as padding. -/
def ReadsBit (layout : Layout) (data : List UInt8) (i : Nat) : Prop :=
  (layout.padded none (.ofBytes data))[i]? = some false

/-- The number of bits that a reading passes, also one that stops. -/
def bitsPassed (layout : Layout) (data : List UInt8) : Nat :=
  (layout.padded none (.ofBytes data)).length

/-- A reading that gives a value leaves its reader behind the bits that it has passed. -/
theorem position_of_read {layout : Layout} {data : List UInt8} {value : Value} {r : BitReader}
    (read : layout.read data = .ok (value, r)) : r.position = layout.bitsPassed data := by
  have passes := passes_of_decode (BitReader.valid_ofBytes data) read
  rw [passes.moved, BitReader.position_advance, BitReader.position_ofBytes, Nat.zero_add,
    bitsPassed]

/-- What a failure tells about its place is so behind the bits that are passed. -/
theorem tellsOf_of_read {layout : Layout} {data : List UInt8} {failure : Failure}
    (stopped : layout.read data = .error failure) :
    failure.TellsOf ((BitReader.ofBytes data).advance (layout.bitsPassed data)) := by
  obtain ⟨r, passes, told⟩ := layout.stopsBehind none (BitReader.valid_ofBytes data) stopped
  rwa [passes.moved] at told

/-- Two byte strings of a length that agree on every bit which the reading of one of them puts into
a value are read alike: to the same value, or stopping for the same reason with the same path and
wording, and with as many bits passed. Padding and what is not reached may differ. The bits passed
are the place of the reader: it is there after a reading that gives a value, and what the failure of
one that stops tells about its place is so there. -/
theorem read_alike_of_agree (layout : Layout) {data others : List UInt8}
    (length : others.length = data.length)
    (agree : ∀ i, layout.ReadsBit data i → (bitsOfBytes others)[i]? = (bitsOfBytes data)[i]?) :
    (∀ strict, layout.decodeBytes others strict = layout.decodeBytes data strict) ∧
      (layout.read others).map (Prod.map id BitReader.position) =
        (layout.read data).map (Prod.map id BitReader.position) ∧
      layout.bitsPassed others = layout.bitsPassed data ∧
      (∀ value r, layout.read data = .ok (value, r) → r.position = layout.bitsPassed data) ∧
      ∀ failure, layout.read data = .error failure →
        failure.TellsOf ((BitReader.ofBytes data).advance (layout.bitsPassed data)) := by
  have size : others.toArray.size = (BitReader.ofBytes data).data.size := length
  have lengths : ((BitReader.ofBytes data).withData others.toArray).remaining.length =
      (BitReader.ofBytes data).remaining.length := by
    rw [BitReader.length_remaining, BitReader.bitsRemaining_withData size,
      BitReader.length_remaining]
  have matched : (BitReader.ofBytes data).MatchedBy others.toArray
      (layout.padded none (.ofBytes data)) :=
    ⟨size, (masked_eq_masked_iff lengths).mpr agree⟩
  obtain ⟨same, marks⟩ := layout.overlooks none _ _ (BitReader.valid_ofBytes data) matched
  change layout.read others = _ at same
  refine ⟨fun strict => ?_, ?_, congrArg List.length marks, fun _ _ => position_of_read,
    fun _ => tellsOf_of_read⟩
  · rw [decodeBytes, decodeBytes, same]
    change ((layout.read data).map _ >>= _) = (layout.read data >>= _)
    cases read : layout.read data with
    | error failure => rfl
    | ok answer =>
      -- As many bytes are left over, so both are refused or neither is.
      obtain ⟨value, r⟩ := answer
      have passes := passes_of_decode (BitReader.valid_ofBytes data) read
      have left : (r.withData others.toArray).trailingBytes = r.trailingBytes :=
        BitReader.trailingBytes_withData (passes.moved ▸ size)
      simp only [Except.map, Prod.map, id_eq, bind, Except.bind, left]
  · rw [same]
    change ((layout.read data).map _).map _ = (layout.read data).map _
    cases layout.read data <;> rfl

theorem read_alike_of_agree_telegram :
    (∀ i, telegram.ReadsBit [0x5F, 0xAB, 0x43, 0x00] i →
        (bitsOfBytes [0x40, 0xAB, 0x43, 0xFF])[i]? = (bitsOfBytes [0x5F, 0xAB, 0x43, 0x00])[i]?) ∧
      telegram.decodeBytes [0x40, 0xAB, 0x43, 0xFF] false = .ok (.dict telegramRecord) ∧
      telegram.bitsPassed [0x40, 0xAB, 0x43, 0xFF] = 24 := by
  have marks : telegram.padded none (.ofBytes [0x5F, 0xAB, 0x43, 0x00]) =
      List.replicate 3 false ++ List.replicate 5 true ++ List.replicate 16 false := by cbv
  have agree : ∀ i, telegram.ReadsBit [0x5F, 0xAB, 0x43, 0x00] i →
      (bitsOfBytes [0x40, 0xAB, 0x43, 0xFF])[i]? = (bitsOfBytes [0x5F, 0xAB, 0x43, 0x00])[i]? := by
    unfold ReadsBit
    rw [marks]
    refine (masked_eq_masked_iff ?_).mp ?_ <;> decide
  have length : [0x40, 0xAB, 0x43, 0xFF].length = [0x5F, 0xAB, 0x43, 0x00].length := rfl
  obtain ⟨value, -, passed, -, -⟩ := read_alike_of_agree telegram length agree
  refine ⟨agree, ?_, ?_⟩
  · rw [value]
    cbv
  · rw [passed, bitsPassed, marks]
    rfl

end Layout

end BitLayout
