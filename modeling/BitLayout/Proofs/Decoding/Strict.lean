import BitLayout.Proofs.Decoding.Extension
import Mathlib

/-!
# Strict readings

A strict reading asks that a byte string ends where its value does. The bits that a reading leaves in
its last byte are no bytes of their own, so what counts is the number of bits used, rounded up to
whole bytes. Of a byte string, its proper beginnings and the longer ones that it begins, a strict
reading therefore accepts one at most.

## Main results

* `Layout.decodeBytes_true_of_read`: what a strict reading makes of a successful one
* `Layout.strict_prefixFree`: it tells exactly how much is left over, and no byte string that it
  accepts is the beginning of another one
-/

namespace BitLayout

namespace Layout

variable {layout : Layout} {data more : List UInt8} {value : Value} {r : BitReader}

/-- A byte is left over unless the reading has used a bit of it. -/
theorem trailingBytes_of_read (read : layout.read data = .ok (value, r)) :
    r.trailingBytes = data.length - (r.position + 7) / 8 := by
  have passes := passes_of_decode (BitReader.valid_ofBytes data) read
  have valid := passes.valid (BitReader.valid_ofBytes data)
  rw [valid.trailingBytes_eq, passes.moved, BitReader.data_advance]
  simp [BitReader.ofBytes]

/-- A strict reading accepts a value that uses the last byte and otherwise counts the bytes behind
it. -/
theorem decodeBytes_true_of_read (read : layout.read data = .ok (value, r)) :
    layout.decodeBytes data true =
      if data.length = (r.position + 7) / 8 then .ok value
      else .error (.here (.trailingBytes (data.length - (r.position + 7) / 8) layout.kind)) := by
  have within := position_le_of_read read
  have counted := trailingBytes_of_read read
  rw [decodeBytes, read]
  by_cases exact : data.length = (r.position + 7) / 8
  · have nothing : r.trailingBytes = 0 := by omega
    simp [exact, nothing, bind, Except.bind]
  · have something : r.trailingBytes ≠ 0 := by omega
    rw [counted] at something
    simp [exact, something, counted, bind, Except.bind]

/-- A reading that stops is no different if it is strict. -/
theorem decodeBytes_of_read_error {failure : Failure} (stopped : layout.read data = .error failure)
    (strict : Bool) : layout.decodeBytes data strict = .error failure := by
  rw [decodeBytes, stopped]
  rfl

theorem decodeBytes_true_eq_ok_iff :
    layout.decodeBytes data true = .ok value ↔
      ∃ r, layout.read data = .ok (value, r) ∧ data.length = (r.position + 7) / 8 := by
  constructor
  · intro accepted
    cases outcome : layout.read data with
    | error failure =>
      rw [decodeBytes_of_read_error outcome] at accepted
      cases accepted
    | ok answer =>
      obtain ⟨value', r⟩ := answer
      rw [decodeBytes_true_of_read outcome] at accepted
      split_ifs at accepted with used
      cases accepted
      exact ⟨r, rfl, used⟩
  · rintro ⟨r, read, used⟩
    rw [decodeBytes_true_of_read read, if_pos used]

/-- A strict reading of a byte string that can be read accepts it if the value uses just these bytes,
and else it stops at the root with a failure to decode, whose message counts the bytes left over. If
it accepts a byte string, then each proper beginning is truncated, and of each longer byte string it
leaves over what comes behind. -/
theorem strict_prefixFree (layout : Layout) (data : List UInt8) :
    (∀ value r, layout.read data = .ok (value, r) →
      (r.position + 7) / 8 ≤ data.length ∧
        (data.length = (r.position + 7) / 8 → layout.decodeBytes data true = .ok value) ∧
        (data.length ≠ (r.position + 7) / 8 →
          ∃ cause, layout.decodeBytes data true = .error (.located [] cause) ∧
            cause = .trailingBytes (data.length - (r.position + 7) / 8) layout.kind ∧
            cause.category = .decode ∧
            cause.message = Wording.ofNat (data.length - (r.position + 7) / 8) ++
              " trailing bytes after decoding " ++ layout.kind.name)) ∧
    ∀ value, layout.decodeBytes data true = .ok value →
      (∀ front more, front ++ more = data → more ≠ [] →
        ∃ failure, layout.decodeBytes front true = .error failure ∧ failure.IsTruncation) ∧
      ∀ more, more ≠ [] →
        ∃ cause, layout.decodeBytes (data ++ more) true = .error (.located [] cause) ∧
          cause = .trailingBytes more.length layout.kind ∧ cause.category = .decode ∧
          cause.message = Wording.ofNat more.length ++ " trailing bytes after decoding " ++
            layout.kind.name := by
  refine ⟨fun value r read => ?_, fun value accepted => ?_⟩
  · have within := position_le_of_read read
    have outcome := decodeBytes_true_of_read read
    exact ⟨by omega, fun used => outcome.trans (if_pos used),
      fun less => ⟨_, outcome.trans (if_neg less), rfl, rfl, rfl⟩⟩
  obtain ⟨r, read, used⟩ := decodeBytes_true_eq_ok_iff.mp accepted
  constructor
  · intro front more same nonempty
    subst same
    have room := List.length_pos_iff.mpr nonempty
    rw [List.length_append] at used
    -- The value needs a byte that the beginning does not have.
    obtain ⟨failure, stopped, truncated⟩ :=
      (final_unless_truncated layout front more).2.2 value r read (by omega)
    rw [decodeBytes_false, map_eq_error_iff] at stopped
    exact ⟨failure, decodeBytes_of_read_error stopped true, truncated⟩
  · intro more nonempty
    have room := List.length_pos_iff.mpr nonempty
    -- With more bytes behind, the same value is read and ends at the same place.
    have again := decodeBytes_true_of_read (read_append read more)
    rw [BitReader.position_followedBy, ← used, List.length_append, if_neg (by omega),
      Nat.add_sub_cancel_left] at again
    exact ⟨_, again, rfl, rfl, rfl⟩

theorem strict_prefixFree_telegram :
    telegram.read [0x5F, 0xAB, 0x43] =
        .ok (.dict telegramRecord, ⟨#[0x5F, 0xAB, 0x43], 3, 0⟩) ∧
      telegram.decodeBytes [0x5F, 0xAB, 0x43] true = .ok (.dict telegramRecord) ∧
      (∃ failure, telegram.decodeBytes [0x5F, 0xAB] true = .error failure ∧
        failure.IsTruncation) ∧
      telegram.decodeBytes [0x5F, 0xAB, 0x43, 0xFF, 0x00] true =
        .error (.located [] (.trailingBytes 2 .sequence)) := by
  have read : telegram.read [0x5F, 0xAB, 0x43] =
      .ok (.dict telegramRecord, ⟨#[0x5F, 0xAB, 0x43], 3, 0⟩) := by cbv
  obtain ⟨exact, free⟩ := strict_prefixFree telegram [0x5F, 0xAB, 0x43]
  have accepted := (exact _ _ read).2.1 (by decide)
  obtain ⟨beginnings, extensions⟩ := free _ accepted
  obtain ⟨cause, leftOver, rfl, -⟩ := extensions [0xFF, 0x00] (by simp)
  exact ⟨read, accepted, beginnings [0x5F, 0xAB] [0x43] rfl (by simp), leftOver⟩

/-- The last byte is used, though only one bit of it. -/
example : (Layout.bitField 9).decodeBytes [0x80, 0xFF] true = .ok (.int 257) := by cbv

end Layout

end BitLayout
