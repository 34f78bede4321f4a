import BitLayout.Proofs.Bits.Reader
import BitLayout.Proofs.Bits.Writer

/-!
# Reading what a writer holds

A reader of the bytes of a writer has the written bits before it and then the filling, which is less
than a byte.
-/

namespace BitLayout

namespace BitWriter.Holds

variable {w : BitWriter} {written : List Bool}

theorem remaining_ofBytes (holds : w.Holds written) :
    (BitReader.ofBytes w.toBytes).remaining =
      written ++ List.replicate (filling written.length) false := by
  rw [BitReader.remaining_ofBytes, holds.bytes]

/-- So many bytes hold the written bits. -/
theorem length_toBytes (holds : w.Holds written) : w.toBytes.length = (written.length + 7) / 8 := by
  have size := holds.size
  rw [filling] at size
  rw [BitWriter.length_toBytes]
  omega

theorem length_le_bitsRemaining (holds : w.Holds written) :
    written.length ≤ (BitReader.ofBytes w.toBytes).bitsRemaining := by
  rw [BitReader.bitsRemaining_ofBytes, holds.length_toBytes]
  omega

/-- After all written bits no whole byte is left over. -/
theorem trailingBytes_eq_zero (holds : w.Holds written) :
    ((BitReader.ofBytes w.toBytes).advance written.length).trailingBytes = 0 := by
  have valid := (BitReader.valid_ofBytes w.toBytes).advance holds.length_le_bitsRemaining
  have length := holds.length_toBytes
  rw [valid.trailingBytes_eq, BitReader.position_advance, BitReader.data_advance,
    BitReader.position_ofBytes]
  change w.toBytes.length - _ = 0
  omega

end BitWriter.Holds

end BitLayout
