import BitLayout.Text.Wording

/-!
# Integers and their spelling

A truth value counts as an integer, zero or one, but keeps its spelling in messages.

## Main definitions

* `Integer`: a number or a truth value
* `Integer.toInt`, `Integer.same`: what is calculated and compared
* `Integer.written`: what messages show
-/

namespace BitLayout

/-- An integer together with its spelling, a number or a truth value. -/
inductive Integer where
  | number (n : Int)
  | truth (b : Bool)
deriving DecidableEq

namespace Integer

instance (n : Nat) : OfNat Integer n := ⟨.number n⟩

instance : Coe Int Integer := ⟨.number⟩

instance : NatCast Integer := ⟨fun n => .number n⟩

/-- The number; a truth value counts as zero or one. -/
def toInt : Integer → Int
  | .number n => n
  | .truth b => b.toInt

/-- The number as one of at least zero; a negative one counts as zero. -/
def toNat (n : Integer) : Nat := n.toInt.toNat

/-- Equality as numbers. -/
def same (m n : Integer) : Bool := m.toInt == n.toInt

/-- The integer as spelled. -/
def written : Integer → Wording
  | .number n => Wording.ofInt n
  | .truth b => Text.ofBool b

end Integer

end BitLayout
