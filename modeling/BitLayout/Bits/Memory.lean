import BitLayout.Bits.Basic

/-!
# Memory

A number of very many bits cannot be held. How many fit depends on the machine, so it is a parameter
of everything that writes numbers; the laws of layouts are about a machine without a limit.

## Main definitions

* `Memory`, `Memory.unbounded`, `Memory.ofRoom`
* `Memory.hasRoom`, `Memory.reserve`: whether there is room for so many bits
-/

namespace BitLayout

/-- The room for a single number. -/
structure Memory where
  /-- How many bits there are, `none` if there is no limit. -/
  room? : Option Nat

namespace Memory

/-- Room for every number. -/
def unbounded : Memory := ⟨none⟩

/-- Room for numbers of at most so many bits. -/
def ofRoom (bits : Nat) : Memory := ⟨some bits⟩

/-- The room on an ordinary machine. -/
def ordinary : Memory := ofRoom (1 <<< 40)

/-- The bits in the widest number of all, whatever the room. Numbers consist of digits of thirty
bits, whose count is limited. -/
def widest : Nat := 30 * 2305843009213693944

/-- Whether there is room for so many bits. -/
def hasRoom (memory : Memory) (bits : Nat) : Bool := memory.room?.all (bits ≤ ·)

/-- Checks that there is room for a number of so many bits. -/
def reserve (memory : Memory) (width : Nat) : Except CursorError Unit :=
  if memory.hasRoom width then .ok ()
  else if widest < width then .error .numberTooWide
  else .error .outOfMemory

end Memory

end BitLayout
