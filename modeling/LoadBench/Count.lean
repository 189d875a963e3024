/-!
# Counts

Counters are held in 64 bits and stop at the largest count instead of starting over. A
`Quantity` is a count of things of which there is at least one: the threads of a group, the
calls of a batch, the operations of a call.
-/

namespace LoadBench

/-- The largest 64-bit count, where counters and nanosecond readings stop. -/
def maxCount : Nat := Nat.pow 2 64 - 1

/-- A count held in 64 bits stops at `maxCount`. -/
def clipCount (n : Nat) : Nat := min n maxCount

theorem clipCount_le (n : Nat) : clipCount n ≤ maxCount := Nat.min_le_right _ _

theorem clipCount_of_le {n : Nat} (h : n ≤ maxCount) : clipCount n = n := Nat.min_eq_left h

/-- A 64-bit count of at least one. -/
structure Quantity where
  val : Nat
  pos : 0 < val
  le_max : val ≤ maxCount
  deriving DecidableEq, Repr

namespace Quantity

instance : CoeOut Quantity Nat := ⟨val⟩

@[ext] theorem ext {a b : Quantity} (h : a.val = b.val) : a = b := by
  cases a; cases b; cases h; rfl

def one : Quantity := ⟨1, by decide, by decide⟩

instance : Inhabited Quantity := ⟨one⟩

def ofNat? (n : Nat) : Option Quantity :=
  if h : 0 < n ∧ n ≤ maxCount then some ⟨n, h.1, h.2⟩ else none

end Quantity
end LoadBench
