/-!
# Tables

A `Table` holds a value at every natural number; only finitely many of them were ever written,
and all others hold the default. `get_put` is its whole theory.
-/

namespace LoadBench

structure Table (α : Type) where
  cells : Array α

namespace Table
variable {α : Type}

def empty : Table α := ⟨#[]⟩

instance : Inhabited (Table α) := ⟨empty⟩

variable [Inhabited α]

def get (t : Table α) (i : Nat) : α := t.cells[i]?.getD default

def put (t : Table α) (i : Nat) (a : α) : Table α :=
  ⟨(t.cells ++ Array.replicate (i + 1 - t.cells.size) default).setIfInBounds i a⟩

theorem get_put (t : Table α) (i j : Nat) (a : α) :
    (t.put i a).get j = if j = i then a else t.get j := by
  unfold get put
  simp only [Array.getElem?_setIfInBounds, Array.getElem?_append, Array.getElem?_replicate,
    Array.size_append, Array.size_replicate]
  by_cases hji : j = i
  · subst hji
    have hlt : j < t.cells.size + (j + 1 - t.cells.size) := by omega
    simp [hlt]
  · have hij : i ≠ j := fun h => hji h.symm
    simp only [hij, if_false, hji]
    by_cases hj : j < t.cells.size
    · simp [hj]
    · simp only [hj, if_false]
      rw [Array.getElem?_eq_none (by omega)]
      split <;> rfl

@[simp] theorem get_put_self (t : Table α) (i : Nat) (a : α) : (t.put i a).get i = a := by
  simp [get_put]

def modify (t : Table α) (i : Nat) (f : α → α) : Table α := t.put i (f (t.get i))

theorem get_modify (t : Table α) (i j : Nat) (f : α → α) :
    (t.modify i f).get j = if j = i then f (t.get i) else t.get j := get_put t i j _

@[simp] theorem get_modify_self (t : Table α) (i : Nat) (f : α → α) :
    (t.modify i f).get i = f (t.get i) := by simp [get_modify]

theorem get_modify_ne (t : Table α) {i j : Nat} (f : α → α) (h : j ≠ i) :
    (t.modify i f).get j = t.get j := by simp [get_modify, h]

end Table
end LoadBench
