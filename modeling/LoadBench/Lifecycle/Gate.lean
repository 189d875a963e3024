/-!
# Gates

A gate picks exactly one thread to perform a lifecycle action. It never blocks: whoever finds it
idle makes it active and owns it until leaving, and everybody else is turned away.
-/

namespace LoadBench

inductive Gate where
  | idle
  | active
  deriving DecidableEq, Repr

namespace Gate

instance : Inhabited Gate := ⟨idle⟩

def isActive (g : Gate) : Bool := g = active

@[simp] theorem isActive_active : active.isActive = true := rfl

@[simp] theorem isActive_idle : idle.isActive = false := rfl

/-- The gate after a successful entry; only an idle gate can be entered. -/
def enter? : Gate → Option Gate
  | idle => some active
  | active => none

def leave (_ : Gate) : Gate := idle

end Gate

/-- A gate together with what its only user holds: whether an entry of theirs is still open. -/
structure Custody where
  gate : Gate := .idle
  held : Bool := false

namespace Custody

def enter (c : Custody) : Bool × Custody :=
  match c.gate.enter? with
  | some g => (true, ⟨g, true⟩)
  | none => (false, c)

def exit (c : Custody) : Bool × Custody :=
  if c.held then (true, ⟨c.gate.leave, false⟩) else (false, c)

/-- Tries to enter and crashes inside, which leaves the gate on the way out. -/
def enterAndCrash (c : Custody) : Bool × Custody :=
  match c.gate.enter? with
  | some g => (true, { c with gate := g.leave })
  | none => (false, c)

end Custody
end LoadBench
