/-!
# Stages of a fixture's life

A fixture is set up and torn down at three levels: once for a trial, once for every iteration,
and around single invocations. A `Stage` is one of those six actions; the two stages of a level
undo each other. A `Hook` is a call into the fixture itself, which besides the six stages
includes the construction that makes it.
-/

namespace LoadBench

inductive Level where
  | trial
  | iteration
  | invocation
  deriving DecidableEq, Repr

namespace Level

def name : Level → String
  | trial => "trial"
  | iteration => "iteration"
  | invocation => "invocation"

end Level

inductive Direction where
  | setUp
  | tearDown
  deriving DecidableEq, Repr

/-- One lifecycle action of a fixture. -/
structure Stage where
  level : Level
  direction : Direction
  deriving DecidableEq, Repr

namespace Stage

def all : List Stage :=
  [⟨.trial, .setUp⟩, ⟨.trial, .tearDown⟩, ⟨.iteration, .setUp⟩, ⟨.iteration, .tearDown⟩,
   ⟨.invocation, .setUp⟩, ⟨.invocation, .tearDown⟩]

def isSetUp (s : Stage) : Bool := s.direction = .setUp

def name (s : Stage) : String :=
  s.level.name ++ if s.isSetUp then " setup" else " teardown"

end Stage

/-- A call into a fixture. -/
inductive Hook where
  | construct
  | stage (s : Stage)
  deriving DecidableEq, Repr

structure Levels (α : Type) where
  trial : α
  iteration : α
  invocation : α
  deriving DecidableEq, Repr

namespace Levels
variable {α : Type}

def get (t : Levels α) : Level → α
  | .trial => t.trial
  | .iteration => t.iteration
  | .invocation => t.invocation

def set (t : Levels α) (l : Level) (a : α) : Levels α :=
  match l with
  | .trial => { t with trial := a }
  | .iteration => { t with iteration := a }
  | .invocation => { t with invocation := a }

def replicate (a : α) : Levels α := ⟨a, a, a⟩

@[simp] theorem get_replicate (a : α) (l : Level) : (replicate a).get l = a := by cases l <;> rfl

@[simp] theorem get_set_self (t : Levels α) (l : Level) (a : α) : (t.set l a).get l = a := by
  cases l <;> rfl

theorem get_set_ne (t : Levels α) {l k : Level} (a : α) (h : k ≠ l) :
    (t.set l a).get k = t.get k := by
  cases l <;> cases k <;> first | rfl | exact absurd rfl h

theorem get_set (t : Levels α) (l k : Level) (a : α) :
    (t.set l a).get k = if k = l then a else t.get k := by
  cases l <;> cases k <;> rfl

end Levels

structure Stages (α : Type) where
  setUp : Levels α
  tearDown : Levels α
  deriving DecidableEq, Repr

namespace Stages
variable {α : Type}

def get (t : Stages α) : Stage → α
  | ⟨l, .setUp⟩ => t.setUp.get l
  | ⟨l, .tearDown⟩ => t.tearDown.get l

def set (t : Stages α) (s : Stage) (a : α) : Stages α :=
  match s with
  | ⟨l, .setUp⟩ => { t with setUp := t.setUp.set l a }
  | ⟨l, .tearDown⟩ => { t with tearDown := t.tearDown.set l a }

def replicate (a : α) : Stages α := ⟨.replicate a, .replicate a⟩

@[simp] theorem get_replicate (a : α) (s : Stage) : (replicate a).get s = a := by
  rcases s with ⟨_, _ | _⟩ <;> simp [get, replicate]

theorem get_set (t : Stages α) (s r : Stage) (a : α) :
    (t.set s a).get r = if r = s then a else t.get r := by
  rcases s with ⟨_ | _ | _, _ | _⟩ <;> rcases r with ⟨_ | _ | _, _ | _⟩ <;> rfl

@[simp] theorem get_set_self (t : Stages α) (s : Stage) (a : α) : (t.set s a).get s = a := by
  simp [get_set]

theorem get_set_ne (t : Stages α) {s r : Stage} (a : α) (h : r ≠ s) :
    (t.set s a).get r = t.get r := by
  simp [get_set, h]

end Stages
end LoadBench
