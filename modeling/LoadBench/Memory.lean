import LoadBench.Iteration
import LoadBench.Lifecycle.Gate
import LoadBench.Machine
import LoadBench.Table

/-!
# The shared state

What the threads of a harness share: the failure flag of each trial, the signals of each
iteration, the sites where fixtures are published, and the fixtures. What never changes while
threads run is not part of it.
-/

namespace LoadBench

/-- A place for one fixture: which one is live, and whether the section in which
that changes is taken. -/
structure Slot where
  live : Option Nat := none
  entered : Bool := false
  deriving DecidableEq, Inhabited

/-- A published fixture: what its construction returned, which levels are set up, and
the gate of each stage. -/
structure Fixture where
  value : Nat := 0
  ready : Levels Bool := .replicate false
  gates : Stages Gate := .replicate .idle
  deriving DecidableEq, Inhabited

namespace Fixture

/-- A fixture right after its construction: the trial level is set up, nothing else. -/
def fresh (value : Nat) : Fixture := { value, ready := (Levels.replicate false).set .trial true }

def isReady (f : Fixture) (s : Stage) : Bool := f.ready.get s.level

def allIdle (f : Fixture) : Bool := Stage.all.all fun s => !(f.gates.get s).isActive

end Fixture

structure Memory where
  failing : Table Bool := .empty
  signals : Table Signals := .empty
  slots : Table Slot := .empty
  fixtures : Table Fixture := .empty
  /-- How many fixtures were ever published; the next one gets this number. -/
  published : Nat := 0

namespace Memory

instance : Inhabited Memory := ⟨{}⟩

def hasFailed (m : Memory) (i : Iteration) : Bool := m.failing.get i.trial

def setFailed (m : Memory) (i : Iteration) : Memory :=
  { m with failing := m.failing.put i.trial true }

/-- The first one to mark a trial failing says so. -/
def failureNotes (m : Memory) (i : Iteration) : List Note :=
  if m.hasFailed i then [] else [.trialFailing i.benchmark.label]

def signalsOf (m : Memory) (i : Iteration) : Signals := m.signals.get i.number

def signal (m : Memory) (i : Iteration) (f : Signals → Signals) : Memory :=
  { m with signals := m.signals.modify i.number f }

def isInterrupted (m : Memory) (i : Iteration) : Bool := (m.signalsOf i).interrupted

def live? (m : Memory) (s : Site) : Option Nat := (m.slots.get s.id).live

def isEntered (m : Memory) (s : Site) : Bool := (m.slots.get s.id).entered

def setEntered (m : Memory) (s : Site) (b : Bool) : Memory :=
  { m with slots := m.slots.modify s.id fun t => { t with entered := b } }

def fixture (m : Memory) (f : Nat) : Fixture := m.fixtures.get f

def gate (m : Memory) (f : Nat) (s : Stage) : Gate := (m.fixture f).gates.get s

def setGate (m : Memory) (f : Nat) (s : Stage) (g : Gate) : Memory :=
  { m with fixtures := m.fixtures.modify f fun x => { x with gates := x.gates.set s g } }

def isReady (m : Memory) (f : Nat) (s : Stage) : Bool := (m.fixture f).isReady s

def setReady (m : Memory) (f : Nat) (s : Stage) (b : Bool) : Memory :=
  { m with fixtures := m.fixtures.modify f fun x => { x with ready := x.ready.set s.level b } }

def publish (m : Memory) (s : Site) (value : Nat) : Memory :=
  { m with
    fixtures := m.fixtures.put m.published (.fresh value)
    slots := m.slots.modify s.id fun t => { t with live := some m.published }
    published := m.published + 1 }

def clear (m : Memory) (s : Site) : Memory :=
  { m with slots := m.slots.modify s.id fun t => { t with live := none } }

/-! ### What each action leaves alone -/

@[simp] theorem hasFailed_signal (m : Memory) (i j : Iteration) (f : Signals → Signals) :
    (m.signal i f).hasFailed j = m.hasFailed j := rfl

@[simp] theorem hasFailed_setGate (m : Memory) (i : Iteration) (f : Nat) (s : Stage) (g : Gate) :
    (m.setGate f s g).hasFailed i = m.hasFailed i := rfl

@[simp] theorem hasFailed_setReady (m : Memory) (i : Iteration) (f : Nat) (s : Stage) (b : Bool) :
    (m.setReady f s b).hasFailed i = m.hasFailed i := rfl

@[simp] theorem hasFailed_setEntered (m : Memory) (i : Iteration) (s : Site) (b : Bool) :
    (m.setEntered s b).hasFailed i = m.hasFailed i := rfl

@[simp] theorem hasFailed_publish (m : Memory) (i : Iteration) (s : Site) (v : Nat) :
    (m.publish s v).hasFailed i = m.hasFailed i := rfl

@[simp] theorem hasFailed_clear (m : Memory) (i : Iteration) (s : Site) :
    (m.clear s).hasFailed i = m.hasFailed i := rfl

theorem hasFailed_setFailed (m : Memory) (i j : Iteration) :
    (m.setFailed i).hasFailed j = if j.trial = i.trial then true else m.hasFailed j :=
  Table.get_put _ _ _ _

@[simp] theorem hasFailed_setFailed_self (m : Memory) (i : Iteration) :
    (m.setFailed i).hasFailed i = true := by simp [hasFailed_setFailed]

theorem hasFailed_setFailed_of (m : Memory) (i j : Iteration) (h : m.hasFailed j = true) :
    (m.setFailed i).hasFailed j = true := by
  rw [hasFailed_setFailed]; split <;> simp [h]

@[simp] theorem signalsOf_setFailed (m : Memory) (i j : Iteration) :
    (m.setFailed i).signalsOf j = m.signalsOf j := rfl

@[simp] theorem signalsOf_setGate (m : Memory) (i : Iteration) (f : Nat) (s : Stage) (g : Gate) :
    (m.setGate f s g).signalsOf i = m.signalsOf i := rfl

@[simp] theorem signalsOf_setReady (m : Memory) (i : Iteration) (f : Nat) (s : Stage) (b : Bool) :
    (m.setReady f s b).signalsOf i = m.signalsOf i := rfl

@[simp] theorem signalsOf_setEntered (m : Memory) (i : Iteration) (s : Site) (b : Bool) :
    (m.setEntered s b).signalsOf i = m.signalsOf i := rfl

@[simp] theorem signalsOf_publish (m : Memory) (i : Iteration) (s : Site) (v : Nat) :
    (m.publish s v).signalsOf i = m.signalsOf i := rfl

@[simp] theorem signalsOf_clear (m : Memory) (i : Iteration) (s : Site) :
    (m.clear s).signalsOf i = m.signalsOf i := rfl

theorem signalsOf_signal (m : Memory) (i j : Iteration) (f : Signals → Signals) :
    (m.signal i f).signalsOf j =
      if j.number = i.number then f (m.signalsOf i) else m.signalsOf j :=
  Table.get_modify _ _ _ _

@[simp] theorem signalsOf_signal_self (m : Memory) (i : Iteration) (f : Signals → Signals) :
    (m.signal i f).signalsOf i = f (m.signalsOf i) := by simp [signalsOf_signal]

theorem live?_setEntered (m : Memory) (s t : Site) (b : Bool) :
    (m.setEntered s b).live? t = m.live? t := by
  simp only [live?, setEntered, Table.get_modify]
  split <;> simp_all

theorem isEntered_setEntered (m : Memory) (s t : Site) (b : Bool) :
    (m.setEntered s b).isEntered t = if t.id = s.id then b else m.isEntered t := by
  simp only [isEntered, setEntered, Table.get_modify]
  split <;> rfl

theorem live?_clear (m : Memory) (s t : Site) :
    (m.clear s).live? t = if t.id = s.id then none else m.live? t := by
  simp only [live?, clear, Table.get_modify]
  split <;> rfl

theorem isEntered_clear (m : Memory) (s t : Site) : (m.clear s).isEntered t = m.isEntered t := by
  simp only [isEntered, clear, Table.get_modify]
  split <;> simp_all

theorem live?_publish (m : Memory) (s t : Site) (v : Nat) :
    (m.publish s v).live? t = if t.id = s.id then some m.published else m.live? t := by
  simp only [live?, publish, Table.get_modify]
  split <;> rfl

theorem isEntered_publish (m : Memory) (s t : Site) (v : Nat) :
    (m.publish s v).isEntered t = m.isEntered t := by
  simp only [isEntered, publish, Table.get_modify]
  split <;> simp_all

theorem fixture_publish (m : Memory) (s : Site) (f v : Nat) :
    (m.publish s v).fixture f = if f = m.published then .fresh v else m.fixture f :=
  Table.get_put _ _ _ _

theorem fixture_setGate_ne (m : Memory) {f k : Nat} (s : Stage) (g : Gate) (h : k ≠ f) :
    (m.setGate f s g).fixture k = m.fixture k := Table.get_modify_ne _ _ h

theorem fixture_setReady_ne (m : Memory) {f k : Nat} (s : Stage) (b : Bool) (h : k ≠ f) :
    (m.setReady f s b).fixture k = m.fixture k := Table.get_modify_ne _ _ h

theorem gate_setGate (m : Memory) (f : Nat) (s r : Stage) (g : Gate) :
    (m.setGate f s g).gate f r = if r = s then g else m.gate f r := by
  simp only [gate, fixture, setGate, Table.get_modify_self, Stages.get_set]

theorem isReady_setGate (m : Memory) (f k : Nat) (s r : Stage) (g : Gate) :
    (m.setGate f s g).isReady k r = m.isReady k r := by
  simp only [isReady, fixture, setGate, Table.get_modify]
  split <;> simp_all [Fixture.isReady]

theorem isReady_setReady (m : Memory) (f : Nat) (s r : Stage) (b : Bool) :
    (m.setReady f s b).isReady f r = if r.level = s.level then b else m.isReady f r := by
  simp only [isReady, fixture, setReady, Table.get_modify_self, Fixture.isReady, Levels.get_set]

theorem gate_setReady (m : Memory) (f k : Nat) (s r : Stage) (b : Bool) :
    (m.setReady f s b).gate k r = m.gate k r := by
  simp only [gate, fixture, setReady, Table.get_modify]
  split <;> simp_all

end Memory
end LoadBench
