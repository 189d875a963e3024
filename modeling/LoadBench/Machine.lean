import LoadBench.Metric

/-!
# Operations as machines

An operation of the harness is a machine whose program points carry its local data. Offered a
step, it performs one atomic action on the shared state, or says which call outside the harness
it is waiting for: a hook of a fixture, the workload, or a sleep. The same machines are run one
after the other, by a schedule, or in every interleaving; nothing here decides which.

`σ` stands for the program points of an operation, `μ` for the shared state, `α` for its result.
-/

namespace LoadBench

/-- How an operation ends: with a value, with a failure, or by a crash that unwinds it. -/
inductive Outcome (α : Type) where
  | ok (a : α)
  | failed (e : Failure)
  | crashed (text : String)
  deriving DecidableEq

namespace Outcome
variable {α β : Type}

def map (f : α → β) : Outcome α → Outcome β
  | ok a => ok (f a)
  | failed e => failed e
  | crashed t => crashed t

def isOk : Outcome α → Bool
  | ok _ => true
  | _ => false

def isCrash : Outcome α → Bool
  | crashed _ => true
  | _ => false

end Outcome

/-- Why a call into a fixture did not succeed. -/
inductive Mishap where
  | refused (problem : String)
  | crashed (text : String)
  deriving DecidableEq

/-- A named place for fixtures of one kind. -/
structure Site where
  id : Nat
  name : String
  kind : Nat
  deriving DecidableEq, Repr

instance : Inhabited Site := ⟨⟨0, "", 0⟩⟩

/-- A call outside the harness. -/
inductive Request where
  | construct (site : Site) (parameters : Parameters)
  /-- Runs a stage of the fixture whose construction returned `value`. -/
  | stage (site : Site) (value : Nat) (s : Stage)
  | work
  | sleep (d : Span)

inductive Reply where
  /-- Normal return; what a construction returns is the value of the fixture. -/
  | returned (value : Nat)
  | refused (problem : String)
  | crashed (text : String)
  deriving DecidableEq

namespace Request

/-- The replies that a call can have: a sleep only ends, a workload returns or crashes, and a
hook may also refuse. -/
def Admits : Request → Reply → Prop
  | construct .., _ | stage .., _ => True
  | work, .returned _ | work, .crashed _ => True
  | work, .refused _ => False
  | sleep _, .returned _ => True
  | sleep _, _ => False

instance (q : Request) (r : Reply) : Decidable (q.Admits r) := by
  cases q <;> cases r <;> unfold Admits <;> infer_instance

/-- The hook that a call is, if it is one. -/
def hook? : Request → Option Hook
  | construct .. => some .construct
  | stage _ _ s => some (.stage s)
  | work | sleep _ => none

end Request

inductive Phase where
  | init
  | warmup
  | measuring
  | warmdown
  | trialTeardown
  | done
  deriving DecidableEq, Repr

namespace Phase

def name : Phase → String
  | init => "init"
  | warmup => "warmup"
  | measuring => "measuring"
  | warmdown => "warmdown"
  | trialTeardown => "trial teardown"
  | done => "done"

end Phase

inductive Severity where
  | trace
  | debug
  | warn
  deriving DecidableEq, Repr

namespace Severity

def name : Severity → String
  | trace => "TRACE"
  | debug => "DEBUG"
  | warn => "WARN"

end Severity

/-- What an operation notes for the diagnostic log. -/
inductive Note where
  | trialFailing (benchmark : String)
  | constructing (fixture : String)
  | published (fixture : String)
  | constructionFailed (fixture problem : String)
  | waitingForOwner (fixture : String) (stage : Stage)
  | stageCompleted (fixture : String) (stage : Stage)
  | stageFailed (fixture : String) (stage : Stage) (problem : String)
  | transition (thread : Nat) (source target : Phase)
  | forcingTeardown (thread : Nat)
  | iterationFailed (benchmark : String) (thread : Nat) (phase : Phase) (failure : Failure)
  | startingIteration (benchmark : String) (index : Nat) (isWarmup : Bool)
  | timedOut (benchmark : String)
  | trialFailed (benchmark : String) (failure : Failure)
  deriving DecidableEq

namespace Note

def severity : Note → Severity
  | waitingForOwner .. | transition .. | forcingTeardown .. => .trace
  | constructing .. | published .. | stageCompleted .. | iterationFailed ..
  | startingIteration .. => .debug
  | trialFailing .. | constructionFailed .. | stageFailed .. | timedOut ..
  | trialFailed .. => .warn

def message : Note → String
  | trialFailing .. => "trial is failing, all waiting threads will abort"
  | constructing .. => "constructing fixture"
  | published .. => "fixture published"
  | constructionFailed .. => "fixture construction failed"
  | waitingForOwner .. => "waiting for phase owner"
  | stageCompleted .. => "lifecycle phase completed"
  | stageFailed .. => "lifecycle hook failed"
  | transition .. => "phase transition"
  | forcingTeardown .. => "interrupted before teardown, forcing"
  | iterationFailed .. => "iteration failed"
  | startingIteration .. => "starting iteration"
  | timedOut .. => "iteration exceeded its timeout, interrupting"
  | trialFailed .. => "trial failed"

def details : Note → List (String × String)
  | trialFailing benchmark | timedOut benchmark => [("benchmark", benchmark)]
  | constructing fixture | published fixture => [("fixture", fixture)]
  | constructionFailed fixture problem => [("fixture", fixture), ("error", problem)]
  | waitingForOwner fixture stage | stageCompleted fixture stage =>
    [("fixture", fixture), ("kind", stage.name)]
  | stageFailed fixture stage problem =>
    [("fixture", fixture), ("kind", stage.name), ("error", problem)]
  | transition thread source target =>
    [("thread", Nat.repr thread), ("from", source.name), ("to", target.name)]
  | forcingTeardown thread => [("thread", Nat.repr thread)]
  | iterationFailed benchmark thread phase failure =>
    [("benchmark", benchmark), ("thread", Nat.repr thread), ("phase", phase.name),
     ("error", failure.message)]
  | startingIteration benchmark index isWarmup =>
    [("benchmark", benchmark), ("iteration", Nat.repr index),
     ("warmup", if isWarmup then "true" else "false")]
  | trialFailed benchmark failure => [("benchmark", benchmark), ("error", failure.message)]

end Note

/-- Where an operation stands: at a program point, or at its end. -/
inductive Stand (σ α : Type) where
  | point (p : σ)
  | ended (r : Outcome α)
  deriving DecidableEq

namespace Stand
variable {σ τ α β : Type}

/-- Embeds the points of a part into the whole and goes on where the part ends. -/
def andThen (s : Stand σ α) (embed : σ → τ) (onward : Outcome α → Stand τ β) : Stand τ β :=
  match s with
  | point p => point (embed p)
  | ended r => onward r

@[simp] theorem andThen_point (p : σ) (embed : σ → τ) (onward : Outcome α → Stand τ β) :
    (point p : Stand σ α).andThen embed onward = point (embed p) := rfl

@[simp] theorem andThen_ended (r : Outcome α) (embed : σ → τ) (onward : Outcome α → Stand τ β) :
    (ended r : Stand σ α).andThen embed onward = onward r := rfl

def outcome? : Stand σ α → Option (Outcome α)
  | point _ => none
  | ended r => some r

def hasEnded : Stand σ α → Bool
  | point _ => false
  | ended _ => true

end Stand

/-- What an operation does when it is offered a step. -/
inductive Move (μ σ α : Type) where
  /-- One atomic action: the shared state after it, what is noted, and where it leads. -/
  | act (m : μ) (notes : List Note) (s : Stand σ α)
  /-- The operation waits for a call outside the harness and goes on from its reply. -/
  | ask (q : Request) (k : Reply → Stand σ α)
  /-- The operation waits for an exclusive section that somebody else is in. -/
  | blocked

namespace Move
variable {μ σ τ α β : Type}

/-- The move of a whole whose part makes this move. -/
def andThen (v : Move μ σ α) (embed : σ → τ) (onward : Outcome α → Stand τ β) : Move μ τ β :=
  match v with
  | act m notes s => act m notes (s.andThen embed onward)
  | ask q k => ask q fun r => (k r).andThen embed onward
  | blocked => blocked

@[simp] theorem andThen_act (m : μ) (notes : List Note) (s : Stand σ α) (embed : σ → τ)
    (onward : Outcome α → Stand τ β) :
    (act m notes s).andThen embed onward = act m notes (s.andThen embed onward) := rfl

@[simp] theorem andThen_ask (q : Request) (k : Reply → Stand σ α) (embed : σ → τ)
    (onward : Outcome α → Stand τ β) :
    (ask q k : Move μ σ α).andThen embed onward = ask q fun r => (k r).andThen embed onward := rfl

def request? : Move μ σ α → Option Request
  | ask q _ => some q
  | act .. | blocked => none

end Move
end LoadBench
