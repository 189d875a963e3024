import LoadBench.Lifecycle.Stage

/-!
# Failures

The causes for which an operation of the harness gives up, and their wording. A failure is
secondary when another thread of the trial caused it and this one merely noticed.
-/

namespace LoadBench

inductive Failure where
  | setUp (fixture : String) (stage : Stage) (problem : String)
  | tearDown (fixture : String) (stage : Stage) (problem : String)
  /-- Another thread failed, or the iteration was interrupted, while this one waited. -/
  | aborted
  /-- The iteration was interrupted, so nothing is reported for it. -/
  | interrupted
  | subgroupWithoutRole (subgroup : Nat)
  | missingParameter (name : String)
  | invalidParameter (name value problem : String)
  deriving DecidableEq, Repr

namespace Failure

def message : Failure → String
  | setUp fixture stage _ => "setup of fixture '" ++ fixture ++ "' failed during " ++ stage.name
  | tearDown fixture stage _ =>
    "teardown of fixture '" ++ fixture ++ "' failed during " ++ stage.name
  | aborted => "aborted while waiting for other threads of the trial"
  | interrupted => "iteration was interrupted and has no result"
  | subgroupWithoutRole subgroup =>
    "harness failed to distribute threads among groups properly: subgroup " ++
      Nat.repr subgroup ++ " has no role"
  | missingParameter name => "required parameter '" ++ name ++ "' was not supplied"
  | invalidParameter name value problem =>
    "parameter '" ++ name ++ "' has invalid value '" ++ value ++ "': " ++ problem

/-- What the fixture itself said, for the failures that a fixture caused. -/
def source? : Failure → Option String
  | setUp _ _ problem | tearDown _ _ problem => some problem
  | _ => none

def isSecondary : Failure → Bool
  | aborted | interrupted => true
  | _ => false

def ofStage (fixture : String) (stage : Stage) (problem : String) : Failure :=
  match stage.direction with
  | .setUp => setUp fixture stage problem
  | .tearDown => tearDown fixture stage problem

@[simp] theorem isSecondary_ofStage (fixture : String) (stage : Stage) (problem : String) :
    (ofStage fixture stage problem).isSecondary = false := by
  rcases stage with ⟨_, _ | _⟩ <;> rfl

end Failure
end LoadBench
