import LoadBench.Wait

/-!
# Turns

A turn is one thread's request for a stage of a published fixture. The thread that enters the
gate of the stage owns it: unless the trial is failing, or the level already stands where the
stage would bring it, the owner runs the hook. The ready flag of the level changes only after
the hook has returned, and the failure flag is set before the gate is left, so whoever finds the
gate idle again can tell what happened.
-/

namespace LoadBench

structure Turn where
  iteration : Iteration
  site : Site
  fixture : Nat
  stage : Stage

namespace Turn

inductive Point where
  | enter
  /-- Somebody else owns the gate. -/
  | queued (p : Idling.Point)
  | checkFailed
  | checkReady
  | hook
  /-- The hook went wrong: the trial is to be marked failing. -/
  | condemn (mishap : Mishap)
  /-- The hook has returned: the ready flag is to be changed. -/
  | commit
  | leave (r : Outcome Unit)
  deriving DecidableEq

def idling (t : Turn) : Idling := ⟨t.iteration, t.iteration.backoff, t.fixture, t.stage⟩

def verdict (t : Turn) : Mishap → Outcome Unit
  | .refused problem => .failed (.ofStage t.site.name t.stage problem)
  | .crashed text => .crashed text

def mishapNotes (t : Turn) : Mishap → List Note
  | .refused problem => [.stageFailed t.site.name t.stage problem]
  | .crashed _ => []

def step (t : Turn) (now : Nat) (m : Memory) : Point → Move Memory Point Unit
  | .enter =>
    match (m.gate t.fixture t.stage).enter? with
    | some g => .act (m.setGate t.fixture t.stage g) [] (.point .checkFailed)
    | none => .act m [.waitingForOwner t.site.name t.stage] (.point (.queued t.idling.start))
  | .queued p => (t.idling.step now m p).andThen .queued .ended
  | .checkFailed =>
    if m.hasFailed t.iteration then .act m [] (.point (.leave (.failed .aborted)))
    else .act m [] (.point .checkReady)
  | .checkReady =>
    if m.isReady t.fixture t.stage = t.stage.isSetUp then .act m [] (.point (.leave (.ok ())))
    else .act m [] (.point .hook)
  | .hook => .ask (.stage t.site (m.fixture t.fixture).value t.stage) fun
    | .returned _ => .point .commit
    | .refused problem => .point (.condemn (.refused problem))
    | .crashed text => .point (.condemn (.crashed text))
  | .condemn mishap =>
    .act (m.setFailed t.iteration) (m.failureNotes t.iteration ++ t.mishapNotes mishap)
      (.point (.leave (t.verdict mishap)))
  | .commit =>
    .act (m.setReady t.fixture t.stage t.stage.isSetUp)
      [.stageCompleted t.site.name t.stage] (.point (.leave (.ok ())))
  | .leave r =>
    .act (m.setGate t.fixture t.stage (m.gate t.fixture t.stage).leave) [] (.ended r)

end Turn
end LoadBench
