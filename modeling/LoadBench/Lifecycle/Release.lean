import LoadBench.Lifecycle.Turn

/-!
# Releasing a fixture

`Clear` empties a site inside its exclusive section. `Release` first takes a turn at the teardown
of the trial level, if a fixture is live, and then clears the site whatever came of it; only
a crash of the cleanup leaves the site as it is.
-/

namespace LoadBench

structure Clear where
  site : Site

namespace Clear

inductive Point where
  | enter
  | store
  | leave
  deriving DecidableEq

def step (c : Clear) (m : Memory) : Point → Move Memory Point Unit
  | .enter =>
    if m.isEntered c.site then .blocked
    else .act (m.setEntered c.site true) [] (.point .store)
  | .store => .act (m.clear c.site) [] (.point .leave)
  | .leave => .act (m.setEntered c.site false) [] (.ended (.ok ()))

end Clear

structure Release where
  iteration : Iteration
  site : Site

namespace Release

inductive Point where
  | look
  | cleaning (fixture : Nat) (p : Turn.Point)
  /-- No fixture is live: somebody else has cleaned up, or the trial is failing. -/
  | checkFailed
  | clearing (r : Outcome Unit) (p : Clear.Point)
  deriving DecidableEq

def turn (a : Release) (fixture : Nat) : Turn := ⟨a.iteration, a.site, fixture, ⟨.trial, .tearDown⟩⟩

def clear (a : Release) : Clear := ⟨a.site⟩

def step (a : Release) (now : Nat) (m : Memory) : Point → Move Memory Point Unit
  | .look =>
    match m.live? a.site with
    | some f => .act m [] (.point (.cleaning f .enter))
    | none => .act m [] (.point .checkFailed)
  | .cleaning f p => ((a.turn f).step now m p).andThen (.cleaning f) fun
    | .crashed text => .ended (.crashed text)
    | r => .point (.clearing r .enter)
  | .checkFailed =>
    .act m []
      (.point (.clearing (if m.hasFailed a.iteration then .failed .aborted else .ok ()) .enter))
  | .clearing r p => (a.clear.step m p).andThen (.clearing r) fun _ => .ended r

end Release
end LoadBench
