import LoadBench.Memory

/-!
# Acquiring a fixture

The live fixture of a site, constructed first if there is none. Construction happens in the
exclusive section of the site, after a second look, and never in a failing trial. A construction
that goes wrong marks the trial failing before the section is left.
-/

namespace LoadBench

structure Acquire where
  iteration : Iteration
  site : Site

namespace Acquire

inductive Point where
  | look
  | enter
  /-- The second look, inside the section. -/
  | recheck
  | checkFailed
  | construct
  /-- The set-up of the trial level is due, or running, on a fixture that nobody else can see. -/
  | setUp (value : Nat)
  | publish (value : Nat)
  | condemn (mishap : Mishap)
  | leave (r : Outcome Nat)
  deriving DecidableEq

def verdict (a : Acquire) : Mishap → Outcome Nat
  | .refused problem => .failed (.setUp a.site.name ⟨.trial, .setUp⟩ problem)
  | .crashed text => .crashed text

def mishapNotes (a : Acquire) : Mishap → List Note
  | .refused problem => [.constructionFailed a.site.name problem]
  | .crashed _ => []

def step (a : Acquire) (m : Memory) : Point → Move Memory Point Nat
  | .look =>
    match m.live? a.site with
    | some f => .act m [] (.ended (.ok f))
    | none => .act m [] (.point .enter)
  | .enter =>
    if m.isEntered a.site then .blocked
    else .act (m.setEntered a.site true) [] (.point .recheck)
  | .recheck =>
    match m.live? a.site with
    | some f => .act m [] (.point (.leave (.ok f)))
    | none => .act m [] (.point .checkFailed)
  | .checkFailed =>
    if m.hasFailed a.iteration then .act m [] (.point (.leave (.failed .aborted)))
    else .act m [.constructing a.site.name] (.point .construct)
  | .construct => .ask (.construct a.site a.iteration.benchmark.parameters) fun
    | .returned value => .point (.setUp value)
    | .refused problem => .point (.condemn (.refused problem))
    | .crashed text => .point (.condemn (.crashed text))
  | .setUp value => .ask (.stage a.site value ⟨.trial, .setUp⟩) fun
    | .returned _ => .point (.publish value)
    | .refused problem => .point (.condemn (.refused problem))
    | .crashed text => .point (.condemn (.crashed text))
  | .publish value =>
    .act (m.publish a.site value) [.published a.site.name] (.point (.leave (.ok m.published)))
  | .condemn mishap =>
    .act (m.setFailed a.iteration) (m.failureNotes a.iteration ++ a.mishapNotes mishap)
      (.point (.leave (a.verdict mishap)))
  | .leave r => .act (m.setEntered a.site false) [] (.ended r)

end Acquire
end LoadBench
