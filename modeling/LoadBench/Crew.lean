import LoadBench.Machine

/-!
# Crews

A crew is a number of workers that all perform a task at once, each knowing its index. The crash
of a worker is its outcome, so a crew never loses a worker and can perform task after task.
-/

namespace LoadBench

structure Crew where
  threads : Quantity

namespace Crew

def perform {α : Type} (c : Crew) (task : Nat → Outcome α) : List (Outcome α) :=
  (List.range c.threads).map task

/-- A single worker, whose outcome is taken over by whoever waits for it. -/
def lone : Crew := ⟨.one⟩

/-- The outcome of a task that a single worker performs. -/
def watch {α : Type} (task : Outcome α) : Outcome α :=
  match lone.perform fun _ => task with
  | r :: _ => r
  | [] => task

end Crew
end LoadBench
