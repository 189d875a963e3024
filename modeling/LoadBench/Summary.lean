import LoadBench.Metric

/-!
# Summaries

The reports of every measured iteration of a trial, one for each thread, and what is read off
them. Throughput adds up over the threads of an iteration; every other mode is averaged.
-/

namespace LoadBench

/-- The mean of some numbers, each added in turn; `nan` if there are none. -/
def meanOf (xs : List Binary64) : Binary64 :=
  if xs.isEmpty then .nan
  else (xs.foldl Binary64.add .zero).div (.ofNat xs.length)

structure Summary where
  label : String
  mode : Mode
  iterations : List (List Report)

namespace Summary

def scores (reports : List Report) : List Binary64 :=
  reports.filterMap fun r => r.primary?.map fun m => m.metric.score

def scoreOf (s : Summary) (reports : List Report) : Binary64 :=
  match s.mode with
  | .throughput => (scores reports).foldl Binary64.add .zero
  | _ => meanOf (scores reports)

def scoresByIteration (s : Summary) : List Binary64 := s.iterations.map s.scoreOf

def overallScore (s : Summary) : Binary64 := meanOf s.scoresByIteration

/-- Measured operations of all threads and iterations, as a 64-bit count. -/
def windowOps (s : Summary) : Nat :=
  s.iterations.flatten.foldl (fun n r => clipCount (n + r.windowOps)) 0

def allSamples (s : Summary) : Samples :=
  (s.iterations.flatten.flatMap Report.metrics).foldl
    (fun merged m => match m.metric with
      | .sampleTime samples _ => merged.merge samples
      | _ => merged)
    .empty

end Summary
end LoadBench
