import LoadBench.Number.Binary

/-!
# Latency samples

A buffer of 64-bit samples in recording order. Thinning keeps the samples at even positions.
The percentile is read off the sorted samples at a rank computed in `Binary64`.
-/

namespace LoadBench

/-- The elements at positions 0, 2, 4 and so on. -/
def everySecond {α : Type} : List α → List α
  | [] => []
  | [a] => [a]
  | a :: _ :: rest => a :: everySecond rest

theorem everySecond_sublist {α : Type} (xs : List α) : (everySecond xs).Sublist xs := by
  fun_induction everySecond xs with
  | case1 => exact .slnil
  | case2 a => exact List.Sublist.refl [a]
  | case3 a b rest ih => exact (ih.cons b).cons_cons a

theorem length_everySecond {α : Type} (xs : List α) :
    (everySecond xs).length = (xs.length + 1) / 2 := by
  fun_induction everySecond xs with
  | case1 => simp
  | case2 => simp
  | case3 a b rest ih => simp [ih]; omega

/-- Samples in the order in which they were recorded, in nanoseconds per operation. -/
structure Samples where
  recorded : Array Nat
  deriving DecidableEq

namespace Samples

def empty : Samples := ⟨#[]⟩

instance : Inhabited Samples := ⟨empty⟩

def toList (s : Samples) : List Nat := s.recorded.toList

def ofList (xs : List Nat) : Samples := ⟨xs.toArray⟩

@[simp] theorem toList_ofList (xs : List Nat) : (ofList xs).toList = xs := rfl

def size (s : Samples) : Nat := s.recorded.size

def isEmpty (s : Samples) : Bool := s.recorded.isEmpty

def add (s : Samples) (x : Nat) : Samples := ⟨s.recorded.push x⟩

@[simp] theorem toList_add (s : Samples) (x : Nat) : (s.add x).toList = s.toList ++ [x] := by
  simp [toList, add]

@[simp] theorem size_eq_length (s : Samples) : s.size = s.toList.length := by
  simp [size, toList]

/-- Discards every second sample, keeping those at even positions. -/
def thin (s : Samples) : Samples := ofList (everySecond s.toList)

@[simp] theorem toList_thin (s : Samples) : s.thin.toList = everySecond s.toList := rfl

def merge (s t : Samples) : Samples := ⟨s.recorded ++ t.recorded⟩

def sum (s : Samples) : Nat := s.recorded.foldl (· + ·) 0

def min? (s : Samples) : Option Nat := s.toList.min?

def max? (s : Samples) : Option Nat := s.toList.max?

/-- The exact sum, converted, over the converted count. -/
def mean? (s : Samples) : Option Binary64 :=
  if s.isEmpty then none else some ((Binary64.ofNat s.sum).div (Binary64.ofNat s.size))

def sorted (s : Samples) : List Nat := s.toList.mergeSort

def rank (percentile : Binary64) (n : Nat) : Nat :=
  let share := (percentile.clamp .zero (.ofNat 100)).div (.ofNat 100)
  ((share.mul (.ofNat n)).ceil.max .one).toCount

/-- The sample at a percentile between 0 and 100, by nearest rank. -/
def percentile? (s : Samples) (percentile : Binary64) : Option Nat :=
  if s.isEmpty then none
  else s.sorted[min (rank percentile s.size - 1) (s.size - 1)]?

def median? (s : Samples) : Option Nat := s.percentile? (.ofNat 50)

end Samples

/-- Samples that thin themselves: a mask that decides which batches are timed, and the number of
samples since the last thinning. -/
structure Sampler where
  samples : Samples
  mask : UInt32
  stride : Nat
  target : Nat

namespace Sampler

def start (target : Nat) (mask : UInt32) : Sampler := ⟨.empty, mask, 0, max target 1⟩

/-- A batch is timed when the bits that the mask selects are all zero. -/
def picks (r : Sampler) (draw : UInt32) : Bool := draw &&& r.mask = 0

def widen (mask : UInt32) : UInt32 := (mask <<< 1) ||| 1

/-- Appends a sample; each time as many as the target have come in, the buffer is thinned and the
mask widened, which halves both the samples kept and the rate of new ones. -/
def add (r : Sampler) (x : Nat) : Sampler :=
  let grown := { r with samples := r.samples.add x, stride := clipCount (r.stride + 1) }
  if grown.target ≤ grown.stride then
    { grown with samples := grown.samples.thin, stride := 0, mask := widen grown.mask }
  else grown

end Sampler

/-- The linear congruential generator that draws for each batch. -/
def nextDraw (draw : UInt32) : UInt32 := draw * 1664525 + 1013904223

end LoadBench
