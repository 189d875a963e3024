import LoadBench.Metric

/-!
# Operation counts near their limits

Counts of invocations are multiplied and added in 128 bits, divided by the batch, and held in 64
bits in the end. The limit of 64 bits hides the wider one: a product that leaves 128 bits exceeds
the largest count even when it is divided by the largest batch. So the operation counts are those of
unbounded arithmetic, clipped once (`operationCounts_exact`).
-/

namespace LoadBench

/-- The operation counts without any limit. -/
def wholeCounts (mode : Mode) (outside measured batch ops : Nat) : Nat × Nat :=
  match mode with
  | .throughput | .averageTime => ((outside + measured) * ops / batch, measured * ops / batch)
  | .sampleTime | .singleShot => ((outside + measured * batch) * ops / batch, measured * ops)

/-- A count and a product of counts fit together in 128 bits. -/
theorem clipWide_of_le {n : Nat} (h : n ≤ maxCount + maxCount * maxCount) : clipWide n = n := by
  have hwide : maxCount + maxCount * maxCount ≤ Nat.pow 2 128 - 1 := by decide
  exact Nat.min_eq_left (Nat.le_trans h hwide)

/-- What does not fit in 128 bits is too large for 64 bits after every division. -/
theorem clipCount_clipWide_div (n : Nat) (batch : Quantity) :
    clipCount (clipWide n / batch) = clipCount (n / batch) := by
  rcases Nat.le_total n (Nat.pow 2 128 - 1) with hn | hn
  · rw [clipWide, Nat.min_eq_left hn]
  · have hlimit : maxCount ≤ (Nat.pow 2 128 - 1) / batch := by
      apply (Nat.le_div_iff_mul_le batch.pos).mpr
      calc
        maxCount * batch ≤ maxCount * maxCount := Nat.mul_le_mul_left _ batch.le_max
        _ ≤ Nat.pow 2 128 - 1 := by decide
    have hquotient : maxCount ≤ n / batch := Nat.le_trans hlimit (Nat.div_le_div_right hn)
    rw [clipWide, Nat.min_eq_right hn, clipCount, Nat.min_eq_right hlimit, clipCount,
      Nat.min_eq_right hquotient]

theorem scaleOps_eq (n : Nat) (ops batch : Quantity) :
    scaleOps n ops batch = clipCount (n * ops / batch) :=
  clipCount_clipWide_div (n * ops) batch

/-- The limits on the way change nothing. -/
theorem operationCounts_clipped {outside measured : Nat} (ho : outside ≤ maxCount)
    (hm : measured ≤ maxCount) (mode : Mode) (batch ops : Quantity) :
    operationCounts mode outside measured batch ops =
      (clipCount (wholeCounts mode outside measured batch ops).1,
        clipCount (wholeCounts mode outside measured batch ops).2) := by
  have product {q : Quantity} : measured * q ≤ maxCount * maxCount := Nat.mul_le_mul hm q.le_max
  have hcalls : clipWide (outside + measured) = outside + measured := by
    have hsquare : maxCount ≤ maxCount * maxCount := by decide
    exact clipWide_of_le (by omega)
  have hbatches :
      clipWide (outside + clipWide (measured * batch)) = outside + measured * batch := by
    have hproduct : measured * batch.val ≤ maxCount * maxCount := product
    have hfits : clipWide (measured * batch) = measured * batch := clipWide_of_le (by omega)
    rw [hfits]
    exact clipWide_of_le (by omega)
  have hops : clipWide (measured * ops) = measured * ops :=
    clipWide_of_le (Nat.le_trans product (Nat.le_add_left ..))
  cases mode with
  | throughput | averageTime => simp only [operationCounts, wholeCounts, scaleOps_eq, hcalls]
  | sampleTime | singleShot => simp only [operationCounts, wholeCounts, scaleOps_eq, hbatches, hops]

/-- The measured operations are some of all. -/
theorem wholeCounts_le (mode : Mode) (outside measured : Nat) {batch : Nat}
    (hb : 0 < batch) (ops : Nat) :
    (wholeCounts mode outside measured batch ops).2 ≤
      (wholeCounts mode outside measured batch ops).1 := by
  have calls : measured * ops / batch ≤ (outside + measured) * ops / batch :=
    Nat.div_le_div_right (Nat.mul_le_mul_right ops (Nat.le_add_left ..))
  have batches : measured * ops ≤ (outside + measured * batch) * ops / batch := by
    apply (Nat.le_div_iff_mul_le hb).mpr
    calc
      measured * ops * batch = measured * batch * ops := Nat.mul_right_comm ..
      _ ≤ (outside + measured * batch) * ops := Nat.mul_le_mul_right ops (Nat.le_add_left ..)
  cases mode with
  | throughput | averageTime => exact calls
  | sampleTime | singleShot => exact batches

/-- The operation counts of any 64-bit counts are exact but for the limit of 64 bits, and never more
operations are measured than performed. -/
theorem operationCounts_exact {outside measured : Nat} (ho : outside ≤ maxCount)
    (hm : measured ≤ maxCount) (mode : Mode) (batch ops : Quantity) :
    operationCounts mode outside measured batch ops =
        (min maxCount (wholeCounts mode outside measured batch ops).1,
          min maxCount (wholeCounts mode outside measured batch ops).2) ∧
      (operationCounts mode outside measured batch ops).2 ≤
        (operationCounts mode outside measured batch ops).1 := by
  have hle := wholeCounts_le mode outside measured batch.pos ops
  rw [operationCounts_clipped ho hm]
  constructor
  · rw [clipCount, clipCount, Nat.min_comm _ maxCount, Nat.min_comm _ maxCount]
  · dsimp only [clipCount]
    omega

/-- Where everything is at its limit, the product on the way leaves 128 bits. -/
theorem operationCounts_exact_limit :
    let most : Quantity := ⟨maxCount, by decide, Nat.le_refl _⟩
    maxCount ≤ maxCount ∧ Nat.pow 2 128 ≤ (maxCount + maxCount * maxCount) * maxCount ∧
      operationCounts .sampleTime maxCount maxCount most most = (maxCount, maxCount) := by
  intro most
  refine ⟨Nat.le_refl _, by decide, ?_⟩
  rw [(operationCounts_exact (Nat.le_refl _) (Nat.le_refl _) .sampleTime most most).1]
  decide

end LoadBench
