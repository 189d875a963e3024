import LoadBench.Proofs.Reservoir
import Mathlib.Data.Fintype.EquivFin

/-!
# How often a batch is picked

The draws run through all values of their lowest `k` bits before one comes again, so that among any
`2 ^ k` draws in a row exactly one picks its batch where the mask selects these bits
(`Sampler.existsUnique_picks`). A measurement that starts with such a mask therefore has a sample
once it has completed `2 ^ k` batches.
-/

namespace LoadBench
open Function

variable {seed mask : UInt32} {i j k n x : Nat}

/-- Of `2 ^ k` numbers in a row no two are the same in their lowest `k` bits. -/
theorem eq_of_iterate_modEq (hi : i < j + 2 ^ k) (hj : j < i + 2 ^ k)
    (h : advanceDraw^[i] x ≡ advanceDraw^[j] x [MOD 2 ^ k]) : i = j := by
  wlog hij : i ≤ j generalizing i j
  · exact (this hj hi h.symm (Nat.le_of_not_le hij)).symm
  have hback : advanceDraw^[j - i] (advanceDraw^[i] x) ≡ advanceDraw^[i] x [MOD 2 ^ k] := by
    rw [← iterate_add_apply, Nat.sub_add_cancel hij]
    exact h.symm
  have hzero : j - i = 0 := Nat.eq_zero_of_dvd_of_lt ((iterate_modEq_iff k _ _).mp hback) (by omega)
  omega

theorem exists_two_pow_dvd_iterate (k n x : Nat) : ∃ i < 2 ^ k, 2 ^ k ∣ advanceDraw^[n + i] x := by
  let low (i : Fin (2 ^ k)) : Fin (2 ^ k) :=
    ⟨advanceDraw^[n + i] x % 2 ^ k, Nat.mod_lt _ (Nat.two_pow_pos k)⟩
  have hinjective : Injective low := by
    intro i j h
    have h : advanceDraw^[n + i] x ≡ advanceDraw^[n + j] x [MOD 2 ^ k] := congrArg Fin.val h
    apply Fin.ext
    exact Nat.add_left_cancel (eq_of_iterate_modEq (by omega) (by omega) h)
  obtain ⟨i, hi⟩ := Finite.surjective_of_injective hinjective ⟨0, Nat.two_pow_pos k⟩
  exact ⟨i, i.isLt, Nat.dvd_of_mod_eq_zero (congrArg Fin.val hi)⟩

theorem two_pow_dvd_draw (hk : k ≤ 32) : 2 ^ k ∣ (nextDraw^[n] seed).toNat ↔
    2 ^ k ∣ advanceDraw^[n] seed.toNat := by
  rw [← Nat.modEq_zero_iff_dvd, ← Nat.modEq_zero_iff_dvd]
  have hlow := (toNat_draw seed n).of_dvd (pow_dvd_pow 2 hk)
  exact ⟨hlow.symm.trans, hlow.trans⟩

namespace Sampler
variable {r : Sampler}

theorem le_of_mask (hm : mask.toNat + 1 = 2 ^ k) : k ≤ 32 := by
  have hlt : mask.toNat < 2 ^ 32 := mask.toNat_lt
  exact (Nat.pow_le_pow_iff_right Nat.one_lt_two).mp (by omega)

theorem existsUnique_picks (hm : r.mask.toNat + 1 = 2 ^ k) (seed : UInt32) (n : Nat) :
    ∃! i, i < 2 ^ k ∧ r.picks (nextDraw^[n + i] seed) = true := by
  have hk : k ≤ 32 := le_of_mask hm
  obtain ⟨i, hi, hdvd⟩ := exists_two_pow_dvd_iterate k n seed.toNat
  have hdraw : 2 ^ k ∣ (nextDraw^[n + i] seed).toNat := (two_pow_dvd_draw hk).mpr hdvd
  refine ⟨i, ⟨hi, (picks_iff hm).mpr hdraw⟩, ?_⟩
  rintro j ⟨hj, hpick⟩
  have hpick := (two_pow_dvd_draw hk).mp ((picks_iff hm).mp hpick)
  have hsame : advanceDraw^[n + j] seed.toNat ≡ advanceDraw^[n + i] seed.toNat [MOD 2 ^ k] :=
    (Nat.modEq_zero_iff_dvd.mpr hpick).trans (Nat.modEq_zero_iff_dvd.mpr hdvd).symm
  exact Nat.add_left_cancel (eq_of_iterate_modEq (by omega) (by omega) hsame)

end Sampler

namespace Measurement
variable {s : Measurement} {log : List Batch} {r : Tally}

/-- One of the first `2 ^ k` batches is picked, and the sample of some batch is kept. -/
theorem Course.samples_ne_nil {began : Nat} (hm : s.mode = .sampleTime)
    (hmask : mask.toNat + 1 = 2 ^ k)
    (hc : s.Course (.opening began seed s.iteration.sampleQuota mask) log (.ended (.ok r)))
    (hlog : 2 ^ k ≤ log.length) : r.samples.toList ≠ [] := by
  by_cases hnone : thinnings log = 0
  · obtain ⟨sampler, hsampled, hsamples⟩ :=
      hc.drawn (j := k) hm hmask (by rw [hnone]; exact Sampler.le_of_mask hmask) r rfl
    obtain ⟨i, ⟨hi, hpick⟩, -⟩ :=
      Sampler.existsUnique_picks (r := .start s.iteration.sampleQuota mask) hmask seed 1
    have hdvd := (Sampler.picks_iff (r := .start s.iteration.sampleQuota mask) hmask).mp hpick
    have hepoch : epoch log i = thinnings log := by
      have hle : epoch log i ≤ thinnings log := epoch_le_thinnings
      omega
    have hmem : i ∈ kept log := by
      rw [hsampled.mem_iff i (by omega) hepoch, hnone, Nat.add_comm i]
      exact hdvd
    intro hnil
    have hkept := hsampled.samples
    rw [← hsamples, hnil, List.map_nil, eq_comm, List.map_eq_nil_iff] at hkept
    exact List.not_mem_nil (hkept ▸ hmem)
  · -- each thinning leaves the first sample of all
    obtain ⟨sampler, hrecorded, hsamples⟩ := hc.records r rfl
    have hquota : s.iteration.sampleQuota ≤ maxCount := clipCount_le _
    have hretained := Sampler.History.retained hquota mask (recordings log)
    have hrecordings : recordings log ≠ [] := by
      intro hnil
      apply hnone
      rw [hrecorded.thinnings, hretained.thinnings, hnil]
      exact Nat.zero_div _
    have hpos := hretained.pos hrecordings
    rw [← hrecorded.sampler, ← hsamples, Samples.size_eq_length] at hpos
    exact List.ne_nil_of_length_pos hpos

end Measurement
end LoadBench
