import LoadBench.Samples
import Mathlib.Data.Nat.ModEq
import Mathlib.Data.Nat.Bitwise
import Mathlib.Tactic.Ring

/-!
# The low bits of the draws

The multiplier of the generator is one more than a multiple of four and its increment is odd, the
conditions of Hull and Dobell for a power of two. So `2 ^ k` steps turn bit `k` over and leave the
bits below it alone, and the lowest `k` bits of two draws agree just if the draws are a multiple of
`2 ^ k` apart (`two_pow_dvd_draw_iff`). A sampler whose mask selects the lowest `k` bits therefore
picks one batch out of `2 ^ k`, always at the same distance.
-/

namespace LoadBench

open Function

/-- A step of the generator before it is cut to 32 bits. -/
def advanceDraw (x : Nat) : Nat := x * 1664525 + 1013904223

variable {seed : UInt32} {k n d x : Nat}

/-- `2 ^ k` steps together. -/
theorem exists_coefficients (k : Nat) :
    ∃ t c, ∀ x, advanceDraw^[2 ^ k] x = (1 + 2 ^ (k + 2) * t) * x + 2 ^ k * (2 * c + 1) := by
  induction k with
  | zero =>
    refine ⟨416131, 506952111, fun x => ?_⟩
    simp only [pow_zero, iterate_one, advanceDraw]
    ring
  | succ k ih =>
    obtain ⟨t, c, h⟩ := ih
    refine ⟨t + 2 ^ (k + 1) * t * t, c + 2 ^ k * t * (2 * c + 1), fun x => ?_⟩
    rw [pow_succ, mul_two, iterate_add_apply, h, h]
    ring

theorem iterate_two_pow (k x : Nat) : advanceDraw^[2 ^ k] x ≡ x + 2 ^ k [MOD 2 ^ (k + 1)] := by
  obtain ⟨t, c, h⟩ := exists_coefficients k
  have hx : advanceDraw^[2 ^ k] x = x + 2 ^ k + 2 ^ (k + 1) * (2 * t * x + c) := by
    rw [h]
    ring
  rw [hx]
  exact Nat.add_mul_mod_self_left ..

theorem iterate_two_pow_mul (k e x : Nat) :
    advanceDraw^[2 ^ k * e] x ≡ x + 2 ^ k * e [MOD 2 ^ (k + 1)] := by
  induction e with
  | zero => rfl
  | succ e ih =>
    rw [Nat.mul_succ, Nat.add_comm (2 ^ k * e), iterate_add_apply]
    calc advanceDraw^[2 ^ k] (advanceDraw^[2 ^ k * e] x)
        ≡ advanceDraw^[2 ^ k * e] x + 2 ^ k [MOD 2 ^ (k + 1)] := iterate_two_pow ..
      _ ≡ x + 2 ^ k * e + 2 ^ k [MOD 2 ^ (k + 1)] := ih.add_right _
      _ = x + (2 ^ k + 2 ^ k * e) := by ring

theorem iterate_modEq_iff (k d x : Nat) : advanceDraw^[d] x ≡ x [MOD 2 ^ k] ↔ 2 ^ k ∣ d := by
  induction k with
  | zero => simp [Nat.modEq_one]
  | succ k ih =>
    -- either side says so of the lower bits already
    by_cases hd : 2 ^ k ∣ d
    · obtain ⟨e, rfl⟩ := hd
      have hsteps := iterate_two_pow_mul k e x
      rw [pow_succ, Nat.mul_dvd_mul_iff_left (Nat.two_pow_pos k), ← Nat.modEq_zero_iff_dvd]
      constructor
      · intro h
        have hsum : x + 2 ^ k * e ≡ x + 2 ^ k * 0 [MOD 2 ^ (k + 1)] := hsteps.symm.trans h
        rw [pow_succ] at hsum
        exact Nat.ModEq.mul_left_cancel' (Nat.two_pow_pos k).ne' (Nat.ModEq.add_left_cancel' x hsum)
      · intro h
        have hsum : x + 2 ^ k * e ≡ x + 2 ^ k * 0 [MOD 2 ^ k * 2] :=
          (h.mul_left' (2 ^ k)).add_left x
        exact hsteps.trans hsum
    · have hlow : 2 ^ k ∣ 2 ^ (k + 1) := ⟨2, pow_succ 2 k⟩
      exact iff_of_false (fun h => hd (ih.mp (h.of_dvd hlow))) fun h => hd (hlow.trans h)

theorem toNat_draw (seed : UInt32) (n : Nat) :
    (nextDraw^[n] seed).toNat ≡ advanceDraw^[n] seed.toNat [MOD 2 ^ 32] := by
  induction n with
  | zero => rfl
  | succ n ih =>
    rw [iterate_succ_apply', iterate_succ_apply']
    have hstep : (nextDraw (nextDraw^[n] seed)).toNat ≡
        advanceDraw (nextDraw^[n] seed).toNat [MOD 2 ^ 32] := by
      simp [nextDraw, advanceDraw, Nat.ModEq]
    exact hstep.trans ((ih.mul_right _).add_right _)

/-- Between two draws whose lowest `k` bits are zero there are multiples of `2 ^ k` steps. -/
theorem two_pow_dvd_draw_iff (hk : k ≤ 32) (hn : 2 ^ k ∣ (nextDraw^[n] seed).toNat) :
    2 ^ k ∣ (nextDraw^[n + d] seed).toNat ↔ 2 ^ k ∣ d := by
  have hlow (m : Nat) : (nextDraw^[m] seed).toNat ≡ advanceDraw^[m] seed.toNat [MOD 2 ^ k] :=
    (toNat_draw seed m).of_dvd (pow_dvd_pow 2 hk)
  have hzero : advanceDraw^[n] seed.toNat ≡ 0 [MOD 2 ^ k] :=
    (hlow n).symm.trans (Nat.modEq_zero_iff_dvd.mpr hn)
  rw [← iterate_modEq_iff k d (advanceDraw^[n] seed.toNat), ← iterate_add_apply, Nat.add_comm d,
    ← Nat.modEq_zero_iff_dvd]
  exact ⟨fun h => ((hlow _).symm.trans h).trans hzero.symm, fun h => (hlow _).trans (h.trans hzero)⟩

namespace Sampler
variable {r : Sampler} {mask draw : UInt32}

theorem picks_iff (hm : r.mask.toNat + 1 = 2 ^ k) : r.picks draw = true ↔ 2 ^ k ∣ draw.toNat := by
  have hmask : r.mask.toNat = 2 ^ k - 1 := by omega
  rw [picks, decide_eq_true_iff, ← UInt32.toNat_inj, UInt32.toNat_and, hmask,
    Nat.and_two_pow_sub_one_eq_mod]
  exact Nat.dvd_iff_mod_eq_zero.symm

/-- The highest bit is lost when a mask of 32 bits is widened. -/
theorem toNat_widen_eq (mask : UInt32) : (widen mask).toNat = 2 * mask.toNat % 2 ^ 32 + 1 := by
  have hshift : (mask <<< 1).toNat = 2 * (mask.toNat % 2 ^ 31) := by
    rw [UInt32.toNat_shiftLeft]
    simp only [Nat.shiftLeft_eq]
    change mask.toNat * 2 % 2 ^ 32 = _
    omega
  have hor : 2 * (mask.toNat % 2 ^ 31) ||| 1 = 2 * (mask.toNat % 2 ^ 31) + 1 :=
    (Nat.two_pow_add_eq_or_of_lt (i := 1) (by decide) _).symm
  rw [widen, UInt32.toNat_or, hshift]
  change 2 * (mask.toNat % 2 ^ 31) ||| 1 = _
  omega

theorem toNat_widen (hm : mask.toNat + 1 = 2 ^ k) (hk : k < 32) :
    (widen mask).toNat + 1 = 2 ^ (k + 1) := by
  have hle : 2 ^ (k + 1) ≤ 2 ^ 32 := Nat.pow_le_pow_right Nat.two_pos hk
  have hpow : 2 ^ (k + 1) = 2 * 2 ^ k := by rw [pow_succ, Nat.mul_comm]
  rw [toNat_widen_eq, Nat.mod_eq_of_lt (by omega)]
  omega

end Sampler
end LoadBench
