import LoadBench.Number.Binary
import Mathlib.Algebra.Order.Ring.Nat
import Mathlib.Tactic.Ring

/-!
# Rounding to the nearest value

Which goals a rounded value stays below: a goal that is a multiple of the gap between the
representable values is not exceeded by what lies less than half a gap above it, or just half a gap
where the tie goes down (`Format.nearest_le_iff`). Everything else about `Format.nearest` follows
from that, the error of half a gap included.
-/

namespace LoadBench

theorem roundEven_le_iff {num den k : Nat} (hd : 0 < den) :
    roundEven num den ≤ k ↔
      2 * num < (2 * k + 1) * den ∨ 2 * num = (2 * k + 1) * den ∧ k % 2 = 0 := by
  have hnum : den * (num / den) + num % den = num := Nat.div_add_mod ..
  have hr : num % den < den := Nat.mod_lt _ hd
  have hgoal : (2 * k + 1) * den = 2 * (den * k) + den := by ring
  rw [hgoal]
  unfold roundEven
  generalize num / den = q at *
  generalize num % den = r at *
  rcases Nat.lt_trichotomy k q with hk | rfl | hk
  · have hstep : den * k + den ≤ den * q := Nat.mul_le_mul_left den hk
    dsimp only
    split_ifs <;> omega
  · dsimp only
    split_ifs <;> omega
  · have hstep : den * q + den ≤ den * k := Nat.mul_le_mul_left den hk
    dsimp only
    split_ifs <;> omega

theorem roundEven_mul_right (num den : Nat) {c : Nat} (hc : 0 < c) :
    roundEven (num * c) (den * c) = roundEven num den := by
  have hscale {a b : Nat} : 2 * (a * c) < b * c ↔ 2 * a < b := by
    rw [← Nat.mul_assoc]
    exact Nat.mul_lt_mul_right hc
  have hscale' {a b : Nat} : b * c < 2 * (a * c) ↔ b < 2 * a := by
    rw [← Nat.mul_assoc]
    exact Nat.mul_lt_mul_right hc
  simp only [roundEven, Nat.mul_div_mul_right _ _ hc, Nat.mul_mod_mul_right, hscale, hscale']

namespace Format
variable {f : Format} {num den units goal k : Nat}

theorem spacing_pos (f : Format) (units : Nat) : 0 < f.spacing units := Nat.two_pow_pos _

/-- The gap between values of few bits divides a power of two. -/
theorem spacing_dvd (hf : 0 < f.precision) (h : units < 2 ^ (f.precision + k)) :
    f.spacing units ∣ 2 ^ k := by
  have hlog : units.log2 < f.precision + k := by
    by_cases hu : units = 0
    · rw [hu, Nat.log2_zero]
      omega
    · exact (Nat.log2_lt hu).mpr h
  exact Nat.pow_dvd_pow 2 (by omega)

theorem spacing_dvd_nearest : f.spacing (num / den) ∣ f.nearest num den := Nat.dvd_mul_left ..

/-- So many units are not rounded above a goal: they exceed it by less than half a gap, or by half a
gap where the tie goes down. -/
def StaysBelow (f : Format) (units goal : Nat) : Prop :=
  2 * units < 2 * goal + f.spacing units ∨
    2 * units = 2 * goal + f.spacing units ∧ goal / f.spacing units % 2 = 0

instance (f : Format) (units goal : Nat) : Decidable (f.StaysBelow units goal) :=
  inferInstanceAs (Decidable (_ ∨ _))

theorem nearest_le_iff' (hd : 0 < den) (hg : f.spacing (num / den) ∣ goal) :
    f.nearest num den ≤ goal ↔ 2 * num < (2 * goal + f.spacing (num / den)) * den ∨
      2 * num = (2 * goal + f.spacing (num / den)) * den ∧
        goal / f.spacing (num / den) % 2 = 0 := by
  have hgap : 0 < f.spacing (num / den) := f.spacing_pos _
  have hgoal : (2 * (goal / f.spacing (num / den)) + 1) * (den * f.spacing (num / den)) =
      (2 * goal + f.spacing (num / den)) * den := by
    conv_rhs => rw [← Nat.div_mul_cancel hg]
    ring
  unfold nearest
  rw [← Nat.le_div_iff_mul_le hgap, roundEven_le_iff (Nat.mul_pos hd hgap), hgoal]

theorem nearest_le_iff (hg : f.spacing units ∣ goal) : f.nearest units 1 ≤ goal ↔
    f.StaysBelow units goal := by
  have h : f.nearest units 1 ≤ goal ↔ _ := nearest_le_iff' Nat.one_pos (by rwa [Nat.div_one])
  rwa [Nat.div_one, Nat.mul_one] at h

/-- Rounding errs by half a gap at most. -/
theorem nearest_error (hd : 0 < den) :
    2 * num ≤ (2 * f.nearest num den + f.spacing (num / den)) * den ∧
      2 * f.nearest num den * den ≤ 2 * num + f.spacing (num / den) * den := by
  have hdvd : f.spacing (num / den) ∣ f.nearest num den := spacing_dvd_nearest
  constructor
  · rcases (nearest_le_iff' hd hdvd).mp (Nat.le_refl _) with h | ⟨h, _⟩
    · exact h.le
    · exact h.le
  · have hgap : 0 < f.spacing (num / den) := f.spacing_pos _
    rcases Nat.lt_or_ge (f.nearest num den) (f.spacing (num / den)) with hlt | hge
    · rw [Nat.eq_zero_of_dvd_of_lt hdvd hlt]
      omega
    · -- a goal one gap lower is exceeded
      have hlower : ¬ f.nearest num den ≤ f.nearest num den - f.spacing (num / den) := by omega
      rw [nearest_le_iff' hd (Nat.dvd_sub hdvd (Nat.dvd_refl _)), not_or] at hlower
      have hnum := Nat.le_of_not_lt hlower.1
      have hsum : 2 * f.nearest num den * den =
          (2 * (f.nearest num den - f.spacing (num / den)) + f.spacing (num / den)) * den +
            f.spacing (num / den) * den := by
        rw [← Nat.add_mul]
        congr 1
        omega
      omega

theorem nearest_mul_right (f : Format) (num den : Nat) {c : Nat} (hc : 0 < c) :
    f.nearest (num * c) (den * c) = f.nearest num den := by
  simp only [nearest, Nat.mul_div_mul_right _ _ hc, Nat.mul_right_comm den c,
    roundEven_mul_right _ _ hc]

theorem nearest_mul_self (f : Format) (units : Nat) {c : Nat} (hc : 0 < c) :
    f.nearest (units * c) c = f.nearest units 1 := by
  have h := f.nearest_mul_right units 1 hc
  rwa [Nat.one_mul] at h

theorem nearest_of_dvd (h : f.spacing units ∣ units) : f.nearest units 1 = units := by
  have multiple {gap : Nat} (hgap : 0 < gap) :
      gap ∣ units → roundEven units (1 * gap) * gap = units := by
    rintro ⟨q, rfl⟩
    rw [Nat.mul_comm gap q, roundEven_mul_right q 1 hgap, roundEven_one]
  simp only [nearest, Nat.div_one]
  exact multiple (f.spacing_pos units) h

end Format

namespace Binary64

/-- The exponent has a name, so that nothing tries to evaluate the power. -/
theorem unit_eq : ∃ k, k = 1074 ∧ unit = 2 ^ k := by
  unfold unit
  generalize 1074 = k
  exact ⟨k, rfl, rfl⟩

theorem unit_pos : 0 < unit := by
  obtain ⟨k, -, hunit⟩ := unit_eq
  rw [hunit]
  exact Nat.two_pow_pos k

theorem spacing_dvd_unit {units : Nat} (h : units < 2 ^ 53 * unit) :
    Format.double.spacing units ∣ unit := by
  obtain ⟨k, -, hunit⟩ := unit_eq
  rw [hunit, ← Nat.pow_add] at h
  rw [hunit]
  exact Format.spacing_dvd (by decide) h

/-- What stays within 53 whole bits is far from the limit of the format. -/
theorem round_eq_finite {num den : Nat} (h : Format.double.nearest num den < 2 ^ 53 * unit)
    (negative : Bool) :
    round negative num den = .finite negative (Format.double.nearest num den) := by
  have hlimit : 2 ^ 53 * unit ≤ Nat.pow 2 2098 := by
    obtain ⟨k, hk, hunit⟩ := unit_eq
    rw [hunit, ← Nat.pow_add]
    generalize hj : 2098 = j
    exact Nat.pow_le_pow_right (by decide) (by omega)
  have hround := Nat.lt_of_lt_of_le h hlimit
  dsimp only [round]
  rw [if_pos hround]

theorem ofNat_eq {n : Nat} (h : n < 2 ^ 53) : ofNat n = .finite false (n * unit) := by
  have hunits : n * unit < 2 ^ 53 * unit := (Nat.mul_lt_mul_right unit_pos).mpr h
  have hnearest : Format.double.nearest (n * unit) 1 = n * unit :=
    Format.nearest_of_dvd (Nat.dvd_trans (spacing_dvd_unit hunits) (Nat.dvd_mul_left ..))
  rw [ofNat, round_eq_finite (by rwa [hnearest]), hnearest]

theorem lt_finite (u v : Nat) : lt (.finite false u) (.finite false v) = decide (u < v) := by
  simp [lt, position]

theorem clamp_finite {u low high : Nat} (hlow : low ≤ u) (hhigh : u ≤ high) :
    (finite false u).clamp (.finite false low) (.finite false high) = .finite false u := by
  simp [clamp, lt_finite, Nat.not_lt.mpr hlow, Nat.not_lt.mpr hhigh]

theorem max_finite (u v : Nat) :
    (finite false u).max (.finite false v) = .finite false (Nat.max u v) := by
  by_cases h : u < v
  · simp [max, lt_finite, h, Nat.max_eq_right h.le]
  · simp [max, lt_finite, h, Nat.max_eq_left (Nat.le_of_not_lt h)]

end Binary64
end LoadBench
