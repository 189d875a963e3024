import LoadBench.Proofs.Rounding
import LoadBench.Samples
import Mathlib.Tactic.Linarith

/-!
# Percentiles by nearest rank

The `p`-th percentile of `n` samples is the sample whose rank is `p` hundredths of `n`, rounded up.
The hundredths are rounded to a double, and so is their product with `n`; where the product is a
whole number, it may land just above it, and the rank is one too high.
`Samples.percentile_near_rank` says exactly when that happens, and that up to `2 ^ 45` samples
nothing worse can happen. The median is not affected.
-/

namespace LoadBench

/-- `x` is the `r`-th smallest of some numbers: fewer than `r` are smaller, and at
least `r` are no larger. -/
structure IsSmallest (r : Nat) (xs : List Nat) (x : Nat) : Prop where
  lt : xs.countP (· < x) < r
  le : r ≤ xs.countP (· ≤ x)

section
variable {r x y i : Nat} {xs ys : List Nat}

theorem IsSmallest.unique (h : IsSmallest r xs x) (h' : IsSmallest r xs y) : x = y := by
  have le {a b : Nat} (ha : IsSmallest r xs a) (hb : IsSmallest r xs b) : a ≤ b := by
    apply Nat.le_of_not_lt
    intro hlt
    have hcount : xs.countP (· ≤ b) ≤ xs.countP (· < a) :=
      List.countP_mono_left fun z _ hz => by simpa using Nat.lt_of_le_of_lt (by simpa using hz) hlt
    exact absurd (hb.le.trans hcount) (Nat.not_le_of_lt ha.lt)
  exact Nat.le_antisymm (le h h') (le h' h)

theorem IsSmallest.perm (h : IsSmallest r xs x) (hp : xs.Perm ys) : IsSmallest r ys x :=
  ⟨hp.countP_eq _ ▸ h.lt, hp.countP_eq _ ▸ h.le⟩

/-- In ascending order the `r`-th smallest number is the `r`-th one. -/
theorem isSmallest_of_pairwise (hs : xs.Pairwise (· ≤ ·)) (hx : xs[i]? = some x) :
    IsSmallest (i + 1) xs x := by
  obtain ⟨hi, rfl⟩ := List.getElem?_eq_some_iff.mp hx
  have hsplit : xs = xs.take i ++ xs[i] :: xs.drop (i + 1) := by
    rw [← List.drop_eq_getElem_cons hi, List.take_append_drop]
  have hlength : (xs.take i).length = i := List.length_take_of_le hi.le
  generalize xs[i] = x at *
  generalize xs.take i = before at *
  generalize xs.drop (i + 1) = after at *
  subst hsplit
  obtain ⟨-, hafter, hbefore⟩ := List.pairwise_append.mp hs
  obtain ⟨hafter, -⟩ := List.pairwise_cons.mp hafter
  have hbefore' : before.countP (· ≤ x) = i := by
    rw [← hlength, List.countP_eq_length]
    intro z hz
    simpa using hbefore z hz x List.mem_cons_self
  have hafter' : after.countP (· < x) = 0 := by
    rw [List.countP_eq_zero]
    intro z hz
    simpa using hafter z hz
  constructor
  · have hle : before.countP (· < x) ≤ i := hlength ▸ List.countP_le_length
    simp [List.countP_append, hafter']
    omega
  · simp [List.countP_append, hbefore']

end

namespace Binary64

/-- The double nearest to `p / 100`, in units. -/
def hundredths (p : Nat) : Nat := Format.double.nearest (p * unit) 100

end Binary64

open Binary64

namespace Samples

/-- The rank that the method of nearest rank asks for: the least one, from one on, that is no less
than `p` hundredths of `n`. -/
def nearestRank (p n : Nat) : Nat := max 1 ((p * n + 99) / 100)

variable {p n k : Nat}

theorem nearestRank_le_iff (hk : 0 < k) : nearestRank p n ≤ k ↔ p * n ≤ 100 * k := by
  unfold nearestRank
  omega

theorem hundredths_le (hp : p ≤ 100) : hundredths p ≤ unit := by
  have hunit := unit_pos
  have hshare : p * unit ≤ 100 * unit := Nat.mul_le_mul_right unit hp
  have hfew : p * unit / 100 < 2 ^ 53 * unit := by omega
  apply (Format.nearest_le_iff' (by decide) (spacing_dvd_unit hfew)).mpr
  have hgap : 0 < Format.double.spacing (p * unit / 100) := Format.spacing_pos ..
  omega

theorem mul_hundredths_le (hp : p ≤ 100) : hundredths p * n ≤ n * unit := by
  rw [Nat.mul_comm]
  exact Nat.mul_le_mul_left n (hundredths_le hp)

theorem spacing_dvd_goal (hp : p ≤ 100) (hn : n < 2 ^ 53) (k : Nat) :
    Format.double.spacing (hundredths p * n) ∣ k * unit := by
  have hunits : hundredths p * n < 2 ^ 53 * unit :=
    Nat.lt_of_le_of_lt (mul_hundredths_le hp) ((Nat.mul_lt_mul_right unit_pos).mpr hn)
  exact Nat.dvd_trans (spacing_dvd_unit hunits) (Nat.dvd_mul_left ..)

theorem nearest_mul_le (hp : p ≤ 100) (hn : n < 2 ^ 53) :
    Format.double.nearest (hundredths p * n) 1 ≤ n * unit := by
  apply (Format.nearest_le_iff (spacing_dvd_goal hp hn n)).mpr
  have hgap : 0 < Format.double.spacing (hundredths p * n) := Format.spacing_pos ..
  have hle : hundredths p * n ≤ n * unit := mul_hundredths_le hp
  exact .inl (by omega)

theorem share_eq (hp : p ≤ 100) :
    ((Binary64.ofNat p).clamp .zero (.ofNat 100)).div (.ofNat 100) =
      .finite false (hundredths p) := by
  have hunit := unit_pos
  have hne : 100 * unit ≠ 0 := by omega
  have hle : hundredths p ≤ unit := hundredths_le hp
  have hnearest : Format.double.nearest (p * unit * unit) (100 * unit) = hundredths p :=
    Format.nearest_mul_right _ _ _ hunit
  have hclamp : (Binary64.ofNat p).clamp .zero (.ofNat 100) = .finite false (p * unit) := by
    rw [ofNat_eq (by omega), ofNat_eq (by decide)]
    exact clamp_finite (Nat.zero_le _) (Nat.mul_le_mul_right unit hp)
  rw [hclamp, ofNat_eq (by decide)]
  dsimp only [Binary64.div]
  rw [if_neg hne, round_eq_finite (by omega), hnearest]
  rfl

theorem mul_ofNat (hp : p ≤ 100) (hn : n < 2 ^ 53) :
    (finite false (hundredths p)).mul (.ofNat n) =
      .finite false (Format.double.nearest (hundredths p * n) 1) := by
  have hunit := unit_pos
  have hle : Format.double.nearest (hundredths p * n) 1 ≤ n * unit := nearest_mul_le hp hn
  have hfew : n * unit < 2 ^ 53 * unit := (Nat.mul_lt_mul_right hunit).mpr hn
  have hnearest : Format.double.nearest (hundredths p * (n * unit)) unit =
      Format.double.nearest (hundredths p * n) 1 := by
    rw [← Nat.mul_assoc]
    exact Format.nearest_mul_self _ _ hunit
  rw [ofNat_eq hn]
  dsimp only [Binary64.mul]
  rw [round_eq_finite (by omega), hnearest]
  rfl

/-- The rank, with the numbers it is computed from spelt out. -/
theorem rank_ofNat (hp : p ≤ 100) (hn : n < 2 ^ 53) :
    rank (.ofNat p) n = max 1 ((Format.double.nearest (hundredths p * n) 1 + unit - 1) / unit) := by
  have hunit := unit_pos
  have hwhole : Format.double.nearest (hundredths p * n) 1 ≤ n * unit := nearest_mul_le hp hn
  have hceil : (Format.double.nearest (hundredths p * n) 1 + unit - 1) / unit ≤ n :=
    Nat.le_of_lt_succ ((Nat.div_lt_iff_lt_mul hunit).mpr (by rw [Nat.succ_mul]; omega))
  unfold rank
  dsimp only
  rw [share_eq hp, mul_ofNat hp hn]
  dsimp only [Binary64.ceil, Binary64.one]
  rw [max_finite]
  generalize (Format.double.nearest (hundredths p * n) 1 + unit - 1) / unit = q at *
  have hmax : Nat.max (q * unit) unit = max 1 q * unit := by
    calc
      Nat.max (q * unit) unit = max (1 * unit) (q * unit) := by
        rw [Nat.one_mul]
        exact Nat.max_comm ..
      _ = max 1 q * unit := Nat.mul_max_mul_right ..
  dsimp only [Binary64.toCount]
  rw [hmax, Nat.mul_div_cancel _ hunit]
  apply clipCount_of_le
  have hcount : 2 ^ 53 ≤ maxCount := by decide
  omega

/-- The rank stays below what the product of `n` and the rounded hundredths is not rounded above. -/
theorem rank_le_iff (hp : p ≤ 100) (hn : n < 2 ^ 53) (hk : 0 < k) :
    rank (.ofNat p) n ≤ k ↔ Format.double.StaysBelow (hundredths p * n) (k * unit) := by
  have hunit := unit_pos
  have hsucc : k.succ * unit = k * unit + unit := Nat.succ_mul ..
  have hceil {u : Nat} : (u + unit - 1) / unit ≤ k ↔ u ≤ k * unit := by
    rw [← Nat.lt_succ_iff, Nat.div_lt_iff_lt_mul hunit]
    omega
  rw [rank_ofNat hp hn, ← Format.nearest_le_iff (spacing_dvd_goal hp hn k), ← hceil]
  omega

/-- The roundings do not lead to another rank than the nearest one: the product of `n` and the
rounded hundredths is not rounded above that rank, but it is rounded above the one before. -/
def Faithful (p n : Nat) : Prop :=
  Format.double.StaysBelow (hundredths p * n) (nearestRank p n * unit) ∧
    (1 < nearestRank p n →
      ¬ Format.double.StaysBelow (hundredths p * n) ((nearestRank p n - 1) * unit))

instance (p n : Nat) : Decidable (Faithful p n) := inferInstanceAs (Decidable (_ ∧ _))

theorem nearestRank_pos : 0 < nearestRank p n := Nat.le_max_left ..

theorem rank_pos (hp : p ≤ 100) (hn : n < 2 ^ 53) : 0 < rank (.ofNat p) n := by
  rw [rank_ofNat hp hn]
  exact Nat.le_max_left ..

theorem rank_eq_iff (hp : p ≤ 100) (hn : n < 2 ^ 53) : rank (.ofNat p) n = nearestRank p n ↔
    Faithful p n := by
  have hrank : 0 < nearestRank p n := nearestRank_pos
  unfold Faithful
  rw [← rank_le_iff hp hn hrank]
  constructor
  · intro h
    refine ⟨h.le, fun hlt => ?_⟩
    rw [← rank_le_iff hp hn (by omega)]
    omega
  · rintro ⟨hle, hlower⟩
    rcases Nat.lt_or_ge 1 (nearestRank p n) with hlt | hone
    · have hlower := hlower hlt
      rw [← rank_le_iff hp hn (by omega)] at hlower
      omega
    · have hpos : 0 < rank (.ofNat p) n := rank_pos hp hn
      omega

theorem rank_le (hp : p ≤ 100) (hn : n < 2 ^ 53) (hpos : 0 < n) : rank (.ofNat p) n ≤ n := by
  rw [rank_le_iff hp hn hpos]
  have hle : hundredths p * n ≤ n * unit := mul_hundredths_le hp
  have hgap : 0 < Format.double.spacing (hundredths p * n) := Format.spacing_pos ..
  exact .inl (by omega)

/-! ### Where the roundings do not matter -/

theorem spacing_mul_le {units j : Nat} (hj : j ≤ 1000) (h : units * 2 ^ j < 2 ^ 53 * unit) :
    Format.double.spacing units * 2 ^ j ≤ unit := by
  obtain ⟨k, hk, hunit⟩ := unit_eq
  have hsplit : unit = 2 ^ (k - j) * 2 ^ j := by
    rw [hunit, ← Nat.pow_add, Nat.sub_add_cancel (by omega)]
  rw [hsplit, ← Nat.mul_assoc, Nat.mul_lt_mul_right (Nat.two_pow_pos j), ← Nat.pow_add] at h
  rw [hsplit]
  have hdvd := Format.spacing_dvd (f := .double) (by decide) h
  exact Nat.mul_le_mul_right _ (Nat.le_of_dvd (Nat.two_pow_pos _) hdvd)

/-- With up to `2 ^ 45` samples both roundings together are too small to matter, unless the
share is a whole number. -/
theorem rank_le_iff_of_ne (hp : p ≤ 100) (hn : n ≤ 2 ^ 45) (hk : 0 < k) (hne : p * n ≠ 100 * k) :
    rank (.ofNat p) n ≤ k ↔ nearestRank p n ≤ k := by
  have hunit := unit_pos
  have hproduct : hundredths p * n ≤ n * unit := mul_hundredths_le hp
  have hbound : n * unit ≤ 2 ^ 45 * unit := Nat.mul_le_mul_right unit hn
  have hshare : p * unit ≤ 100 * unit := Nat.mul_le_mul_right unit hp
  -- the error of the hundredths, all `n` of them
  have herror : Format.double.spacing (p * unit / 100) * n * 2 ^ 7 ≤ unit := by
    calc
      Format.double.spacing (p * unit / 100) * n * 2 ^ 7
        ≤ Format.double.spacing (p * unit / 100) * 2 ^ 45 * 2 ^ 7 :=
          Nat.mul_le_mul_right _ (Nat.mul_le_mul_left _ hn)
      _ = Format.double.spacing (p * unit / 100) * 2 ^ 52 := by rw [Nat.mul_assoc, ← Nat.pow_add]
      _ ≤ unit := spacing_mul_le (by decide) (by omega)
  have hgap : Format.double.spacing (hundredths p * n) * 2 ^ 7 ≤ unit :=
    spacing_mul_le (by decide) (by omega)
  obtain ⟨hlow, hhigh⟩ :
      2 * (p * unit) ≤ (2 * hundredths p + Format.double.spacing (p * unit / 100)) * 100 ∧
      2 * hundredths p * 100 ≤ 2 * (p * unit) + Format.double.spacing (p * unit / 100) * 100 :=
    Format.nearest_error (by decide)
  have hlow : 2 * (p * n * unit) ≤ 200 * (hundredths p * n) +
      100 * (Format.double.spacing (p * unit / 100) * n) := by
    have h := Nat.mul_le_mul_right n hlow
    linarith
  have hhigh : 200 * (hundredths p * n) ≤ 2 * (p * n * unit) +
      100 * (Format.double.spacing (p * unit / 100) * n) := by
    have h := Nat.mul_le_mul_right n hhigh
    linarith
  rw [rank_le_iff hp (by omega) hk, nearestRank_le_iff hk]
  rcases Nat.lt_or_gt_of_ne hne with hlt | hgt
  · have hstep : p * n * unit + unit ≤ 100 * (k * unit) := by
      have h := Nat.mul_le_mul_right unit (Nat.succ_le_of_lt hlt)
      linarith
    exact iff_of_true (.inl (by omega)) hlt.le
  · have hstep : 100 * (k * unit) + unit ≤ p * n * unit := by
      have h := Nat.mul_le_mul_right unit (Nat.succ_le_of_lt hgt)
      linarith
    refine iff_of_false ?_ (Nat.not_le_of_lt hgt)
    rintro (h | ⟨h, -⟩) <;> omega

/-- So the rank is the nearest one, or the next one where the share is a whole number. -/
theorem rank_of_few (hp : p ≤ 100) (hn : n ≤ 2 ^ 45) :
    rank (.ofNat p) n = nearestRank p n ∨ 100 ∣ p * n ∧
      rank (.ofNat p) n = nearestRank p n + 1 := by
  have hpos : 0 < rank (.ofNat p) n := rank_pos hp (by omega)
  have hnear : 0 < nearestRank p n := nearestRank_pos
  have hge : nearestRank p n ≤ rank (.ofNat p) n := by
    rcases Nat.lt_or_ge 1 (nearestRank p n) with hlt | hone
    · have hlower : ¬ p * n ≤ 100 * (nearestRank p n - 1) := by
        rw [← nearestRank_le_iff (by omega)]
        omega
      have hbefore := rank_le_iff_of_ne hp hn (k := nearestRank p n - 1) (by omega) (by omega)
      omega
    · omega
  by_cases heq : p * n = 100 * nearestRank p n
  · have hnext := rank_le_iff_of_ne hp hn (k := nearestRank p n + 1) (by omega) (by omega)
    rcases Nat.lt_or_ge (nearestRank p n) (rank (.ofNat p) n) with hlt | hle
    · exact .inr ⟨⟨_, heq⟩, by omega⟩
    · exact .inl (Nat.le_antisymm hle hge)
  · exact .inl (Nat.le_antisymm ((rank_le_iff_of_ne hp hn hnear heq).mpr (Nat.le_refl _)) hge)

/-- Where both roundings are exact, the rank is the nearest one. -/
theorem rank_of_exact {q : Nat} (hp : p ≤ 100) (hn : n < 2 ^ 53) (hq : 100 * q = p * unit)
    (hd : Format.double.spacing q ∣ q) (hdn : Format.double.spacing (q * n) ∣ q * n) :
    rank (.ofNat p) n = nearestRank p n := by
  have hunit := unit_pos
  have hhundredths : hundredths p = q := by
    rw [hundredths, ← hq, Nat.mul_comm, Format.nearest_mul_self _ _ (by decide),
      Format.nearest_of_dvd hd]
  have hle {k : Nat} (hk : 0 < k) : rank (.ofNat p) n ≤ k ↔ nearestRank p n ≤ k := by
    have hgoal := hhundredths ▸ spacing_dvd_goal hp hn k
    rw [rank_le_iff hp hn hk, hhundredths, ← Format.nearest_le_iff hgoal, Format.nearest_of_dvd hdn,
      nearestRank_le_iff hk]
    have hscale : 100 * (q * n) = p * n * unit := by
      rw [← Nat.mul_assoc, hq, Nat.mul_right_comm]
    have hcancel : p * n * unit ≤ 100 * k * unit ↔ p * n ≤ 100 * k := Nat.mul_le_mul_right_iff hunit
    rw [← hcancel, ← hscale, Nat.mul_assoc]
    omega
  apply Nat.le_antisymm
  · exact (hle nearestRank_pos).mpr (Nat.le_refl _)
  · exact (hle (rank_pos hp hn)).mp (Nat.le_refl _)

/-- Halves and quarters of the whole are exact, but three quarters of many samples are not. -/
theorem rank_of_half (hn : n < 2 ^ 53) (hp : p ∈ [0, 25, 50, 100]) :
    rank (.ofNat p) n = nearestRank p n := by
  have power {p j : Nat} (hp : p ≤ 100) (hj : 100 * 2 ^ j = p * unit) :
      rank (.ofNat p) n = nearestRank p n := by
    refine rank_of_exact hp hn hj (Format.spacing_dvd (by decide) ?_) ?_
    · rw [Nat.pow_add]
      exact (Nat.lt_mul_iff_one_lt_left (Nat.two_pow_pos j)).mpr (by decide)
    · refine Nat.dvd_trans (Format.spacing_dvd (k := j) (by decide) ?_) (Nat.dvd_mul_right ..)
      rw [Nat.pow_add, Nat.mul_comm]
      exact Nat.mul_lt_mul_of_pos_right hn (Nat.two_pow_pos j)
  obtain ⟨j, hunit⟩ : ∃ j, unit = 4 * 2 ^ j := by
    obtain ⟨k, hk, hunit⟩ := unit_eq
    refine ⟨k - 2, ?_⟩
    rw [hunit, show 4 = 2 ^ 2 from rfl, ← Nat.pow_add, Nat.add_sub_cancel' (by omega)]
  simp only [List.mem_cons, List.not_mem_nil, or_false] at hp
  rcases hp with rfl | rfl | rfl | rfl
  · refine rank_of_exact (q := 0) (by decide) hn (by omega) (Nat.dvd_zero _) ?_
    rw [Nat.zero_mul]
    exact Nat.dvd_zero _
  · exact power (j := j) (by decide) (by omega)
  · exact power (j := j + 1) (by decide) (by rw [Nat.pow_succ]; omega)
  · exact power (j := j + 2) (by decide) (by rw [Nat.pow_succ, Nat.pow_succ]; omega)

/-! ### Samples by rank -/

variable {s t : Samples} {x : Nat}

theorem pairwise_sorted (s : Samples) : s.sorted.Pairwise (· ≤ ·) := by
  have htrans (a b c : Nat) (hab : decide (a ≤ b) = true) (hbc : decide (b ≤ c) = true) :
      decide (a ≤ c) = true := by
    rw [decide_eq_true_eq] at *
    exact Nat.le_trans hab hbc
  have htotal (a b : Nat) : (decide (a ≤ b) || decide (b ≤ a)) = true := by
    rw [Bool.or_eq_true, decide_eq_true_eq, decide_eq_true_eq]
    exact Nat.le_total a b
  have h : s.sorted.Pairwise fun a b => decide (a ≤ b) = true :=
    List.pairwise_mergeSort htrans htotal s.toList
  simpa only [decide_eq_true_eq] using h

theorem perm_sorted (s : Samples) : s.sorted.Perm s.toList := List.mergeSort_perm ..

theorem sorted_eq_of_perm (h : s.toList.Perm t.toList) : s.sorted = t.sorted :=
  List.Perm.eq_of_pairwise (fun _ _ _ _ => Nat.le_antisymm) s.pairwise_sorted t.pairwise_sorted
    ((s.perm_sorted.trans h).trans t.perm_sorted.symm)

theorem isEmpty_iff : s.isEmpty = true ↔ s.size = 0 := Array.isEmpty_iff_size_eq_zero

theorem percentile?_eq_of_perm (h : s.toList.Perm t.toList) (percentile : Binary64) :
    s.percentile? percentile = t.percentile? percentile := by
  have hsize : s.size = t.size := by
    rw [size_eq_length, size_eq_length, h.length_eq]
  have hempty : s.isEmpty = t.isEmpty :=
    Bool.eq_iff_iff.mpr (by rw [isEmpty_iff, isEmpty_iff, hsize])
  rw [percentile?, percentile?, sorted_eq_of_perm h, hsize, hempty]

theorem exists_percentile (hp : p ≤ 100) (hn : n < 2 ^ 53) (hpos : 0 < n) (hs : s.size = n) :
    ∃ x, s.percentile? (.ofNat p) = some x ∧ IsSmallest (rank (.ofNat p) n) s.toList x := by
  have hrank : 0 < rank (.ofNat p) n := rank_pos hp hn
  have hle : rank (.ofNat p) n ≤ n := rank_le hp hn hpos
  have hlength : s.sorted.length = n := by
    rw [s.perm_sorted.length_eq, ← size_eq_length, hs]
  have hne : ¬ s.isEmpty = true := by
    rw [isEmpty_iff]
    omega
  obtain ⟨x, hx⟩ : ∃ x, s.sorted[rank (.ofNat p) n - 1]? = some x :=
    ⟨_, List.getElem?_eq_getElem (by omega)⟩
  refine ⟨x, ?_, ?_⟩
  · rw [percentile?, if_neg hne, hs, Nat.min_eq_left (by omega)]
    exact hx
  · have h := (isSmallest_of_pairwise s.pairwise_sorted hx).perm s.perm_sorted
    rwa [Nat.sub_add_cancel hrank] at h

/-- What the `p`-th percentile of `n` samples is. -/
structure NearRank (p n : Nat) : Prop where
  sample : ∀ s : Samples, s.size = n →
    ∃ x, s.percentile? (.ofNat p) = some x ∧ IsSmallest (rank (.ofNat p) n) s.toList x
  /-- Neither the order of recording nor that of merging matters. -/
  perm : ∀ s t : Samples, s.size = n → s.toList.Perm t.toList →
    s.percentile? (.ofNat p) = t.percentile? (.ofNat p)
  nearest_iff : (∀ s : Samples, s.size = n →
    ∃ x, s.percentile? (.ofNat p) = some x ∧ IsSmallest (nearestRank p n) s.toList x) ↔ Faithful p n
  few : n ≤ 2 ^ 45 → rank (.ofNat p) n = nearestRank p n ∨
    100 ∣ p * n ∧ rank (.ofNat p) n = nearestRank p n + 1
  half : p ∈ [0, 25, 50, 100] → Faithful p n

/-- A percentile is a sample by rank, and the rank is the nearest one just if the roundings on the
way do not lead to another. -/
theorem percentile_near_rank (hp : p ≤ 100) (hpos : 0 < n) (hn : n < 2 ^ 53) : NearRank p n := by
  refine ⟨fun s hs => exists_percentile hp hn hpos hs,
    fun s t _ h => percentile?_eq_of_perm h _, ?_,
    fun hfew => rank_of_few hp hfew, fun hhalf => (rank_eq_iff hp hn).mp (rank_of_half hn hhalf)⟩
  rw [← rank_eq_iff hp hn]
  constructor
  · -- samples that are all different tell the ranks apart
    intro h
    have hrank : 0 < rank (.ofNat p) n := rank_pos hp hn
    have hle : rank (.ofNat p) n ≤ n := rank_le hp hn hpos
    have smallest {r : Nat} (hr : 0 < r) (hle : r ≤ n) : IsSmallest r (List.range n) (r - 1) := by
      have hget : (List.range n)[r - 1]? = some (r - 1) := List.getElem?_range (by omega)
      have h := isSmallest_of_pairwise List.pairwise_le_range hget
      rwa [Nat.sub_add_cancel hr] at h
    have hsize : (Samples.ofList (List.range n)).size = n := by
      rw [size_eq_length, toList_ofList, List.length_range]
    obtain ⟨x, hx, hsmallest⟩ := exists_percentile hp hn hpos hsize
    obtain ⟨y, hy, hnearest⟩ := h _ hsize
    cases hx.symm.trans hy
    have hxrank : x = rank (.ofNat p) n - 1 := hsmallest.unique (smallest hrank hle)
    have hnear : nearestRank p n ≤ n := by
      rw [nearestRank_le_iff hpos]
      exact Nat.mul_le_mul_right n hp
    have hxnear : x = nearestRank p n - 1 := hnearest.unique (smallest nearestRank_pos hnear)
    have hpos' : 0 < nearestRank p n := nearestRank_pos
    omega
  · intro h s hs
    rw [← h]
    exact exists_percentile hp hn hpos hs

theorem percentile_near_rank_five :
    30 ≤ 100 ∧ 0 < 5 ∧ 5 < 2 ^ 53 ∧
      (Samples.ofList [50, 15, 40, 20, 35]).percentile? (.ofNat 30) = some 20 := by
  have hnear : NearRank 30 5 := percentile_near_rank (by decide) (by decide) (by decide)
  have hfaithful : Faithful 30 5 := by decide +kernel
  obtain ⟨x, hx, hsmallest⟩ :=
    hnear.nearest_iff.mpr hfaithful (Samples.ofList [50, 15, 40, 20, 35]) rfl
  have hsecond : IsSmallest 2 [50, 15, 40, 20, 35] 20 := ⟨by decide, by decide⟩
  refine ⟨by decide, by decide, by decide, ?_⟩
  rw [hx, hsmallest.unique hsecond]

/-- Of 25 samples the 28th percentile should be the seventh, but 28 hundredths are rounded up. -/
theorem percentile_off_rank :
    let s := Samples.ofList ((List.range 25).map (· + 1))
    s.size = 25 ∧ nearestRank 28 25 = 7 ∧ IsSmallest 7 s.toList 7 ∧
      s.percentile? (.ofNat 28) = some 8 := by
  intro s
  have hrank : rank (.ofNat 28) 25 = 8 := by decide +kernel
  obtain ⟨x, hx, hsmallest⟩ :=
    exists_percentile (p := 28) (n := 25) (s := s) (by decide) (by decide) (by decide) rfl
  rw [hrank] at hsmallest
  have heighth : IsSmallest 8 s.toList 8 := ⟨by decide, by decide⟩
  refine ⟨rfl, rfl, ⟨by decide, by decide⟩, ?_⟩
  rw [hx, hsmallest.unique heighth]

end Samples
end LoadBench
