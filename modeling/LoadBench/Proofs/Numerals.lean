import LoadBench.Number.Integer

/-!
# Which texts are numbers

A reader that gives up as soon as a value leaves the range can do so because a value never comes
back: each further digit leads away from zero. So what it accepts are the numerals whose value lies
in the range, as far as zero does itself (`IntegerKind.read_eq_ok_iff`), and the text of such a
value is read back (`IntegerKind.read_toString`).
-/

namespace LoadBench

theorem digit?_eq (c : Char) :
    digit? c = if c.isDigit = true then some (c.toNat - '0'.toNat) else none := by
  have hiff : ('0' ≤ c ∧ c ≤ '9') ↔ c.isDigit = true := Char.isDigit_iff_toNat.symm
  simp only [digit?, hiff]

/-- Further digits do not make a number smaller. -/
theorem le_ofDigitChars (digits : List Char) (n : Nat) : n ≤ Nat.ofDigitChars 10 digits n := by
  rw [Nat.ofDigitChars_eq_ofDigitChars_zero]
  have hpow : 0 < 10 ^ digits.length := Nat.pow_pos (by decide)
  exact Nat.le_trans (Nat.le_mul_of_pos_left n hpow) (Nat.le_add_right ..)

namespace IntegerKind

structure IsDigits (digits : List Char) : Prop where
  ne_nil : digits ≠ []
  isDigit : ∀ c ∈ digits, c.isDigit = true

/-- What a text denotes: digits, after an optional sign. A minus sign belongs to kinds
with negative values. -/
inductive Denotes (k : IntegerKind) : List Char → Int → Prop where
  | bare {digits : List Char} (h : IsDigits digits) :
      Denotes k digits (Nat.ofDigitChars 10 digits 0)
  | plus {digits : List Char} (h : IsDigits digits) :
      Denotes k ('+' :: digits) (Nat.ofDigitChars 10 digits 0)
  | minus {digits : List Char} (hk : k.least < 0) (h : IsDigits digits) :
      Denotes k ('-' :: digits) (-(Nat.ofDigitChars 10 digits 0))

/-- The values in the range, zero included. -/
def InRange (k : IntegerKind) (v : Int) : Prop := k.least ≤ v ∧ v ≤ k.greatest

structure Contains (k : IntegerKind) (v : Int) : Prop where
  inRange : k.InRange v
  ne_zero : k.nonzero = true → v ≠ 0

/-- The kinds of machine integers: so many bits, with or without a sign, and
perhaps without zero. -/
inductive Machine : IntegerKind → Prop where
  | unsigned (bits : Nat) : Machine (.unsigned bits)
  | signed (bits : Nat) : Machine (.signed bits)
  | withoutZero {k : IntegerKind} (hk : Machine k) : Machine k.withoutZero

theorem Machine.inRange_zero {k : IntegerKind} (hk : Machine k) : k.InRange 0 := by
  induction hk with
  | unsigned bits =>
    have hpow : 0 < (2 : Int) ^ bits := Int.pow_pos (by decide)
    exact ⟨Int.le_refl 0, Int.le_sub_one_of_lt hpow⟩
  | signed bits =>
    have hpow : 0 < (2 : Int) ^ (bits - 1) := Int.pow_pos (by decide)
    exact ⟨Int.neg_nonpos_of_nonneg (Int.le_of_lt hpow), Int.le_sub_one_of_lt hpow⟩
  | withoutZero hk ih => exact ih

variable {k : IntegerKind} {v : Int} {digits text : List Char} {negative : Bool} {n : Nat}

def withSign (negative : Bool) (n : Nat) : Int := if negative then -n else n

@[simp] theorem withSign_true (n : Nat) : withSign true n = -n := rfl

@[simp] theorem withSign_false (n : Nat) : withSign false n = n := rfl

/-! ### Reading digits -/

/-- A number beyond the range is not reached on the way to one in it. -/
theorem inRange_withSign (hk : k.InRange 0) {m : Nat} (hle : n ≤ m)
    (h : k.InRange (withSign negative m)) :
    k.InRange (withSign negative n) := by
  obtain ⟨hleast, hgreatest⟩ := hk
  obtain ⟨hlow, hhigh⟩ := h
  unfold InRange
  cases negative with
  | true =>
    simp only [withSign_true] at *
    omega
  | false =>
    simp only [withSign_false] at *
    omega

theorem readDigits_cons (k : IntegerKind) (negative : Bool) (n : Nat) (c : Char) (rest : List Char)
    (hc : c.isDigit = true) (next : Nat) (hnext : next = 10 * n + (c.toNat - '0'.toNat)) :
    k.readDigits negative (withSign negative n) (c :: rest) =
      if k.greatest < withSign negative next then .error .tooLarge
      else if withSign negative next < k.least then .error .tooSmall
      else k.readDigits negative (withSign negative next) rest := by
  have hvalue : (if negative then 10 * withSign negative n - ((c.toNat - '0'.toNat : Nat) : Int)
      else 10 * withSign negative n + ((c.toNat - '0'.toNat : Nat) : Int)) =
        withSign negative next := by
    subst hnext
    cases negative with
    | true =>
      simp only [if_true, withSign_true]
      omega
    | false =>
      simp only [Bool.false_eq_true, if_false, withSign_false]
      omega
  rw [readDigits, digit?_eq, if_pos hc]
  simp only [hvalue]

theorem readDigits_eq_ok_iff (hk : k.InRange 0) (hn : k.InRange (withSign negative n)) :
    k.readDigits negative (withSign negative n) digits = .ok v ↔
      (∀ c ∈ digits, c.isDigit = true) ∧ v = withSign negative (Nat.ofDigitChars 10 digits n) ∧
        k.InRange v := by
  induction digits generalizing n with
  | nil =>
    simp only [readDigits, Except.ok.injEq, List.not_mem_nil, false_implies, implies_true, true_and,
      Nat.ofDigitChars_nil]
    constructor
    · rintro rfl
      exact ⟨rfl, hn⟩
    · rintro ⟨rfl, -⟩
      rfl
  | cons c rest ih =>
    by_cases hc : c.isDigit = true
    · obtain ⟨next, hnext⟩ : ∃ next, next = 10 * n + (c.toNat - '0'.toNat) := ⟨_, rfl⟩
      rw [readDigits_cons k negative n c rest hc next hnext, Nat.ofDigitChars_cons, ← hnext,
        List.forall_mem_cons, and_iff_right hc]
      by_cases hrange : k.InRange (withSign negative next)
      · rw [if_neg (Int.not_lt.mpr hrange.2), if_neg (Int.not_lt.mpr hrange.1)]
        exact ih hrange
      · -- what comes of further digits is no closer to zero
        have hnot : ¬ k.InRange (withSign negative (Nat.ofDigitChars 10 rest next)) :=
          fun h => hrange (inRange_withSign hk (le_ofDigitChars rest next) h)
        refine iff_of_false (fun h => ?_) fun ⟨_, hv, hin⟩ => hnot (hv ▸ hin)
        split at h
        · cases h
        · split at h
          · cases h
          · exact hrange ⟨by omega, by omega⟩
    · rw [readDigits, digit?_eq, if_neg hc]
      exact iff_of_false nofun fun h => hc (h.1 c List.mem_cons_self)

/-! ### Reading a text -/

theorem IsDigits.head_ne {c : Char} {rest : List Char} (h : IsDigits (c :: rest)) :
    c ≠ '+' ∧ c ≠ '-' := by
  have hc := h.isDigit c List.mem_cons_self
  constructor <;> rintro rfl <;> cases hc

theorem readDigits_zero_eq_ok_iff (hk : k.InRange 0) (hne : digits ≠ []) :
    k.readDigits negative 0 digits = .ok v ↔
      IsDigits digits ∧ v = withSign negative (Nat.ofDigitChars 10 digits 0) ∧ k.InRange v := by
  have hzero : withSign negative 0 = 0 := by cases negative <;> rfl
  have hread : k.readDigits negative (withSign negative 0) digits = .ok v ↔ _ :=
    readDigits_eq_ok_iff hk (hzero ▸ hk)
  rw [hzero] at hread
  rw [hread]
  exact and_congr_left fun _ => ⟨fun h => ⟨hne, h⟩, IsDigits.isDigit⟩

theorem denotes_plus : k.Denotes ('+' :: digits) v ↔
    IsDigits digits ∧ v = withSign false (Nat.ofDigitChars 10 digits 0) := by
  constructor
  · intro h
    cases h with
    | bare h => exact absurd rfl h.head_ne.1
    | plus h => exact ⟨h, rfl⟩
  · rintro ⟨h, rfl⟩
    exact .plus h

theorem denotes_minus : k.Denotes ('-' :: digits) v ↔
    k.least < 0 ∧ IsDigits digits ∧ v = withSign true (Nat.ofDigitChars 10 digits 0) := by
  constructor
  · intro h
    cases h with
    | bare h => exact absurd rfl h.head_ne.2
    | minus hk h => exact ⟨hk, h, rfl⟩
  · rintro ⟨hk, h, rfl⟩
    exact .minus hk h

theorem denotes_bare (hplus : ∀ rest, text ≠ '+' :: rest) (hminus : ∀ rest, text ≠ '-' :: rest) :
    k.Denotes text v ↔ IsDigits text ∧ v = withSign false (Nat.ofDigitChars 10 text 0) := by
  constructor
  · intro h
    cases h with
    | bare h => exact ⟨h, rfl⟩
    | plus h => exact absurd rfl (hplus _)
    | minus hk h => exact absurd rfl (hminus _)
  · rintro ⟨h, rfl⟩
    exact .bare h

theorem not_isDigits_nil : ¬ IsDigits [] := fun h => h.ne_nil rfl

theorem not_denotes_nil : ¬ k.Denotes [] v := by
  rintro ⟨h⟩
  exact not_isDigits_nil h

theorem hasNegatives_iff : k.hasNegatives = true ↔ k.least < 0 := decide_eq_true_iff

theorem readSigned_eq_ok_iff (hk : k.InRange 0) :
    k.readSigned text = .ok v ↔ k.Denotes text v ∧ k.InRange v := by
  fun_cases IntegerKind.readSigned k text with
  | case1 => exact iff_of_false nofun fun h => not_denotes_nil h.1
  | case2 => exact iff_of_false nofun fun h => not_isDigits_nil (denotes_plus.mp h.1).1
  | case3 => exact iff_of_false nofun fun h => not_isDigits_nil (denotes_minus.mp h.1).2.1
  | case4 rest hne => rw [readDigits_zero_eq_ok_iff hk hne, denotes_plus, and_assoc]
  | case5 rest hne hneg =>
    rw [readDigits_zero_eq_ok_iff hk hne, denotes_minus,
      and_iff_right (hasNegatives_iff.mp hneg), and_assoc]
  | case6 rest hne hneg =>
    exact iff_of_false nofun fun h => hneg (hasNegatives_iff.mpr (denotes_minus.mp h.1).1)
  | case7 =>
    rename_i hne _ _ hplus hminus
    rw [readDigits_zero_eq_ok_iff hk hne, denotes_bare hplus hminus, and_assoc]

theorem read_eq_ok_iff_readSigned {s : String} :
    k.read s = .ok v ↔ k.readSigned s.toList = .ok v ∧ (k.nonzero = true → v ≠ 0) := by
  unfold read
  cases k.readSigned s.toList with
  | error problem => exact iff_of_false nofun nofun
  | ok v' =>
    change (if k.nonzero = true ∧ v' = 0 then _ else Except.ok v') = Except.ok v ↔ _
    by_cases hzero : k.nonzero = true ∧ v' = 0
    · rw [if_pos hzero]
      refine iff_of_false nofun ?_
      rintro ⟨⟨⟩, hne⟩
      exact hne hzero.1 hzero.2
    · rw [if_neg hzero]
      refine ⟨?_, And.left⟩
      rintro ⟨⟩
      exact ⟨rfl, fun hn hv => hzero ⟨hn, hv⟩⟩

/-- Accepted are the numerals of the values of the kind, and no other text. -/
theorem read_eq_ok_iff (hk : k.InRange 0) {s : String} :
    k.read s = .ok v ↔ k.Denotes s.toList v ∧ k.Contains v := by
  rw [read_eq_ok_iff_readSigned, readSigned_eq_ok_iff hk, and_assoc]
  exact and_congr_right fun _ => ⟨fun h => ⟨h.1, h.2⟩, fun h => ⟨h.inRange, h.ne_zero⟩⟩

theorem isDigits_toDigits (n : Nat) : IsDigits (Nat.toDigits 10 n) where
  ne_nil := Nat.toDigits_ne_nil
  isDigit _ hc := Nat.isDigit_of_mem_toDigits (by decide) (by decide) hc

/-- The decimal text of a value denotes it. -/
theorem denotes_toString (hv : k.InRange v) : k.Denotes (toString v).toList v := by
  rw [Int.toString_eq_repr]
  cases v with
  | ofNat n =>
    have hdenotes := Denotes.bare (k := k) (isDigits_toDigits n)
    rw [Nat.ofDigitChars_ten_toDigits] at hdenotes
    rw [Int.repr, Nat.toList_repr]
    exact hdenotes
  | negSucc n =>
    have hneg : k.least < 0 := Int.lt_of_le_of_lt hv.1 (Int.negSucc_lt_zero n)
    have hdenotes := Denotes.minus hneg (isDigits_toDigits (n + 1))
    rw [Nat.ofDigitChars_ten_toDigits] at hdenotes
    rw [Int.repr, String.toList_append, Nat.toList_repr]
    exact hdenotes

theorem read_toString (hk : k.InRange 0) (hv : k.Contains v) : k.read (toString v) = .ok v :=
  (read_eq_ok_iff hk).mpr ⟨denotes_toString hv.inRange, hv⟩

end IntegerKind
end LoadBench
