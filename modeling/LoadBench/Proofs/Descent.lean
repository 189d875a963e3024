import LoadBench.Proofs.Parts

/-!
# How far an operation has to go

Every program point of an operation gets a rank, and a step from point to point goes down in rank,
unless the operation waits for somebody. A wait goes round: it has an end in sight because its
condition no longer holds, because it is halted, or because the trial is failing, and the order of
its points differs accordingly. What a turn or a release has before it is therefore measured for any
order of the points of a wait.
-/

namespace LoadBench

variable {now : Nat} {m m' : Memory}

theorem Move.blocked_of_andThen {μ σ τ α β : Type} {v : Move μ σ α} {embed : σ → τ}
    {onward : Outcome α → Stand τ β} (h : v.andThen embed onward = .blocked) : v = .blocked := by
  cases v with
  | blocked => rfl
  | act | ask => cases h

namespace Wait

/-- How far a wait has to go once its condition no longer holds. -/
def Point.untilFree : Point → Nat
  | .doze .. => 4
  | .checkFailed .. => 3
  | .checkInterrupted .. => 2
  | .poll .. => 1

/-- How far a wait has to go once it is halted. -/
def Point.untilHalted : Point → Nat
  | .poll .. => 4
  | .doze .. => 3
  | .checkFailed .. => 2
  | .checkInterrupted .. => 1

/-- How far a wait has to go once the trial is failing. It may have looked at
the failure flag before. -/
def Point.untilFailed : Point → Nat
  | .checkInterrupted .. => 4
  | .poll .. => 3
  | .doze .. => 2
  | .checkFailed .. => 1

theorem Point.untilFree_le (p : Point) : p.untilFree ≤ 4 := by cases p <;> simp [untilFree]

theorem Point.untilHalted_le (p : Point) : p.untilHalted ≤ 4 := by cases p <;> simp [untilHalted]

theorem Point.untilFailed_le (p : Point) : p.untilFailed ≤ 4 := by cases p <;> simp [untilFailed]

theorem descends_of_free {w : Wait} {p q : Point} (hw : ∀ n, w.holds m now n = false)
    (h : (w.step now m p).Yields m m' (.point q)) : q.untilFree < p.untilFree := by
  cases p with
  | poll n d =>
    simp only [step, hw, Bool.false_eq_true, if_false] at h
    cases h.2
  | doze n d =>
    obtain ⟨_, _, _, hq⟩ := h
    cases hq
    exact Nat.lt_succ_self 3
  | checkFailed n d =>
    simp only [step] at h
    split at h
    · cases h.2
    · cases h.2
      exact Nat.lt_succ_self 2
  | checkInterrupted n d =>
    simp only [step] at h
    split at h
    · cases h.2
    · cases h.2
      exact Nat.lt_succ_self 1

theorem descends_of_interrupted {w : Wait} {p q : Point} (hi : m.isInterrupted w.iteration = true)
    (h : (w.step now m p).Yields m m' (.point q)) : q.untilHalted < p.untilHalted := by
  cases p with
  | poll n d =>
    simp only [step] at h
    split at h
    · cases h.2
      exact Nat.lt_succ_self 3
    · cases h.2
  | doze n d =>
    obtain ⟨_, _, _, hq⟩ := h
    cases hq
    exact Nat.lt_succ_self 2
  | checkFailed n d =>
    simp only [step] at h
    split at h
    · cases h.2
    · cases h.2
      exact Nat.lt_succ_self 1
  | checkInterrupted n d =>
    simp only [step, hi, if_true] at h
    cases h.2

theorem descends_of_failed {w : Wait} {p q : Point} (hf : m.hasFailed w.iteration = true)
    (h : (w.step now m p).Yields m m' (.point q)) : q.untilFailed < p.untilFailed := by
  cases p with
  | poll n d =>
    simp only [step] at h
    split at h
    · cases h.2
      exact Nat.lt_succ_self 2
    · cases h.2
  | doze n d =>
    obtain ⟨_, _, _, hq⟩ := h
    cases hq
    exact Nat.lt_succ_self 1
  | checkFailed n d =>
    simp only [step, hf, if_true] at h
    cases h.2
  | checkInterrupted n d =>
    simp only [step] at h
    split at h
    · cases h.2
    · cases h.2
      exact Nat.lt_succ_self 3

theorem not_blocked {w : Wait} {p : Point} : w.step now m p ≠ .blocked := by
  intro h
  cases p with
  | doze => cases h
  | poll | checkFailed | checkInterrupted =>
    simp only [step] at h
    split at h <;> cases h

end Wait

variable {r : Wait.Point → Nat}

namespace Turn
variable {t : Turn} {p q : Point}

/-- How far a turn has to go, if waiting goes by the order `r`. -/
def Point.rank (r : Wait.Point → Nat) : Point → Nat
  | .enter => 6
  | .checkFailed => 5
  | .checkReady => 4
  | .hook => 3
  | .condemn _ | .commit => 2
  | .leave _ => 1
  | .queued (.waiting p) => 1 + r p
  | .queued .checkFailed => 0

theorem Point.rank_le (hr : ∀ p, r p ≤ 4) (p : Point) : p.rank r ≤ 6 := by
  cases p with
  | queued p =>
    cases p with
    | waiting p => exact Nat.le_trans (Nat.add_le_add_left (hr p) 1) (by decide)
    | checkFailed => exact Nat.zero_le 6
  | _ => simp [rank]

theorem descends (hr : ∀ p, r p ≤ 4)
    (hw : ∀ {p' q'}, p = .queued (.waiting p') →
      (t.idling.wait.step now m p').Yields m m' (.point q') → r q' < r p')
    (h : (t.step now m p).Yields m m' (.point q)) : q.rank r < p.rank r := by
  cases p with
  | queued p =>
    obtain ⟨u, hu, hq⟩ := Move.yields_andThen.mp h
    cases p with
    | checkFailed =>
      obtain ⟨_, rfl⟩ := hu
      cases hq
    | waiting p =>
      obtain ⟨v, hv, rfl⟩ := Move.yields_andThen.mp hu
      cases v with
      | point v =>
        cases hq
        exact Nat.add_lt_add_left (hw rfl hv) 1
      | ended o =>
        cases o with
        | ok v =>
          cases hq
          exact Nat.lt_of_lt_of_le Nat.one_pos (Nat.le_add_right 1 _)
        | failed e | crashed text => cases hq
  | enter =>
    have hs := step_of_yields h
    cases hs with
    | enter => exact Nat.lt_succ_self 5
    | @queue p => exact Nat.lt_of_le_of_lt (Nat.add_le_add_left (hr p) 1) (Nat.lt_succ_self 5)
  | _ =>
    have hs := step_of_yields h
    cases hs <;> simp [Point.rank]

theorem not_blocked : t.step now m p ≠ .blocked := by
  intro h
  cases p with
  | enter => cases hg : (m.gate t.fixture t.stage).enter? <;> simp [step, hg] at h
  | queued p =>
    cases p with
    | waiting p => exact Wait.not_blocked (Move.blocked_of_andThen (Move.blocked_of_andThen h))
    | checkFailed => cases h
  | checkFailed | checkReady =>
    simp only [step] at h
    split at h <;> cases h
  | hook | condemn | commit | leave => cases h

end Turn

namespace Clear
variable {c : Clear} {p q : Point}

def Point.rank : Point → Nat
  | .enter => 3
  | .store => 2
  | .leave => 1

theorem Step.descends (h : c.Step m p m' (.point q)) : q.rank < p.rank := by
  cases h <;> simp [Point.rank]

theorem of_blocked (h : c.step m p = .blocked) : p = .enter ∧ m.isEntered c.site = true := by
  cases p with
  | enter =>
    simp only [step] at h
    split at h
    · exact ⟨rfl, ‹_›⟩
    · cases h
  | store | leave => cases h

end Clear

namespace Release
variable {a : Release} {p q : Point}

def Point.rank (r : Wait.Point → Nat) : Point → Nat
  | .look => 11
  | .cleaning _ p => 4 + p.rank r
  | .checkFailed => 4
  | .clearing _ p => p.rank

theorem descends (hr : ∀ p, r p ≤ 4)
    (hw : ∀ {f p' q'}, p = .cleaning f (.queued (.waiting p')) →
      ((a.turn f).idling.wait.step now m p').Yields m m' (.point q') → r q' < r p')
    (h : (a.step now m p).Yields m m' (.point q)) : q.rank r < p.rank r := by
  cases p with
  | cleaning f p =>
    obtain ⟨u, hu, hq⟩ := Move.yields_andThen.mp h
    cases u with
    | point u =>
      cases hq
      refine Nat.add_lt_add_left (Turn.descends hr (fun hp => hw (by rw [hp])) hu) 4
    | ended o =>
      cases o with
      | ok v | failed e =>
        cases hq
        exact Nat.lt_of_lt_of_le (Nat.lt_succ_self 3) (Nat.le_add_right 4 _)
      | crashed text => cases hq
  | look =>
    have hs := step_of_yields h
    cases hs <;> simp [Point.rank, Turn.Point.rank]
  | checkFailed =>
    have hs := step_of_yields h
    cases hs <;> exact Nat.lt_succ_self 3
  | clearing o p =>
    have hs := step_of_yields h
    cases hs with
    | clearing hc => exact hc.descends

theorem of_blocked (h : a.step now m p = .blocked) :
    (∃ o, p = .clearing o .enter) ∧ m.isEntered a.site = true := by
  cases p with
  | look => cases hl : m.live? a.site <;> simp [step, hl] at h
  | cleaning f p => exact absurd (Move.blocked_of_andThen h) Turn.not_blocked
  | checkFailed => cases h
  | clearing o p =>
    obtain ⟨rfl, he⟩ := Clear.of_blocked (Move.blocked_of_andThen h)
    exact ⟨⟨o, rfl⟩, he⟩

end Release

namespace Acquire
variable {a : Acquire} {p q : Point}

def Point.rank : Point → Nat
  | .look => 8
  | .enter => 7
  | .recheck => 6
  | .checkFailed => 5
  | .construct => 4
  | .setUp _ => 3
  | .publish _ | .condemn _ => 2
  | .leave _ => 1

theorem Step.descends (h : a.Step m p m' (.point q)) : q.rank < p.rank := by
  cases h <;> simp [Point.rank]

theorem of_blocked (h : a.step m p = .blocked) : p = .enter ∧ m.isEntered a.site = true := by
  cases p with
  | enter =>
    simp only [step] at h
    split at h
    · exact ⟨rfl, ‹_›⟩
    · cases h
  | look | recheck => cases hl : m.live? a.site <;> simp [step, hl] at h
  | checkFailed =>
    simp only [step] at h
    split at h <;> cases h
  | _ => cases h

end Acquire
end LoadBench
