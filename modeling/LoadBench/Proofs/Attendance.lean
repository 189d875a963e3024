import LoadBench.Proofs.Passage

/-!
# Attendance

A pass announces itself at up to four checkpoints: the two rendezvous, and in between the warmup
loop and the warmdown loop. A member's mark says how many of them it has come through; the counts
of an iteration are the numbers of members with high enough marks (`Attendance`). So a count that
is complete says something about every member, whatever became of it since.

Marks are not part of the program. Where a pass has failed or unwound, its point alone no longer
tells its mark.
-/

namespace LoadBench

/-- The places where a pass announces itself, in the order in which it comes to them. -/
inductive Checkpoint where
  | setUp
  | warmup
  | warmdown
  | tearDown
  deriving DecidableEq, Repr

namespace Checkpoint

/-- How many checkpoints a pass has come through right after this one. -/
def rank : Checkpoint → Nat
  | setUp => 1
  | warmup => 2
  | warmdown => 3
  | tearDown => 4

def count : Checkpoint → Signals → Nat
  | setUp, s => s.setUpArrivals
  | warmup, s => s.warmupReady
  | warmdown, s => s.warmdownReady
  | tearDown, s => s.tearDownArrivals

/-- Without warm loops a pass comes by the places in between without a word. -/
def isKept (mode : Mode) : Checkpoint → Bool
  | setUp | tearDown => true
  | warmup | warmdown => mode.hasWarmLoops

end Checkpoint

/-! ### What the parts leave alone -/

theorem Turn.Step.signalsOf {t : Turn} {m m' : Memory} {p : Turn.Point} {s : Stand Turn.Point Unit}
    (h : t.Step m p m' s) (c : Iteration) : m'.signalsOf c = m.signalsOf c := by
  cases h <;> rfl

theorem Acquire.Step.signalsOf {a : Acquire} {m m' : Memory} {p : Acquire.Point}
    {s : Stand Acquire.Point Nat} (h : a.Step m p m' s) (c : Iteration) :
    m'.signalsOf c = m.signalsOf c := by
  cases h <;> rfl

theorem Clear.Step.signalsOf {a : Clear} {m m' : Memory} {p : Clear.Point}
    {s : Stand Clear.Point Unit} (h : a.Step m p m' s) (c : Iteration) :
    m'.signalsOf c = m.signalsOf c := by
  cases h <;> rfl

theorem Release.Step.signalsOf {a : Release} {m m' : Memory} {p : Release.Point}
    {s : Stand Release.Point Unit} (h : a.Step m p m' s) (c : Iteration) :
    m'.signalsOf c = m.signalsOf c := by
  cases h with
  | cleaning ht | cleaned ht | crashed ht => exact ht.signalsOf c
  | clearing hc | cleared hc => exact hc.signalsOf c
  | _ => rfl

theorem Measurement.Step.count {s : Measurement} {m m' : Memory} {p : Measurement.Point}
    {t : Stand Measurement.Point Tally} (h : s.Step m p m' t) (k : Checkpoint) :
    k.count (m'.signalsOf s.iteration) = k.count (m.signalsOf s.iteration) := by
  cases h with
  | widenMask => cases k <;> simp [Checkpoint.count, Signals.widenMask]
  | _ => rfl

/-! ### Marks -/

/-- The marks of a pass that failed or crashed in a phase. -/
def Phase.Passed : Phase → Nat → Prop
  | .init, r => r ≤ 1
  | .warmup, r | .measuring, r => r = 2
  | .warmdown, r => r = 3 ∨ r = 4
  | .trialTeardown, r | .done, r => r = 4

/-- The hook of a turn went wrong, or there is nothing left of the turn but to
leave without success. -/
def Turn.Point.Doomed : Turn.Point → Prop
  | .condemn _ => True
  | .leave r => r.isOk = false
  | _ => False

namespace Pass

def Point.Passed : Point → Nat → Prop
  | .begin, r | .reject, r | .acquire _, r | .arrive _ .announce, r => r = 0
  | .arrive _ (.waiting _), r | .setUp .., r | .enterWarmup _, r => r = 1
  | .warmupGate .., r | .warmupWork .., r | .noteStart .., r | .measure .., r | .noteStop .., r
  | .enterWarmdown .., r => r = 2
  | .warmdownGate .., r | .warmdownWork .., r | .depart _ _ .announce, r => r = 3
  | .depart _ _ (.waiting _), r | .checkInterrupted .., r | .checkFailed .., r | .force .., r
  | .tearDown .., r | .enterRelease _, r | .release .., r | .finish .., r => r = 4
  | .fail phase _, r | .condemn phase _, r => phase.Passed r

/-- The failure or the crash of the part that a pass is in is decided
already, or that of the pass. -/
def Doomed : Stand Point Report → Prop
  | .point (.acquire (.condemn _)) | .point .reject | .point (.fail ..)
  | .point (.condemn ..) => True
  | .point (.acquire (.leave r)) => r.isOk = false
  | .point (.setUp _ p) | .point (.tearDown _ _ p) | .point (.release _ (.cleaning _ p)) => p.Doomed
  | .point (.release _ (.clearing r _)) => r.isOk = false
  | .ended (.failed _) | .ended (.crashed _) => True
  | _ => False

/-- A pass with a result has come through every checkpoint; any other may have ended anywhere. -/
def Passed : Stand Point Report → Nat → Prop
  | .point p, r => p.Passed r
  | .ended (.ok _), r => r = 4
  | .ended _, r => r ≤ 4

theorem passed_le_four {t : Stand Point Report} {r : Nat} (h : Passed t r) : r ≤ 4 := by
  cases t with
  | ended o =>
    cases o with
    | ok _ => exact Nat.le_of_eq h
    | failed _ | crashed _ => exact h
  | point p =>
    cases p with
    | arrive f p | depart f t p => cases p <;> simp only [Passed, Point.Passed] at h <;> omega
    | fail phase _ | condemn phase _ =>
      cases phase <;> simp only [Passed, Point.Passed, Phase.Passed] at h <;> omega
    | _ => simp only [Passed, Point.Passed] at h; omega

/-- What becomes of a mark: it never falls, and whoever comes through a checkpoint is counted
there at that moment. -/
def Marked (mode : Mode) (s s' : Signals) (r r' : Nat) : Prop :=
  r ≤ r' ∧ ∀ k : Checkpoint, k.isKept mode = true →
    k.count s' = k.count s + if r < k.rank ∧ k.rank ≤ r' then 1 else 0

theorem Marked.stay {mode : Mode} {s s' : Signals} (r : Nat)
    (h : ∀ k : Checkpoint, k.count s' = k.count s) : Marked mode s s' r r :=
  ⟨Nat.le_refl r, fun k _ => by rw [h, if_neg (by omega), Nat.add_zero]⟩

/-- A pass without warm loops comes by a place in between. -/
theorem Marked.bypass {mode : Mode} {s : Signals} {r : Nat} (hm : mode.hasWarmLoops = false)
    (hr : r = 1 ∨ r = 2) : Marked mode s s r (r + 1) := by
  refine ⟨Nat.le_succ r, ?_⟩
  intro k hk
  cases k <;> simp_all [Checkpoint.isKept, Checkpoint.rank] <;> omega

theorem Marked.announce {mode : Mode} {s s' : Signals} {r : Nat}
    (h : ∀ k : Checkpoint, k.count s' = k.count s + if k.rank = r + 1 then 1 else 0) :
    Marked mode s s' r (r + 1) := by
  refine ⟨Nat.le_succ r, ?_⟩
  intro k _
  have hk : k.rank = r + 1 ↔ r < k.rank ∧ k.rank ≤ r + 1 := by omega
  simp only [h k, hk]

theorem count_arrive_setUp (s : Signals) (k : Checkpoint) :
    k.count (Rendezvous.arrive .setUp s) = k.count s + if k.rank = 0 + 1 then 1 else 0 := by
  cases k <;> rfl

theorem count_enterWarmup (s : Signals) (k : Checkpoint) :
    k.count s.enterWarmup = k.count s + if k.rank = 1 + 1 then 1 else 0 := by
  cases k <;> rfl

theorem count_enterWarmdown (s : Signals) (k : Checkpoint) :
    k.count s.enterWarmdown = k.count s + if k.rank = 2 + 1 then 1 else 0 := by
  cases k <;> rfl

theorem count_arrive_tearDown (s : Signals) (k : Checkpoint) :
    k.count (Rendezvous.arrive .tearDown s) = k.count s + if k.rank = 3 + 1 then 1 else 0 := by
  cases k <;> rfl

/-- What a part ends with leads to the point that follows, or out of its phase. -/
theorem passed_onward {α : Type} {phase : Phase} {next : α → Point} {o : Outcome α} {r : Nat}
    (hn : ∀ v, (next v).Passed r) (hp : phase.Passed r) : Passed (onward phase next o) r := by
  cases o with
  | ok v => exact hn v
  | failed e | crashed text => exact hp

/-- What a step does to a mark. A pass that is doomed after the step keeps its mark. -/
theorem Step.passed {a : Pass} {m m' : Memory} {p : Point} {t : Stand Point Report} {r : Nat}
    (h : a.Step m p m' t) (hp : p.Passed r) :
    ∃ r', Passed t r' ∧ Marked a.mode (m.signalsOf a.iteration) (m'.signalsOf a.iteration) r r' ∧
      (Doomed t → r' = r) := by
  have stay {t : Stand Point Report} (ht : Passed t r)
      (hs : ∀ k : Checkpoint, k.count (m'.signalsOf a.iteration) =
        k.count (m.signalsOf a.iteration)) :
      ∃ r', Passed t r' ∧ Marked a.mode (m.signalsOf a.iteration) (m'.signalsOf a.iteration) r r' ∧
        (Doomed t → r' = r) :=
    ⟨r, ht, .stay r hs, fun _ => rfl⟩
  have same {c : Iteration} (hs : m'.signalsOf c = m.signalsOf c) (k : Checkpoint) :
      k.count (m'.signalsOf c) = k.count (m.signalsOf c) := by rw [hs]
  have signalled {f : Signals → Signals} (k : Checkpoint) :
      k.count ((m.signal a.iteration f).signalsOf a.iteration) =
        k.count (f (m.signalsOf a.iteration)) := by
    rw [Memory.signalsOf_signal_self]
  cases h with
  | enrol | misplaced => exact stay hp (same rfl)
  | reject => exact stay (Nat.le_succ_of_le (Nat.le_of_eq hp)) (same rfl)
  | acquire h => exact stay hp (same (h.signalsOf _))
  | acquired h =>
    exact stay (passed_onward (fun _ => hp) (Nat.le_succ_of_le (Nat.le_of_eq hp)))
      (same (h.signalsOf _))
  | arrive h =>
    cases h with
    | announce =>
      have hr : r = 0 := hp
      subst hr
      exact ⟨1, rfl, .announce fun k => (signalled k).trans (count_arrive_setUp _ k), False.elim⟩
    | wait => exact stay hp (same rfl)
  | arrived h =>
    cases h with
    | met =>
      have hr : r = 1 := hp
      exact stay hr (same rfl)
    | abort => exact stay (Nat.le_of_eq hp) (same rfl)
  | setUp h => exact stay hp (same (h.signalsOf _))
  | @setUpDone f p _ o h =>
    have hs := h.signalsOf a.iteration
    have hr : r = 1 := hp
    subst hr
    cases o with
    | ok v =>
      change ∃ r', (a.afterSetUp f).Passed r' ∧ _ ∧ (Doomed (.point (a.afterSetUp f)) → _)
      unfold afterSetUp
      rw [hs]
      split
      · exact ⟨1, rfl, .stay 1 fun _ => rfl, False.elim⟩
      · rename_i hm
        exact ⟨2, rfl, .bypass (by simpa using hm) (.inl rfl), False.elim⟩
    | failed e | crashed text => exact stay (Nat.le_refl 1) (same hs)
  | enterWarmup =>
    have hr : r = 1 := hp
    subst hr
    exact ⟨2, rfl, .announce fun k => (signalled k).trans (count_enterWarmup _ k), False.elim⟩
  | stayWarmup | leaveWarmup | warmupWorked | warmupCrashed => exact stay hp (same rfl)
  | noteStart => exact stay hp fun k => (signalled k).trans (by cases k <;> rfl)
  | measure h => exact stay hp h.count
  | measured h => exact stay (passed_onward (fun _ => hp) hp) h.count
  | @noteStop f ops o =>
    have hr : r = 2 := hp
    subst hr
    have hs (k : Checkpoint) :
        k.count ((m.signal a.iteration Signals.noteStop).signalsOf a.iteration) =
        k.count (m.signalsOf a.iteration) := by
      rw [signalled]
      cases k <;> rfl
    change ∃ r', (a.afterMeasured f ops o).Passed r' ∧ _ ∧
      (Doomed (.point (a.afterMeasured f ops o)) → _)
    unfold afterMeasured
    split
    · exact ⟨2, rfl, .stay 2 hs, False.elim⟩
    · rename_i hm
      refine ⟨3, rfl, ⟨by decide, ?_⟩, False.elim⟩
      intro k hk
      rw [hs]
      exact (Marked.bypass (by simpa using hm) (.inr rfl)).2 k hk
  | enterWarmdown =>
    have hr : r = 2 := hp
    subst hr
    exact ⟨3, rfl, .announce fun k => (signalled k).trans (count_enterWarmdown _ k), False.elim⟩
  | stayWarmdown | leaveWarmdown | warmdownWorked => exact stay hp (same rfl)
  | warmdownCrashed => exact stay (Or.inl hp) (same rfl)
  | depart h =>
    cases h with
    | announce =>
      have hr : r = 3 := hp
      subst hr
      exact ⟨4, rfl, .announce fun k => (signalled k).trans (count_arrive_tearDown _ k), False.elim⟩
    | wait => exact stay hp (same rfl)
  | met h | notMet h =>
    cases h
    have hr : r = 4 := hp
    exact stay hr (same rfl)
  | interrupted | proceed => exact stay hp (same rfl)
  | notInterrupted | abort => exact stay (Or.inr hp) (same rfl)
  | force => exact stay hp fun k => (signalled k).trans (by cases k <;> rfl)
  | tearDown h => exact stay hp (same (h.signalsOf _))
  | tearDownDone h =>
    refine stay (passed_onward ?_ (.inr hp)) (same (h.signalsOf _))
    intro _
    unfold afterTearDown
    split <;> exact hp
  | enterRelease => exact stay hp (same rfl)
  | release h => exact stay hp (same (h.signalsOf _))
  | released h => exact stay (passed_onward (fun _ => hp) hp) (same (h.signalsOf _))
  | void | finish => exact stay hp (same rfl)
  | @fail phase e =>
    have hr : r ≤ 4 := passed_le_four (t := .point (.fail phase e)) hp
    exact stay hr (same rfl)
  | @condemn phase text =>
    have hr : r ≤ 4 := passed_le_four (t := .point (.condemn phase text)) hp
    exact stay hr (same rfl)

end Pass

/-- The marks of a group agree with where its members stand and with the counts of its iteration. -/
structure Attendance (mode : Mode) (c : Iteration) (m : Memory) (l : List (Stand Pass.Point Report))
    (marks : List Nat) : Prop where
  length : marks.length = l.length
  passed : ∀ {i : Nat} {t : Stand Pass.Point Report} {r : Nat}, l[i]? = some t →
    marks[i]? = some r → Pass.Passed t r
  counted : ∀ k : Checkpoint, k.isKept mode = true →
    k.count (m.signalsOf c) = marks.countP fun r => k.rank ≤ r

namespace Attendance
variable {mode : Mode} {c : Iteration} {m m' : Memory} {l : List (Stand Pass.Point Report)}
  {marks : List Nat}

theorem mark (h : Attendance mode c m l marks) {i : Nat} {t : Stand Pass.Point Report}
    (hi : l[i]? = some t) : ∃ r, marks[i]? = some r ∧ Pass.Passed t r := by
  obtain ⟨hlt, _⟩ := List.getElem?_eq_some_iff.mp hi
  have hr := List.getElem?_eq_getElem (l := marks) (i := i) (h.length ▸ hlt)
  exact ⟨_, hr, h.passed hi hr⟩

theorem le_four (h : Attendance mode c m l marks) {r : Nat} (hr : r ∈ marks) : r ≤ 4 := by
  obtain ⟨i, hi⟩ := List.mem_iff_getElem?.mp hr
  obtain ⟨hlt, _⟩ := List.getElem?_eq_some_iff.mp hi
  exact Pass.passed_le_four (h.passed (List.getElem?_eq_getElem (h.length ▸ hlt)) hi)

/-- Where as many are counted as there are members, every one of them has come through. -/
theorem of_complete (h : Attendance mode c m l marks) {k : Checkpoint} (hk : k.isKept mode = true)
    (hn : l.length ≤ k.count (m.signalsOf c)) {r : Nat} (hr : r ∈ marks) : k.rank ≤ r := by
  rw [h.counted k hk, ← h.length] at hn
  have hall := List.countP_eq_length.mp (Nat.le_antisymm List.countP_le_length hn)
  simpa using hall r hr

theorem of_signals (h : Attendance mode c m l marks)
    (hs : ∀ k : Checkpoint, k.count (m'.signalsOf c) = k.count (m.signalsOf c)) :
    Attendance mode c m' l marks :=
  ⟨h.length, h.passed, fun k hk => (hs k).trans (h.counted k hk)⟩

theorem opening {n : Nat} (hs : ∀ k : Checkpoint, k.count (m.signalsOf c) = 0) :
    Attendance mode c m (List.replicate n Pass.start) (List.replicate n 0) where
  length := by simp
  passed {i t r} ht hr := by
    simp only [List.getElem?_replicate, Option.ite_none_right_eq_some, Option.some.injEq] at ht hr
    rw [← ht.2, ← hr.2]
    rfl
  counted k _ := by
    have hk : ¬ k.rank ≤ 0 := by cases k <;> decide
    simp [hs, List.countP_replicate, hk]

theorem move {i r r' : Nat} {t : Stand Pass.Point Report} (h : Attendance mode c m l marks)
    (hr : marks[i]? = some r) (ht : Pass.Passed t r')
    (hm : Pass.Marked mode (m.signalsOf c) (m'.signalsOf c) r r') :
    Attendance mode c m' (l.set i t) (marks.set i r') := by
  obtain ⟨hlt, hget⟩ := List.getElem?_eq_some_iff.mp hr
  refine ⟨by simp [h.length], ?_, ?_⟩
  · intro j u q hu hq
    rw [List.getElem?_set] at hu hq
    by_cases hij : i = j
    · simp only [hij, if_true, Option.ite_none_right_eq_some, Option.some.injEq] at hu hq
      rw [← hu.2, ← hq.2]
      exact ht
    · simp only [hij, if_false] at hu hq
      exact h.passed hu hq
  · intro k hk
    rw [hm.2 k hk, h.counted k hk, List.countP_set hlt, hget]
    -- the member itself is among those counted before, if its mark was high enough then
    have hpos : k.rank ≤ r → 0 < marks.countP fun r => k.rank ≤ r := fun hkr =>
      List.countP_pos_iff.mpr ⟨r, List.mem_of_getElem? hr, by simpa using hkr⟩
    have hle := hm.1
    by_cases h₁ : k.rank ≤ r <;> by_cases h₂ : k.rank ≤ r'
    · have hkr : ¬ r < k.rank := by omega
      have hcount := hpos h₁
      simp only [h₁, h₂, hkr, decide_true, if_true, and_true, if_false]
      omega
    · omega
    · have hrk : r < k.rank := by omega
      simp [h₁, h₂, hrk]
    · simp [h₁, h₂]

/-- The step of a member moves its mark, and nobody else's. -/
theorem step {a : Pass} {i : Nat} {p : Pass.Point} {t : Stand Pass.Point Report}
    (h : Attendance a.mode a.iteration m l marks) (hi : l[i]? = some (.point p))
    (hs : a.Step m p m' t) :
    ∃ r r', marks[i]? = some r ∧ p.Passed r ∧ Pass.Passed t r' ∧ r ≤ r' ∧
      (Pass.Doomed t → r' = r) ∧
      Attendance a.mode a.iteration m' (l.set i t) (marks.set i r') := by
  obtain ⟨r, hr, hp⟩ := h.mark hi
  obtain ⟨r', ht, hm, hkeep⟩ := hs.passed hp
  exact ⟨r, r', hr, hp, ht, hm.1, hkeep, h.move hr ht hm⟩

end Attendance
end LoadBench
