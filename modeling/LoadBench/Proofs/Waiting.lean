import LoadBench.Proofs.Descent
import LoadBench.Proofs.Journey
import LoadBench.Proofs.Run
import Mathlib.Logic.Function.Basic

/-!
# Bounded waits

What a wait does, for any condition and any flags that others raise meanwhile. It looks at its
condition, and while that holds it sleeps for the next delay of its policy; after each sleep it
looks at the two flags before it looks at its condition again. So the first look at the condition
comes before any at the flags, and a flag that is up when a sleep is over ends the wait even if the
condition no longer holds.

An `Outlook` says what every look finds, which is all that the outcome depends on. As each of them
is looked at once between two sleeps, every journey of a wait has one (`Wait.exists_outlook`). From
it follow the outcome, the sleeps and the end of the wait (`Wait.kept_of_journey`), and what a
rendezvous and idling at a gate have seen when they let an operation go on (`waits_are_kept`).
-/

namespace LoadBench
namespace Wait

/-- Whether the condition holds after `n` sleeps, and which flags are up when sleep `n` is over. -/
structure Outlook where
  holds : Nat → Bool
  failing : Nat → Bool
  interrupted : Nat → Bool

namespace Outlook

/-- Before the first sleep the flags do not count. -/
def Halts (v : Outlook) (n : Nat) : Prop := 0 < n ∧ (v.failing n = true ∨ v.interrupted n = true)

instance (v : Outlook) (n : Nat) : Decidable (v.Halts n) := inferInstanceAs (Decidable (_ ∧ _))

def Stops (v : Outlook) (n : Nat) : Prop := v.Halts n ∨ v.holds n = false

/-- It goes on until then. -/
def StopsFirst (v : Outlook) (k : Nat) : Prop := v.Stops k ∧ ∀ j < k, ¬ v.Stops j

/-- How a wait ends that stops there. -/
def outcome (v : Outlook) (k : Nat) : Outcome Unit := if v.Halts k then .failed .aborted else .ok ()

end Outlook

inductive Act where
  | evaluated (held : Bool)
  | slept (d : Span)
  deriving DecidableEq

def actsOf (w : Wait) (l : Leg Point) : List Act :=
  match l.point with
  | .poll n _ => [.evaluated (w.holds l.before l.now n)]
  | _ => l.events.filterMap fun e => match e with
    | .called (.sleep d) => some (.slept d)
    | _ => none

def acts (w : Wait) (legs : List (Leg Point)) : List Act := legs.flatMap w.actsOf

def act (w : Wait) (v : Outlook) (i : Nat) : Act :=
  if i % 2 = 0 then .evaluated (v.holds (i / 2)) else .slept (w.policy.delay (i / 2))

def firstActs (w : Wait) (v : Outlook) (n : Nat) : List Act := (List.range n).map (w.act v)

def Finds (w : Wait) (v : Outlook) (l : Leg Point) : Prop :=
  match l.point with
  | .poll n _ => w.holds l.before l.now n = v.holds n
  | .doze .. => True
  | .checkFailed n _ => l.before.hasFailed w.iteration = v.failing n
  | .checkInterrupted n _ => l.before.isInterrupted w.iteration = v.interrupted n

instance (w : Wait) (v : Outlook) (l : Leg Point) : Decidable (w.Finds v l) :=
  match l with
  | ⟨_, _, .doze .., _, _⟩ => .isTrue trivial
  | ⟨_, _, .poll .., _, _⟩ | ⟨_, _, .checkFailed .., _, _⟩ | ⟨_, _, .checkInterrupted .., _, _⟩ =>
    inferInstanceAs (Decidable (_ = _))

/-- What a wait has done so far, and how it has ended. -/
structure Kept (w : Wait) (v : Outlook) (legs : List (Leg Point)) (s : Strand Point Unit) :
    Prop where
  acts : ∃ n, w.acts legs = w.firstActs v n
  still : ∀ l ∈ legs, l.IsStill
  ended : ∀ r, s.stand = .ended r → ∃ k, v.StopsFirst k ∧ r = v.outcome k ∧
    w.acts legs = w.firstActs v (if v.Halts k then 2 * k else 2 * k + 1)
  /-- Unless it has ended it can go on, at any time. -/
  able : s.stand.hasEnded = false → ∀ now m, ∃ reply m' es s',
    s.advance (w.step now m) m reply = some (m', es, s')
  ends : ∀ k, v.Stops k → legs.length ≤ 5 * k + 1

variable {w : Wait} {v : Outlook} {n now : Nat} {m m' m₀ : Memory} {p : Point} {b : Bool}
  {es : List Event} {s s₀ : Strand Point Unit} {legs : List (Leg Point)} {l : Leg Point}
  {others : Memory → Memory → Prop}

theorem firstActs_succ : w.firstActs v (n + 1) = w.firstActs v n ++ [w.act v n] := by
  simp [firstActs, List.range_succ]

theorem act_even : w.act v (2 * n) = .evaluated (v.holds n) := by
  simp [act]

theorem act_odd : w.act v (2 * n + 1) = .slept (w.policy.delay n) := by
  have hdiv : (2 * n + 1) / 2 = n := by omega
  simp [act, Nat.add_mod, hdiv]

theorem acts_append : w.acts (legs ++ [l]) = w.acts legs ++ w.actsOf l := by
  simp [acts]

/-- What one step of a wait is: a look or one half of a sleep. -/
inductive Pace (w : Wait) (now : Nat) (m : Memory) : Point → Bool → List Event →
    Strand Point Unit → Prop where
  | held {n d b} (hc : w.holds m now n = true) :
      Pace w now m (.poll n d) b [] ⟨.point (.doze n d), false⟩
  | met {n d b} (hc : w.holds m now n = false) :
      Pace w now m (.poll n d) b [] ⟨.ended (.ok ()), false⟩
  | sleep {n d} : Pace w now m (.doze n d) false [.called (.sleep d)] ⟨.point (.doze n d), true⟩
  | wake {n d r} : Pace w now m (.doze n d) true [.answered (.sleep d) r]
      ⟨.point (.checkFailed (n + 1) (w.policy.advance d)), false⟩
  | failing {n d b} (hf : m.hasFailed w.iteration = true) :
      Pace w now m (.checkFailed n d) b [] ⟨.ended (.failed .aborted), false⟩
  | sound {n d b} (hf : m.hasFailed w.iteration = false) :
      Pace w now m (.checkFailed n d) b [] ⟨.point (.checkInterrupted n d), false⟩
  | interrupted {n d b} (hi : m.isInterrupted w.iteration = true) :
      Pace w now m (.checkInterrupted n d) b [] ⟨.ended (.failed .aborted), false⟩
  | goOn {n d b} (hi : m.isInterrupted w.iteration = false) :
      Pace w now m (.checkInterrupted n d) b [] ⟨.point (.poll n d), false⟩

theorem pace_of_advanced (h : Strand.Advanced (w.step now m) m ⟨.point p, b⟩ m' es s) :
    m' = m ∧ w.Pace now m p b es s := by
  cases p with
  | doze n d =>
    cases h with
    | act hp hv => cases hp; cases hv
    | call hp hv hc =>
      cases hp
      cases hv
      cases (hc : b = false)
      exact ⟨rfl, .sleep⟩
    | reply hp hv hc hr =>
      cases hp
      cases hv
      cases (hc : b = true)
      exact ⟨rfl, .wake⟩
  | poll n d =>
    cases h with
    | act hp hv =>
      cases hp
      simp only [step] at hv
      split at hv <;> cases hv
      · rename_i hc
        exact ⟨rfl, .held hc⟩
      · rename_i hc
        exact ⟨rfl, .met (by simpa using hc)⟩
    | call hp hv | reply hp hv =>
      cases hp
      simp only [step] at hv
      split at hv <;> cases hv
  | checkFailed n d =>
    cases h with
    | act hp hv =>
      cases hp
      simp only [step] at hv
      split at hv <;> cases hv
      · rename_i hf
        exact ⟨rfl, .failing hf⟩
      · rename_i hf
        exact ⟨rfl, .sound (by simpa using hf)⟩
    | call hp hv | reply hp hv =>
      cases hp
      simp only [step] at hv
      split at hv <;> cases hv
  | checkInterrupted n d =>
    cases h with
    | act hp hv =>
      cases hp
      simp only [step] at hv
      split at hv <;> cases hv
      · rename_i hi
        exact ⟨rfl, .interrupted hi⟩
      · rename_i hi
        exact ⟨rfl, .goOn (by simpa using hi)⟩
    | call hp hv | reply hp hv =>
      cases hp
      simp only [step] at hv
      split at hv <;> cases hv

/-! ### Along a journey -/

/-- Round `n` of a wait, which has taken `k` steps and done the first `a` acts of its outlook. -/
structure Round (w : Wait) (v : Outlook) (legs : List (Leg Point)) (n : Nat) (d : Span)
    (a k : Nat) : Prop where
  delay : d = w.policy.delay n
  acts : w.acts legs = w.firstActs v a
  length : legs.length = k
  earlier : ∀ j < n, ¬ v.Stops j

/-- Where a wait stands that has found everything as the outlook says. -/
def Underway (w : Wait) (v : Outlook) (legs : List (Leg Point)) (s : Strand Point Unit) : Prop :=
  match s.stand with
  | .point (.poll n d) => w.Round v legs n d (2 * n) (5 * n) ∧ ¬ v.Halts n
  | .point (.doze n d) =>
    w.Round v legs n d (2 * n + 1 + s.calling.toNat) (5 * n + 1 + s.calling.toNat) ∧ ¬ v.Stops n
  | .point (.checkFailed n d) => 0 < n ∧ w.Round v legs n d (2 * n) (5 * n - 2)
  | .point (.checkInterrupted n d) =>
    0 < n ∧ w.Round v legs n d (2 * n) (5 * n - 1) ∧ v.failing n = false
  | .ended r => ∃ k, v.StopsFirst k ∧ r = v.outcome k ∧
    w.acts legs = w.firstActs v (if v.Halts k then 2 * k else 2 * k + 1) ∧ legs.length ≤ 5 * k + 1

namespace Round
variable {d : Span} {a k : Nat}

theorem append (h : w.Round v legs n d a k) (hl : w.actsOf l = []) :
    w.Round v (legs ++ [l]) n d a (k + 1) where
  delay := h.delay
  acts := by rw [acts_append, hl, List.append_nil, h.acts]
  length := by rw [List.length_append, h.length]; rfl
  earlier := h.earlier

theorem act (h : w.Round v legs n d a k) (hl : w.actsOf l = [w.act v a]) :
    w.Round v (legs ++ [l]) n d (a + 1) (k + 1) where
  delay := h.delay
  acts := by rw [acts_append, hl, h.acts, firstActs_succ]
  length := by rw [List.length_append, h.length]; rfl
  earlier := h.earlier

theorem halted (h : w.Round v legs n d (2 * n) k) (hk : k ≤ 5 * n + 1) (hv : v.Halts n) :
    w.Underway v legs ⟨.ended (.failed .aborted), b⟩ := by
  refine ⟨n, ⟨.inl hv, h.earlier⟩, ?_, ?_, Nat.le_trans (Nat.le_of_eq h.length) hk⟩
  · simp [Outlook.outcome, hv]
  · rw [if_pos hv, h.acts]

theorem met (h : w.Round v legs n d (2 * n + 1) k) (hk : k ≤ 5 * n + 1) (hv : ¬ v.Halts n)
    (hc : v.holds n = false) : w.Underway v legs ⟨.ended (.ok ()), b⟩ := by
  refine ⟨n, ⟨.inr hc, h.earlier⟩, ?_, ?_, Nat.le_trans (Nat.le_of_eq h.length) hk⟩
  · simp [Outlook.outcome, hv]
  · rw [if_neg hv, h.acts]

end Round

theorem Underway.step (h : w.Underway v legs ⟨.point p, b⟩) (hp : w.Pace now m p b es s)
    (hl : w.Finds v ⟨now, m, p, es, m⟩) : w.Underway v (legs ++ [⟨now, m, p, es, m⟩]) s := by
  cases hp with
  | @held n d b hc =>
    obtain ⟨h, hv⟩ := h
    have hholds : v.holds n = true := (show w.holds m now n = v.holds n from hl).symm.trans hc
    refine ⟨h.act ?_, ?_⟩
    · rw [act_even, hholds, ← hc]
      rfl
    · rintro (hhalts | hno)
      · exact hv hhalts
      · cases hholds.symm.trans hno
  | @met n d b hc =>
    obtain ⟨h, hv⟩ := h
    have hholds : v.holds n = false := (show w.holds m now n = v.holds n from hl).symm.trans hc
    refine Round.met (h.act ?_) (Nat.le_refl _) hv hholds
    rw [act_even, hholds, ← hc]
    rfl
  | @sleep n d =>
    obtain ⟨h, hv⟩ := h
    refine ⟨h.act ?_, hv⟩
    change [Act.slept d] = [w.act v (2 * n + 1)]
    rw [act_odd, h.delay]
  | @wake n d r =>
    obtain ⟨h, hv⟩ := h
    refine ⟨Nat.succ_pos n, ?_, ?_, ?_, ?_⟩
    · rw [h.delay]
      rfl
    · have hact := (h.append (l := ⟨now, m, .doze n d, [.answered (.sleep d) r], m⟩) rfl).acts
      exact hact
    · have hlength := (h.append (l := ⟨now, m, .doze n d, [.answered (.sleep d) r], m⟩) rfl).length
      rw [hlength]
      simp only [Bool.toNat_true]
      omega
    · intro j hj
      rcases Nat.lt_succ_iff_lt_or_eq.mp hj with hlt | rfl
      · exact h.earlier j hlt
      · exact hv
  | @failing n d b hf =>
    obtain ⟨hpos, h⟩ := h
    have hfailing : v.failing n = true :=
      (show m.hasFailed w.iteration = v.failing n from hl).symm.trans hf
    exact Round.halted (h.append rfl) (by omega) ⟨hpos, .inl hfailing⟩
  | @sound n d b hf =>
    obtain ⟨hpos, h⟩ := h
    have hfailing : v.failing n = false :=
      (show m.hasFailed w.iteration = v.failing n from hl).symm.trans hf
    have hk : 5 * n - 2 + 1 = 5 * n - 1 := by omega
    exact ⟨hpos, hk ▸ h.append rfl, hfailing⟩
  | @interrupted n d b hi =>
    obtain ⟨hpos, h, hfailing⟩ := h
    have hinterrupted : v.interrupted n = true :=
      (show m.isInterrupted w.iteration = v.interrupted n from hl).symm.trans hi
    exact Round.halted (h.append rfl) (by omega) ⟨hpos, .inr hinterrupted⟩
  | @goOn n d b hi =>
    obtain ⟨hpos, h, hfailing⟩ := h
    have hinterrupted : v.interrupted n = false :=
      (show m.isInterrupted w.iteration = v.interrupted n from hl).symm.trans hi
    have hk : 5 * n - 1 + 1 = 5 * n := by omega
    refine ⟨hk ▸ h.append rfl, ?_⟩
    rintro ⟨-, hflag | hflag⟩
    · cases hfailing.symm.trans hflag
    · cases hinterrupted.symm.trans hflag

theorem underway_of_journey (hj : Journey w.step others m₀ (.fresh w.start) legs m s)
    (hl : ∀ l ∈ legs, w.Finds v l) : w.Underway v legs s := by
  induction hj with
  | start => exact ⟨⟨rfl, rfl, rfl, nofun⟩, fun h => absurd h.1 (Nat.lt_irrefl 0)⟩
  | step _ ha ih =>
    obtain ⟨rfl, hp⟩ := pace_of_advanced ha
    have hearlier := ih fun l hmem => hl l (List.mem_append_left _ hmem)
    exact hearlier.step hp (hl _ (List.mem_append_right _ List.mem_cons_self))
  | others _ _ ih => exact ih hl

theorem still_of_journey (hj : Journey w.step others m₀ s₀ legs m s) : ∀ l ∈ legs, l.IsStill := by
  induction hj with
  | start => exact nofun
  | step _ ha ih =>
    obtain ⟨rfl, -⟩ := pace_of_advanced ha
    exact List.forall_mem_append.mpr ⟨ih, List.forall_mem_singleton.mpr rfl⟩
  | others _ _ ih => exact ih

/-- A wait that goes well has seen its condition fail with its last step. -/
theorem unheld_of_journey (hj : Journey w.step others m₀ (.fresh w.start) legs m s)
    (hs : s.stand = .ended (.ok ())) : ∃ l n, legs.getLast? = some l ∧
      w.holds l.before l.now n = false := by
  induction hj with
  | start => cases hs
  | step _ ha _ =>
    obtain ⟨rfl, hp⟩ := pace_of_advanced ha
    cases hp with
    | @met n d b hc => exact ⟨_, n, List.getLast?_concat, hc⟩
    | _ => cases hs
  | others _ _ ih => exact ih hs

/-- No wait goes beyond the round in which it stops. -/
theorem Underway.length_le (h : w.Underway v legs s) {k : Nat} (hk : v.Stops k) :
    legs.length ≤ 5 * k + 1 := by
  have reached {j : Nat} (hj : ∀ i < j, ¬ v.Stops i) : j ≤ k := Nat.not_lt.mp fun hlt => hj k hlt hk
  unfold Underway at h
  split at h
  · have hn := reached h.1.earlier
    have hlength := h.1.length
    omega
  · rename_i n d _
    have hn : n + 1 ≤ k := reached fun j hj => by
      rcases Nat.lt_succ_iff_lt_or_eq.mp hj with hlt | rfl
      · exact h.1.earlier j hlt
      · exact h.2
    have hlength := h.1.length
    have hb := s.calling.toNat_le
    omega
  · have hn := reached h.2.earlier
    have hlength := h.2.length
    omega
  · have hn := reached h.2.1.earlier
    have hlength := h.2.1.length
    omega
  · obtain ⟨k', hstops, -, -, hlength⟩ := h
    have hn := reached hstops.2
    omega

theorem Underway.acts (h : w.Underway v legs s) : ∃ n, w.acts legs = w.firstActs v n := by
  unfold Underway at h
  split at h
  · exact ⟨_, h.1.acts⟩
  · exact ⟨_, h.1.acts⟩
  · exact ⟨_, h.2.acts⟩
  · exact ⟨_, h.2.1.acts⟩
  · obtain ⟨k, -, -, hacts, -⟩ := h
    exact ⟨_, hacts⟩

theorem kept_of_journey (hj : Journey w.step others m₀ (.fresh w.start) legs m s)
    (hl : ∀ l ∈ legs, w.Finds v l) : w.Kept v legs s := by
  have h := underway_of_journey hj hl
  refine ⟨h.acts, still_of_journey hj, ?_, ?_, fun k hk => h.length_le hk⟩
  · intro r hr
    unfold Underway at h
    rw [hr] at h
    obtain ⟨k, hstops, hout, hacts, -⟩ := h
    exact ⟨k, hstops, hout, hacts⟩
  · intro hended now m
    obtain ⟨⟨p⟩ | ⟨r⟩, b⟩ := s
    · exact ⟨.returned 0, Strand.exists_advance m rfl not_blocked 0⟩
    · cases hended

/-! ### What is found on the way -/

def Point.order : Point → Nat
  | .checkFailed n _ => 4 * n
  | .checkInterrupted n _ => 4 * n + 1
  | .poll n _ => 4 * n + 2
  | .doze n _ => 4 * n + 3

/-- The outlook together with what is found on one more leg. -/
def Outlook.learn (v : Outlook) (w : Wait) (l : Leg Point) : Outlook :=
  match l.point with
  | .poll n _ => { v with holds := Function.update v.holds n (w.holds l.before l.now n) }
  | .doze .. => v
  | .checkFailed n _ =>
    { v with failing := Function.update v.failing n (l.before.hasFailed w.iteration) }
  | .checkInterrupted n _ =>
    { v with interrupted := Function.update v.interrupted n (l.before.isInterrupted w.iteration) }

theorem finds_learn : w.Finds (v.learn w l) l := by
  obtain ⟨now, m, p, es, m'⟩ := l
  cases p <;> simp [Finds, Outlook.learn]

/-- Nothing is looked at twice. -/
theorem Finds.learn {l' : Leg Point} (h : w.Finds v l) (ho : l.point.order < l'.point.order) :
    w.Finds (v.learn w l') l := by
  obtain ⟨now, m, p, es, m'⟩ := l
  obtain ⟨now', m₁, p', es', m₁'⟩ := l'
  cases p' with
  | doze => exact h
  | poll n' d' =>
    cases p with
    | poll n d =>
      have hne : n ≠ n' := fun heq => by simp [Point.order, heq] at ho
      exact Eq.trans h (Function.update_of_ne hne ..).symm
    | _ => exact h
  | checkFailed n' d' =>
    cases p with
    | checkFailed n d =>
      have hne : n ≠ n' := fun heq => by simp [Point.order, heq] at ho
      exact Eq.trans h (Function.update_of_ne hne ..).symm
    | _ => exact h
  | checkInterrupted n' d' =>
    cases p with
    | checkInterrupted n d =>
      have hne : n ≠ n' := fun heq => by simp [Point.order, heq] at ho
      exact Eq.trans h (Function.update_of_ne hne ..).symm
    | _ => exact h

/-- What a wait finds on a journey. -/
theorem exists_outlook (hj : Journey w.step others m₀ (.fresh w.start) legs m s) :
    ∃ v, ∀ l ∈ legs, w.Finds v l := by
  refine (?_ : (∃ v, ∀ l ∈ legs, w.Finds v l) ∧ ∀ p, s.stand = .point p →
    ∀ l ∈ legs, l.point.order < p.order ∨ ∃ n d, l.point = .doze n d).1
  induction hj with
  | start => exact ⟨⟨⟨fun _ => false, fun _ => false, fun _ => false⟩, nofun⟩, nofun⟩
  | others _ _ ih => exact ih
  | @step legs now m m' p b es s _ ha ih =>
    obtain ⟨⟨v, hv⟩, horder⟩ := ih
    obtain ⟨rfl, hp⟩ := pace_of_advanced ha
    have hbefore := horder p rfl
    constructor
    · refine ⟨v.learn w ⟨now, m', p, es, m'⟩, List.forall_mem_append.mpr ⟨?_, ?_⟩⟩
      · intro l hl
        rcases hbefore l hl with hlt | ⟨n, d, hdoze⟩
        · exact (hv l hl).learn hlt
        · unfold Finds
          rw [hdoze]
          trivial
      · exact List.forall_mem_singleton.mpr finds_learn
    · intro q hq
      have hstep : p.order < q.order ∨ ∃ n d, p = .doze n d := by
        cases hp with
        | sleep | wake => exact .inr ⟨_, _, rfl⟩
        | held | sound | goOn =>
          cases hq
          exact .inl (Nat.lt_succ_self _)
        | met | failing | interrupted => cases hq
      have hle : p.order ≤ q.order := by
        cases hp with
        | sleep | wake | held | sound | goOn =>
          cases hq
          simp only [Point.order]
          omega
        | met | failing | interrupted => cases hq
      refine List.forall_mem_append.mpr ⟨?_, List.forall_mem_singleton.mpr hstep⟩
      intro l hl
      exact (hbefore l hl).imp_left fun hlt => Nat.lt_of_lt_of_le hlt hle

end Wait

/-! ### Rendezvous and gates -/

namespace Arrival

/-- One arrival and the wait for the others, which goes on only when enough have arrived. -/
structure Registered (a : Arrival) (legs : List (Leg Point)) (s : Strand Point Unit) : Prop where
  once : s.stand.hasEnded = true → ∃ l rest, legs = l :: rest ∧
    l.after = l.before.signal a.iteration a.rendezvous.arrive ∧
      a.rendezvous.arrivals (l.after.signalsOf a.iteration) =
        a.rendezvous.arrivals (l.before.signalsOf a.iteration) + 1 ∧ ∀ l' ∈ rest, l'.IsStill
  met : s.stand = .ended (.ok ()) → ∃ l, legs.getLast? = some l ∧
    a.iteration.threads ≤ a.rendezvous.arrivals (l.before.signalsOf a.iteration)
  waits : legs ≠ [] → ∃ own v t, legs.tail = own.map (Leg.along .waiting) ∧
    (∀ l ∈ own, a.wait.Finds v l) ∧ a.wait.Kept v own t ∧ s.stand = t.stand.andThen .waiting .ended

variable {a : Arrival} {m m₀ : Memory} {s : Strand Point Unit} {legs : List (Leg Point)}
  {others : Memory → Memory → Prop}

theorem arrivals_arrive (v : Rendezvous) (x : Signals) :
    v.arrivals (v.arrive x) = v.arrivals x + 1 := by
  cases v <;> rfl

/-- The first leg is the arrival, the others are those of the wait. -/
theorem wait_of_journey (hj : Journey a.step others m₀ (.fresh .announce) legs m s) :
    (legs = [] ∧ s = .fresh .announce) ∨ ∃ l m₁ own t, legs = l :: own.map (Leg.along .waiting) ∧
      l.after = l.before.signal a.iteration a.rendezvous.arrive ∧
        Journey a.wait.step others l.after (.fresh a.wait.start) own m₁ t ∧
          s.stand = t.stand.andThen .waiting .ended := by
  rcases hj.first with hnone | ⟨l, s₁, rest, rfl, -, hl, hrest⟩
  · exact .inl hnone
  · right
    obtain ⟨hafter, -, rfl⟩ := hl.of_act rfl
    rcases hrest.part (fun _ _ _ => rfl) with ⟨own, q, b, hown, rfl, rfl⟩
        | ⟨own, r, m₁, tail, hown, rfl, htail⟩
    · exact ⟨l, m, own, _, rfl, hafter, hown, rfl⟩
    · obtain ⟨rfl, rfl⟩ := htail.of_ended
      exact ⟨l, m₁, own, _, by rw [List.append_nil], hafter, hown, rfl⟩

theorem registered_of_journey (hj : Journey a.step others m₀ (.fresh .announce) legs m s) :
    a.Registered legs s := by
  rcases wait_of_journey hj with ⟨rfl, rfl⟩ | ⟨l, m₁, own, t, rfl, hafter, hown, hs⟩
  · exact ⟨nofun, nofun, fun h => absurd rfl h⟩
  · have hstill := Wait.still_of_journey hown
    refine ⟨fun _ => ⟨l, _, rfl, hafter, ?_, ?_⟩, fun hok => ?_, fun _ => ?_⟩
    · rw [hafter, Memory.signalsOf_signal_self, arrivals_arrive]
    · intro l' hl'
      obtain ⟨l', hmem, rfl⟩ := List.mem_map.mp hl'
      exact hstill l' hmem
    · have ht : t.stand = .ended (.ok ()) := by
        rw [hs] at hok
        cases ht : t.stand with
        | point q => rw [ht] at hok; cases hok
        | ended r => rw [ht] at hok; cases hok; rfl
      obtain ⟨l', n, hlast, hheld⟩ := Wait.unheld_of_journey hown ht
      refine ⟨l'.along .waiting, ?_, Nat.not_lt.mp (of_decide_eq_false hheld)⟩
      simp [List.getLast?_cons, hlast]
    · obtain ⟨v, hv⟩ := Wait.exists_outlook hown
      exact ⟨own, v, t, rfl, hv, Wait.kept_of_journey hown hv, hs⟩

end Arrival

namespace Idling

/-- A wait for the gate and one more look at the flag. -/
structure Convinced (i : Idling) (legs : List (Leg Point)) (s : Strand Point Unit) : Prop where
  still : ∀ l ∈ legs, l.IsStill
  saw : s.stand = .ended (.ok ()) → ∃ rest look check, legs = rest ++ [look, check] ∧
    look.before.gate i.fixture i.stage = .idle ∧ check.before.hasFailed i.iteration = false
  waits : ∃ own v t rest, legs = own.map (Leg.along .waiting) ++ rest ∧
    (∀ l ∈ own, i.wait.Finds v l) ∧
    i.wait.Kept v own t ∧ ∀ l ∈ rest, l.point = .checkFailed ∧ t.stand = .ended (.ok ())

variable {i : Idling} {m m₀ : Memory} {s : Strand Point Unit} {legs : List (Leg Point)}
  {others : Memory → Memory → Prop}

theorem eq_idle_of_unheld {n now : Nat} (h : i.wait.holds m now n = false) :
    m.gate i.fixture i.stage = .idle := by
  have hactive : (m.gate i.fixture i.stage).isActive = false := h
  cases hg : m.gate i.fixture i.stage with
  | idle => rfl
  | active => simp [hg] at hactive

def afterWait : Outcome Unit → Stand Point Unit
  | .ok _ => .point .checkFailed
  | r => .ended r

theorem step_waiting (i : Idling) (now : Nat) (m : Memory) (p : Wait.Point) :
    i.step now m (.waiting p) = (i.wait.step now m p).andThen .waiting afterWait := rfl

/-- What is left to do once the gate was found idle. -/
theorem check_of_journey {rest : List (Leg Point)} {m₁ : Memory}
    (hj : Journey i.step others m₁ (.fresh .checkFailed) rest m s) :
    (rest = [] ∧ s = .fresh .checkFailed) ∨ ∃ l, rest = [l] ∧ l.point = .checkFailed ∧ l.IsStill ∧
      s.stand = .ended (if l.before.hasFailed i.iteration then .failed .aborted else .ok ()) := by
  rcases hj.first with hnone | ⟨l, s₁, tail, rfl, hp, hl, htail⟩
  · exact .inl hnone
  · right
    obtain ⟨hafter, -, rfl⟩ := hl.of_act rfl
    obtain ⟨rfl, rfl⟩ := htail.of_ended
    exact ⟨l, rfl, (Stand.point.inj hp).symm, hafter, rfl⟩

theorem convinced_of_journey (hj : Journey i.step others m₀ (.fresh i.start) legs m s) :
    i.Convinced legs s := by
  have along {own : List (Leg Wait.Point)} (h : ∀ l ∈ own, l.IsStill) :
      ∀ l ∈ own.map (Leg.along Point.waiting), l.IsStill := by
    intro l hl
    obtain ⟨l, hmem, rfl⟩ := List.mem_map.mp hl
    exact h l hmem
  have hj' : Journey i.step others m₀ (.fresh (.waiting i.wait.start)) legs m s := hj
  rcases hj'.part i.step_waiting with ⟨own, q, b, hown, rfl, rfl⟩
      | ⟨own, r, m₁, tail, hown, rfl, htail⟩
  · obtain ⟨v, hv⟩ := Wait.exists_outlook hown
    refine ⟨along (Wait.still_of_journey hown), nofun, own, v, _, [], (List.append_nil _).symm, hv,
      Wait.kept_of_journey hown hv, nofun⟩
  · obtain ⟨v, hv⟩ := Wait.exists_outlook hown
    have hkept := Wait.kept_of_journey hown hv
    have hstill := along (Wait.still_of_journey hown)
    cases r with
    | ok u =>
      rcases check_of_journey htail with ⟨rfl, rfl⟩ | ⟨check, rfl, hp, hcheck, hs⟩
      · refine ⟨by simpa using hstill, nofun, own, v, _, [], rfl, hv, hkept, nofun⟩
      · refine ⟨List.forall_mem_append.mpr ⟨hstill, List.forall_mem_singleton.mpr hcheck⟩,
          fun hok => ?_, own, v, _,
          [check], rfl, hv, hkept, List.forall_mem_singleton.mpr ⟨hp, rfl⟩⟩
        obtain ⟨look, n, hlast, hheld⟩ := Wait.unheld_of_journey hown rfl
        obtain ⟨rest, rfl⟩ := List.getLast?_eq_some_iff.mp hlast
        refine ⟨rest.map (Leg.along .waiting), look.along .waiting,
          check, by simp, eq_idle_of_unheld hheld, ?_⟩
        rw [hs] at hok
        split at hok
        · cases hok
        · rename_i hf
          simpa using hf
    | failed e | crashed text =>
      obtain ⟨rfl, rfl⟩ := htail.of_ended
      exact ⟨by simpa using hstill, nofun, own, v, _, [], rfl, hv, hkept, nofun⟩

end Idling

/-- Every wait keeps to what it finds, whatever others do meanwhile: it stops at the first chance,
and it has slept the first delays of its policy until then, once between two looks at its condition.
A rendezvous adds one arrival and goes well only if enough have arrived; idling goes well only if
the gate was found idle and the trial not failing after that. -/
theorem waits_are_kept {others : Memory → Memory → Prop} {m₀ m : Memory} :
    (∀ {w : Wait} {v legs s}, Journey w.step others m₀ (.fresh w.start) legs m s →
      (∀ l ∈ legs, w.Finds v l) → w.Kept v legs s) ∧
    (∀ {a : Arrival} {legs s}, Journey a.step others m₀ (.fresh .announce) legs m s →
      a.Registered legs s) ∧
      ∀ {i : Idling} {legs s}, Journey i.step others m₀ (.fresh i.start) legs m s →
        i.Convinced legs s :=
  ⟨Wait.kept_of_journey, Arrival.registered_of_journey, Idling.convinced_of_journey⟩

/-- In its second sleep a wait is interrupted and its condition fails, which it does not look at
again; while two others sleep, the second thread arrives, and the gate is left. -/
theorem waits_are_kept_meanwhile :
    let c := Execution.duet.iteration 0 0
    let stage : Stage := ⟨.iteration, .setUp⟩
    let w : Wait := ⟨c, .exponential (.ofMillis 1) (.ofMillis 16), fun _ _ n => n < 2⟩
    let v : Wait.Outlook := ⟨fun n => n < 2, fun _ => false, fun n => n = 2⟩
    let waiting :=
      Journey.travel w.step (Journey.stepsWith 10 7 fun m => m.signal c Signals.interrupt) {}
      (.fresh w.start)
    let a : Arrival := ⟨c, .setUp⟩
    let meeting :=
      Journey.travel a.step (Journey.stepsWith 7 3 fun m => m.signal c Rendezvous.setUp.arrive) {}
      (.fresh .announce)
    let i : Idling := ⟨c, .standard, 0, stage⟩
    let idling := Journey.travel i.step (Journey.stepsWith 7 3 fun m => m.setGate 0 stage .idle)
      (({} : Memory).setGate 0 stage .active) (.fresh i.start)
    ((∀ l ∈ waiting.1, w.Finds v l) ∧ w.Kept v waiting.1 waiting.2.2 ∧
      waiting.2.2.stand = .ended (.failed .aborted) ∧ w.acts waiting.1 =
        [.evaluated true, .slept (.ofMillis 1), .evaluated true, .slept (.ofMillis 2)]) ∧
    (a.Registered meeting.1 meeting.2.2 ∧ meeting.2.2.stand = .ended (.ok ())) ∧
      i.Convinced idling.1 idling.2.2 ∧ idling.2.2.stand = .ended (.ok ()) := by
  intro c stage w v waiting a meeting i idling
  have trip {σ : Type} (move : Nat → Memory → σ → Move Memory σ Unit) (n k : Nat)
      (change : Memory → Memory)
      (m : Memory) (p : σ) :
      let steps := Journey.stepsWith n k change
      Journey move (fun _ _ => True) m (.fresh p) (Journey.travel move steps m (.fresh p)).1
        (Journey.travel move steps m (.fresh p)).2.1 (Journey.travel move steps m (.fresh p)).2.2 :=
    Journey.travel_journey (fun _ _ _ => trivial) m _
  have hfinds : ∀ l ∈ waiting.1, w.Finds v l := by decide +kernel
  refine ⟨⟨hfinds, ?_, by decide +kernel, by decide +kernel⟩, ⟨?_, by decide +kernel⟩,
    ?_, by decide +kernel⟩
  · exact waits_are_kept.1 (trip w.step 10 7 _ {} w.start) hfinds
  · exact waits_are_kept.2.1 (trip a.step 7 3 _ {} .announce)
  · exact waits_are_kept.2.2 (trip i.step 7 3 _ _ i.start)

end LoadBench
