import LoadBench.Proofs.Haste

/-!
# Failing fast

A failure flag stays set, and whatever begins under a trial that is failing gives up: it calls
nothing but a sleep, leaves all ready flags alone, takes a bounded number of steps of its own, and
aborts, except that an acquisition may return the fixture that is live (`Operation.fails_fast`).
Nothing is assumed about the other operations of the crowd, which may be at work on the same
fixtures and sites, under the same trial or others.

Of the steps that lead to the end, only the one into the section of a site can be held up, by
somebody inside; an operation made from inside a hook that is called in the section waits for that
very hook.
-/

namespace LoadBench
open Pool

namespace Operation
variable {o : Operation} {c : Iteration} {n i now : Nat} {m m₀ : Memory} {p : Point} {b : Bool}
  {operations : Nat → Operation} {l l₀ : List (Stride Point)} {v w : Pool Point Result}
  {s : Strand Point Result} {site : Site}

/-- What the operations of the lifecycle and the passes are asked for under. -/
def control? : Operation → Option Iteration
  | acquire a => some a.iteration
  | turn t => some t.iteration
  | release a => some a.iteration
  | idle i => some i.iteration
  | pass a => some a.iteration
  | _ => none

/-- How an operation may end that begins in a trial that is failing. -/
def Aborts (o : Operation) (r : Outcome Result) : Prop :=
  match o with
  | acquire _ => r = .failed .aborted ∨ ∃ f, r = .ok (.fixture f)
  | turn _ | release _ | idle _ => r = .failed .aborted
  | pass a => r = .failed a.refusal
  | _ => False

/-- How often such an operation sleeps at most. -/
def mostSleeps : Operation → Nat
  | acquire _ => 0
  | pass _ => 2
  | _ => 1

/-- The site whose section such an operation may have to enter. -/
def door? : Operation → Option Site
  | acquire a => some a.site
  | release a => some a.site
  | pass a => some a.site
  | _ => none

inductive Hurried : Operation → Point → Prop where
  | acquire {a : Acquire} {p : Acquire.Point} (h : Acquire.haste.stands p) :
      Hurried (.acquire a) (.acquire a p)
  | turn {t : Turn} {p : Turn.Point} (h : Turn.haste.stands p) : Hurried (.turn t) (.turn t p)
  | release {a : Release} {p : Release.Point} (h : Release.haste.stands p) :
      Hurried (.release a) (.release a p)
  | idle {i : Idling} {p : Idling.Point} (h : Idling.haste.stands p) : Hurried (.idle i) (.idle i p)
  | pass {a : Pass} {p : Pass.Point} (h : a.haste.stands p) : Hurried (.pass a) (.pass a p)

def haste (o : Operation) : Haste Point Result where
  stands := Hurried o
  ends := o.Aborts
  steps
    | .acquire _ p => Acquire.haste.steps p
    | .turn _ p => Turn.haste.steps p
    | .release _ p => Release.haste.steps p
    | .idle _ p => Idling.haste.steps p
    | .pass a p => a.haste.steps p
    | _ => 0
  naps
    | .acquire _ p => Acquire.haste.naps p
    | .turn _ p => Turn.haste.naps p
    | .release _ p => Release.haste.naps p
    | .idle _ p => Idling.haste.naps p
    | .pass a p => a.haste.naps p
    | _ => 0
  dozes
    | .acquire _ p => Acquire.haste.dozes p
    | .turn _ p => Turn.haste.dozes p
    | .release _ p => Release.haste.dozes p
    | .idle _ p => Idling.haste.dozes p
    | .pass a p => a.haste.dozes p
    | _ => false

theorem hasty (hc : o.control? = some c) (hf : m.hasFailed c = true) (hp : Hurried o p) :
    o.haste.Keeps m p (step now m p) := by
  cases hp with
  | acquire hp =>
    cases hc
    refine (Acquire.hasty hf hp).andThen (n := 0) (fun _ => .acquire) (fun _ => id)
      (fun _ => (Nat.zero_add _).symm) rfl fun r hr => ?_
    rcases hr with rfl | ⟨f, rfl⟩
    · exact .inl rfl
    · exact .inr ⟨f, rfl⟩
  | turn hp =>
    cases hc
    exact (Turn.hasty hf hp).andThen (n := 0) (fun _ => .turn) (fun _ => id)
      (fun _ => (Nat.zero_add _).symm) rfl fun r hr => congrArg (Outcome.map _) hr
  | release hp =>
    cases hc
    exact (Release.hasty hf hp).andThen (n := 0) (fun _ => .release) (fun _ => id)
      (fun _ => (Nat.zero_add _).symm) rfl fun r hr => congrArg (Outcome.map _) hr
  | idle hp =>
    cases hc
    exact (Idling.hasty hf hp).andThen (n := 0) (fun _ => .idle) (fun _ => id)
      (fun _ => (Nat.zero_add _).symm) rfl fun r hr => congrArg (Outcome.map _) hr
  | pass hp =>
    cases hc
    exact (Pass.hasty hf hp).andThen (n := 0) (fun _ => .pass) (fun _ => id)
      (fun _ => (Nat.zero_add _).symm) rfl fun r hr => congrArg (Outcome.map _) hr

theorem hurried_start (hc : o.control? = some c) : Hurried o o.start := by
  cases o with
  | acquire | turn | release | idle | pass =>
    constructor
    trivial
  | _ => cases hc

theorem steps_start : o.haste.steps o.start ≤ 17 := by
  cases o <;> exact Nat.le_of_ble_eq_true rfl

theorem naps_start (hc : o.control? = some c) : o.haste.naps o.start ≤ o.mostSleeps := by
  cases o with
  | acquire | turn | release | idle | pass => exact Nat.le_of_ble_eq_true rfl
  | _ => cases hc

theorem hasFailed_congr {c' : Iteration} (h : c'.trial = c.trial) :
    m.hasFailed c' = m.hasFailed c := by
  rw [Memory.hasFailed, Memory.hasFailed, h]

/-! ### What holds it up -/

/-- Only a section that is taken holds such an operation up, and it waits outside. -/
theorem Hurried.of_blocked (hp : Hurried o p) (h : step now m p = .blocked) :
    ∃ site, o.door? = some site ∧ m.isEntered site = true ∧ p.isInside site.id = false := by
  cases hp with
  | @acquire a p =>
    obtain ⟨rfl, he⟩ := Acquire.of_blocked (Move.blocked_of_andThen h)
    exact ⟨a.site, rfl, he, by simp [Point.isInside, within, Acquire.Point.isInside]⟩
  | turn => exact absurd (Move.blocked_of_andThen h) Turn.not_blocked
  | @release a p =>
    obtain ⟨⟨r, rfl⟩, he⟩ := Release.of_blocked (Move.blocked_of_andThen h)
    exact ⟨a.site, rfl,
      he, by simp [Point.isInside, within, Release.Point.isInside, Clear.Point.isInside]⟩
  | @idle i p =>
    cases p with
    | waiting p =>
      exact absurd (Move.blocked_of_andThen (Move.blocked_of_andThen h)) Wait.not_blocked
    | checkFailed => cases h
  | @pass a p hp =>
    have h := Move.blocked_of_andThen h
    cases p with
    | begin =>
      simp only [Pass.step] at h
      cases h
    | acquire p =>
      obtain ⟨rfl, he⟩ := Acquire.of_blocked (Move.blocked_of_andThen h)
      exact ⟨a.site, rfl,
        he, by simp [Point.isInside, within, Pass.Point.isInside, Acquire.Point.isInside]⟩
    | arrive f p =>
      cases p with
      | announce => cases h
      | waiting p =>
        exact absurd (Move.blocked_of_andThen (Move.blocked_of_andThen h)) Wait.not_blocked
    | setUp f p => exact absurd (Move.blocked_of_andThen h) Turn.not_blocked
    | reject | fail => cases h
    | _ => exact hp.elim

/-- Such an operation can step, or somebody else is in the section that it has to enter. -/
theorem able_or_held (hk : ∀ site, Kept site v) (hi : v.strands[i]? = some ⟨.point p, b⟩)
    (hp : Hurried o p) :
    (∀ now, step now v.memory p ≠ .blocked) ∨ ∃ site, o.door? = some site ∧ ∃ j s, j ≠ i ∧
      v.strands[j]? = some s ∧ s.stand.isAt (Point.isInside site.id) = true := by
  by_cases h : ∃ now, step now v.memory p = .blocked
  · obtain ⟨now, h⟩ := h
    obtain ⟨site, hd, he, hout⟩ := hp.of_blocked h
    have hk := hk site
    rw [Kept, he] at hk
    obtain ⟨j, s, hj, hs⟩ := hk.exists_holder
    refine .inr ⟨site, hd, j, s, ?_, hj, hs⟩
    rintro rfl
    rw [hi] at hj
    cases hj
    exact absurd hs (by simpa using hout)
  · exact .inl (not_exists.mp h)

theorem exists_able (now : Nat) (hk : ∀ site, Kept site v) (hi : v.strands[i]? = some ⟨.point p, b⟩)
    (hp : Hurried o p) :
    ∃ l u, Path company v l u ∧ u.strands[i]? = some ⟨.point p, b⟩ ∧
      step now u.memory p ≠ .blocked := by
  by_cases h : step now v.memory p = .blocked
  · obtain ⟨site, hd, -, hout⟩ := hp.of_blocked h
    obtain ⟨l, u, hpath, hi, he⟩ := exists_left (hk site) hi hout
    refine ⟨l, u, hpath, hi, fun h => ?_⟩
    obtain ⟨site', hd', he', -⟩ := hp.of_blocked h
    rw [hd] at hd'
    cases hd'
    rw [he] at he'
    cases he'
  · exact ⟨[], v, .start, hi, h⟩

/-! ### Along a path -/

/-- Where an operation stands that has begun in a trial that was failing,
and what was seen of it. -/
structure Hurrying (o : Operation) (i : Nat) (l : List (Stride Point)) (s : Strand Point Result) :
    Prop where
  hurries : o.haste.Hurries o.start (own i l).length ((seen i l).countP Event.isSleep) s
  quiet : ∀ e ∈ seen i l, e.isQuiet = true

theorem Hurrying.others {x : List (Stride Point)} (h : Hurrying o i l s) (hx : own i x = []) :
    Hurrying o i (l ++ x) s := by
  have hl : own i (l ++ x) = own i l := by
    unfold own at hx ⊢
    rw [List.filter_append, hx, List.append_nil]
  constructor
  · rw [seen, hl]
    exact h.hurries
  · rw [seen, hl]
    exact h.quiet

theorem Hurrying.advanced {m' : Memory} {es : List Event} (h : Hurrying o i l ⟨.point p, b⟩)
    (hc : o.control? = some c) (hf : m.hasFailed c = true)
    (ha : Strand.Advanced (step now m) m ⟨.point p, b⟩ m' es s) :
    Hurrying o i (l ++ [⟨i, p, es⟩]) s := by
  have hk : o.haste.Keeps m p (step now m p) := hasty hc hf h.hurries.meets
  have hl : own i (l ++ [⟨i, p, es⟩]) = own i l ++ [⟨i, p, es⟩] := by simp [own]
  have hseen : seen i (l ++ [⟨i, p, es⟩]) = seen i l ++ es := by simp [seen, hl]
  constructor
  · rw [hl, hseen, List.length_append, List.countP_append]
    exact h.hurries.advanced hk ha
  · intro e he
    rw [hseen] at he
    rcases List.mem_append.mp he with he | he
    · exact h.quiet e he
    · exact hk.isQuiet ha e he

theorem hurrying_of_path (hc : o.control? = some c) (hf : w.memory.hasFailed c = true)
    (hi : w.strands[i]? = some ⟨.point o.start, false⟩) (hp : Path company w l v) :
    ∃ s, v.strands[i]? = some s ∧ Hurrying o i l s := by
  refine hp.induct (P := fun l v => ∃ s, v.strands[i]? = some s ∧ Hurrying o i l s) ?_ ?_
  · exact ⟨_, hi, Haste.hurries_start (hurried_start hc), nofun⟩
  · rintro l v x v' hp ⟨s, hi, hs⟩ hstep
    cases hstep with
    | others ho => exact ho.elim
    | @step j now p b m es s' hj ha =>
      by_cases hij : j = i
      · subst hij
        rw [hj] at hi
        cases hi
        exact ⟨s', by rw [List.getElem?_set_self (List.getElem?_eq_some_iff.mp hj).1],
          hs.advanced hc (failed_of_path hp hf) ha⟩
      · exact ⟨s, (List.getElem?_set_ne hij).trans hi, hs.others (by simp [own, hij])⟩

/-- An operation that has begun in a trial that was failing can be brought to its end. -/
theorem exists_ended (hc : o.control? = some c) (hf : v.memory.hasFailed c = true)
    (hk : ∀ site, Kept site v) (hi : v.strands[i]? = some s) (hs : Hurrying o i l s) :
    ∃ l' v' r, Path company v l' v' ∧ v'.outcome? i = some r := by
  -- the induction is on the steps that the operation has before it; those of the others are not
  -- counted
  induction hn : s.rank o.haste.steps using Nat.strongRecOn generalizing v l s with
  | ind n ih =>
    obtain ⟨t, b⟩ := s
    cases t with
    | ended r => exact ⟨[], v, r, .start, outcome?_eq_some.mpr ⟨b, hi⟩⟩
    | point p =>
      obtain ⟨l₁, u, hpath, hi, hb⟩ := exists_able 0 hk hi hs.hurries.meets
      have hf : u.memory.hasFailed c = true := failed_of_path hpath hf
      obtain ⟨m, es, s', ha⟩ := Strand.exists_advance (s := ⟨.point p, b⟩) u.memory rfl hb 0
      have ha := Strand.advanced_of_advance ha
      have hlt : s'.rank o.haste.steps < n := hn ▸ ha.rank_lt fun p' m q hp hq => by
        cases hp
        exact ((hasty hc hf hs.hurries.meets).onward hq).2.1
      have hstep : Stepped company u [⟨i, p, es⟩] ⟨m, u.strands.set i s'⟩ := .step hi ha
      obtain ⟨l', v', r, hp', hr⟩ := ih _ hlt (failed_of_stepped hstep hf)
        (fun site => kept_of_stepped (kept_of_path (hk site) hpath) hstep)
        (List.getElem?_set_self (List.getElem?_eq_some_iff.mp hi).1) (hs.advanced hc hf ha) rfl
      exact ⟨_, v', r, (hpath.stepped hstep).trans hp', hr⟩

/-- What becomes of an operation that begins in a trial that is failing; `l` are the
steps of everybody since. -/
structure FailsFast (o : Operation) (i : Nat) (l : List (Stride Point)) (v : Pool Point Result) :
    Prop where
  /-- No hook is called, and no workload. -/
  quiet : ∀ e ∈ seen i l, e.isQuiet = true
  sleeps : (seen i l).countP Event.isSleep ≤ o.mostSleeps
  steps : (own i l).length ≤ 36
  /-- None of its own steps makes a fixture ready or unready. -/
  ready : ∀ {x v'}, Stepped company v [x] v' → x.who = i →
    ∀ f s, v'.memory.isReady f s = v.memory.isReady f s
  aborts : ∀ {r}, v.outcome? i = some r → o.Aborts r
  /-- A fixture is live already when it is returned. -/
  live : ∀ {x v' a f}, o = acquire a → Stepped company v [x] v' → x.who = i →
    v'.outcome? i = some (.ok (.fixture f)) → v.memory.live? a.site = some f
  /-- Where there was something to release, there is nothing in the end. -/
  empty : ∀ {x v' a r}, o = release a → Stepped company v [x] v' → x.who = i →
    v'.outcome? i = some r → v'.memory.live? a.site = none
  /-- Until it ends it can step at any time, unless somebody else is in the section
  that it has to enter. -/
  able : ∀ {p b}, v.strands[i]? = some ⟨.point p, b⟩ → (∀ now, step now v.memory p ≠ .blocked) ∨
    ∃ site, o.door? = some site ∧ ∃ j s, j ≠ i ∧ v.strands[j]? = some s ∧
      s.stand.isAt (Point.isInside site.id) = true
  ends : ∃ l' v' r, Path company v l' v' ∧ v'.outcome? i = some r

theorem Hurrying.aborts {r : Outcome Result} (h : Hurrying o i l s) (hi : v.strands[i]? = some s)
    (hr : v.outcome? i = some r) : o.Aborts r := by
  obtain ⟨b, hi'⟩ := outcome?_eq_some.mp hr
  rw [hi] at hi'
  cases hi'
  exact h.hurries.meets

/-- Its next step: where it stands, and what comes of it. -/
theorem Hurrying.exists_yields {x : Stride Point} {v' : Pool Point Result} {r : Outcome Result}
    (h : Hurrying o i l s) (hi : v.strands[i]? = some s) (hstep : Stepped company v [x] v')
    (hx : x.who = i) (hr : v'.outcome? i = some r) :
    ∃ now p b, v.strands[i]? = some ⟨.point p, b⟩ ∧ Hurried o p ∧
      (step now v.memory p).Yields v.memory v'.memory (.ended r) := by
  generalize hl : [x] = k at hstep
  cases hstep with
  | others ho => exact ho.elim
  | @step j now p b m es s' hj ha =>
    cases hl
    subst hx
    obtain ⟨b', hr⟩ := outcome?_eq_some.mp hr
    rw [List.getElem?_set_self (List.getElem?_eq_some_iff.mp hj).1] at hr
    cases hr
    rw [hj] at hi
    cases hi
    rcases ha.yields with ⟨-, hst⟩ | ⟨q, hq, hy⟩
    · cases hst
    · cases hq
      exact ⟨now, p, b, hj, h.hurries.meets, hy⟩

theorem Hurrying.ready {x : Stride Point} {v' : Pool Point Result} (h : Hurrying o i l s)
    (hc : o.control? = some c) (hf : v.memory.hasFailed c = true) (hi : v.strands[i]? = some s)
    (hstep : Stepped company v [x] v') (hx : x.who = i) (f : Nat) (r : Stage) :
    v'.memory.isReady f r = v.memory.isReady f r := by
  generalize hl : [x] = k at hstep
  cases hstep with
  | others ho => exact ho.elim
  | step hj ha =>
    cases hl
    subst hx
    rw [hj] at hi
    cases hi
    exact (hasty hc hf h.hurries.meets).isReady ha f r

/-- What a hurried acquisition returns is live: found so at once, or in the
section, where it stays so. -/
theorem live?_of_acquired {a : Acquire} {m' : Memory} {f : Nat}
    (h₀ : ∀ site, m₀.isEntered site = false) (hp : Path company (crowd n operations m₀) l v)
    (hi : v.strands[i]? = some ⟨.point p, b⟩) (hs : Hurried (acquire a) p)
    (hy : (step now v.memory p).Yields v.memory m' (.ended (.ok (.fixture f)))) :
    v.memory.live? a.site = some f := by
  cases hs with
  | acquire =>
    obtain ⟨u, hu, ht⟩ := Move.yields_andThen.mp hy
    cases u with
    | point q => cases ht
    | ended r =>
      cases r <;> cases ht
      cases Acquire.step_of_yields hu with
      | found hl => exact hl
      | leave => exact live?_of_settles (h₀ _) hp hi .acquired

/-- A hurried release has emptied its site. -/
theorem live?_of_released {a : Release} {m' : Memory} {r : Outcome Result}
    (h₀ : ∀ site, m₀.isEntered site = false) (hf : v.memory.hasFailed a.iteration = true)
    (hp : Path company (crowd n operations m₀) l v) (hi : v.strands[i]? = some ⟨.point p, b⟩)
    (hs : Hurried (release a) p) (hy : (step now v.memory p).Yields v.memory m' (.ended r)) :
    m'.live? a.site = none := by
  cases hs with
  | release hq =>
    obtain ⟨u, hu, ht⟩ := Move.yields_andThen.mp hy
    have hends := Haste.Keeps.onward (Release.hasty hf hq) hu
    cases u with
    | point q => cases ht
    | ended o =>
      obtain rfl : o = .failed .aborted := hends
      generalize ht : Stand.ended (Outcome.failed Failure.aborted : Outcome Unit) = t at hu
      cases Release.step_of_yields hu with
      | crashed => cases ht
      | cleared hc =>
        cases hc
        rw [Memory.live?_setEntered]
        exact live?_of_settles (h₀ _) hp hi .released
      | _ => cases ht

/-- A failure flag that is set stays set, for all who share it, and whatever
begins under it fails fast. -/
theorem fails_fast (h₀ : ∀ site, m₀.isEntered site = false)
    (hw : Path company (crowd n operations m₀) l₀ w) (hf : w.memory.hasFailed c = true)
    (hp : Path company w l v) :
    (∀ c' : Iteration, c'.trial = c.trial → v.memory.hasFailed c' = true) ∧
      ∀ {i : Nat} {o : Operation} {c' : Iteration}, w.strands[i]? = some ⟨.point o.start, false⟩ →
        o.control? = some c' → c'.trial = c.trial → o.FailsFast i l v := by
  have hf' (c' : Iteration) (hc' : c'.trial = c.trial) : v.memory.hasFailed c' = true := by
    rw [hasFailed_congr hc']
    exact failed_of_path hp hf
  refine ⟨hf', fun {i o c'} hi hc htrial => ?_⟩
  have hf := (hasFailed_congr htrial).trans hf
  have hall : Path company (crowd n operations m₀) (l₀ ++ l) v := hw.trans hp
  have hk (site : Site) : Kept site v := kept_of_path (kept_crowd (h₀ site)) hall
  obtain ⟨s, hs, h⟩ := hurrying_of_path hc hf hi hp
  have hf := failed_of_path hp hf
  refine ⟨h.quiet, ?_, ?_, h.ready hc hf hs, h.aborts hs, ?_, ?_, ?_, exists_ended hc hf hk hs h⟩
  · have hnaps := h.hurries.naps
    have hstart := naps_start hc
    omega
  · have hsteps := h.hurries.steps
    have hstart : o.haste.steps o.start ≤ 17 := steps_start
    omega
  · rintro x v' a f rfl hstep hx hr
    obtain ⟨now, p, b, hi, hq, hy⟩ := h.exists_yields hs hstep hx hr
    exact live?_of_acquired h₀ hall hi hq hy
  · rintro x v' a r rfl hstep hx hr
    cases hc
    obtain ⟨now, p, b, hi, hq, hy⟩ := h.exists_yields hs hstep hx hr
    exact live?_of_released h₀ hf hall hi hq hy
  · intro p b hi
    rw [hs] at hi
    cases hi
    exact able_or_held hk hs h.hurries.meets

/-- A release of the duet's fixture, and what others ask for under the same trial. -/
def late : Nat → Operation
  | 0 => release ⟨Execution.duet.iteration 0 0, Execution.duet.site⟩
  | 1 => pass ⟨Execution.duet.iteration 0 0, Execution.duet.site, ⟨0, .one, 0⟩, .throughput⟩
  | 2 => turn ⟨Execution.duet.iteration 0 0, Execution.duet.site, 0, ⟨.invocation, .setUp⟩⟩
  | _ => acquire ⟨Execution.duet.iteration 0 0, Execution.duet.site⟩

/-- The cleanup is refused, and whatever begins after that aborts. -/
theorem fails_fast_late :
    let before := (crowd 4 late (({} : Memory).publish Execution.duet.site 5)).walk company
      (List.replicate 12 (0, 0, .refused "no"))
    let after := before.2.walk company
      ((List.range 16).flatMap fun k => [(1, k, .returned 0), (2, k, .returned 0),
        (3, k, .returned 0)])
    before.2.outcome? 0 = some (.failed (.tearDown "fixture" ⟨.trial, .tearDown⟩ "no")) ∧
      (∀ i ∈ [1, 2, 3], after.2.outcome? i = some (.failed .aborted)) ∧
      (∀ i ∈ [1, 2, 3], (late i).FailsFast i after.1 after.2) := by
  intro before after
  have hfails (i : Nat) (hi : before.2.strands[i]? = some ⟨.point (late i).start, false⟩)
      (hc : (late i).control? = some (Execution.duet.iteration 0 0)) :
        (late i).FailsFast i after.1 after.2 :=
    (fails_fast (c := Execution.duet.iteration 0 0) (fun _ => Memory.isEntered_publish ..)
      (path_walk ..) (by decide +kernel) (path_walk ..)).2 hi hc rfl
  refine ⟨by decide +kernel, by decide +kernel, fun i hi => ?_⟩
  simp only [List.mem_cons, List.not_mem_nil, or_false] at hi
  rcases hi with rfl | rfl | rfl <;> exact hfails _ rfl rfl

end Operation
end LoadBench
