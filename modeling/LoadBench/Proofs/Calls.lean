import LoadBench.Proofs.Agreement

/-!
# Calls of a pass

Which points of a pass call a hook or the workload (`Pass.call?`); at every other point a pass acts,
sleeps or is blocked. A hook that does not return dooms the pass that has called it. In
`Pass.Played` the steps of a member are sorted by what is seen of them.
-/

namespace LoadBench

/-- Nothing is seen of a hook or of the workload. -/
def Event.isQuiet : Event → Bool
  | .noted _ | .called (.sleep _) | .answered (.sleep _) _ => true
  | _ => false

def Event.isWorkCall : Event → Bool
  | .called .work => true
  | _ => false

theorem Event.sleep_of_quiet {q : Request} (h : (Event.called q).isQuiet = true) :
    ∃ d, q = .sleep d := by
  cases q with
  | sleep d => exact ⟨d, rfl⟩
  | construct | stage | work => cases h

theorem Move.andThen_eq_ask {μ σ τ α β : Type} {v : Move μ σ α} {embed : σ → τ}
    {onward : Outcome α → Stand τ β} {q : Request} {k : Reply → Stand τ β}
    (h : v.andThen embed onward = .ask q k) :
    ∃ k', v = .ask q k' ∧ k = fun r => (k' r).andThen embed onward := by
  cases v with
  | ask q' k' =>
    cases h
    exact ⟨k', rfl, rfl⟩
  | act m notes s => cases h
  | blocked => cases h

variable {m m' : Memory} {now : Nat} {q : Request} {notes : List Note}

theorem Wait.sleep_of_ask {w : Wait} {p : Wait.Point} {k : Reply → Stand Wait.Point Unit}
    (h : w.step now m p = .ask q k) : ∃ d, q = .sleep d := by
  cases p with
  | doze n d =>
    cases h
    exact ⟨d, rfl⟩
  | poll | checkFailed | checkInterrupted =>
    simp only [step] at h
    split at h <;> cases h

theorem Arrival.sleep_of_ask {a : Arrival} {p : Arrival.Point}
    {k : Reply → Stand Arrival.Point Unit} (h : a.step now m p = .ask q k) : ∃ d, q = .sleep d := by
  cases p with
  | announce => cases h
  | waiting p =>
    obtain ⟨k', hk, _⟩ := Move.andThen_eq_ask h
    exact Wait.sleep_of_ask hk

theorem Idling.sleep_of_ask {i : Idling} {p : Idling.Point} {k : Reply → Stand Idling.Point Unit}
    (h : i.step now m p = .ask q k) : ∃ d, q = .sleep d := by
  cases p with
  | waiting p =>
    obtain ⟨k', hk, _⟩ := Move.andThen_eq_ask h
    exact Wait.sleep_of_ask hk
  | checkFailed => cases h

theorem Conductor.sleep_of_ask {c : Conductor} {p : Conductor.Point}
    {k : Reply → Stand Conductor.Point Unit} (h : c.step now m p = .ask q k) :
    ∃ d, q = .sleep d := by
  cases p with
  | gather p | drain d p =>
    obtain ⟨k', hk, _⟩ := Move.andThen_eq_ask h
    exact Wait.sleep_of_ask hk
  | doze stop d =>
    cases h
    exact ⟨d, rfl⟩
  | window stop =>
    cases stop with
    | none => cases h
    | some stop =>
      simp only [step] at h
      split at h <;> cases h
  | judge =>
    simp only [step] at h
    split at h <;> cases h
  | _ => cases h

theorem Conductor.quiet_of_advanced {c : Conductor} {s s' : Strand Conductor.Point Unit}
    {es : List Event} (h : s.Advanced (c.step now m) m m' es s') : ∀ e ∈ es, e.isQuiet = true := by
  intro e he
  cases h with
  | act hp hv =>
    obtain ⟨n, _, rfl⟩ := List.mem_map.mp he
    rfl
  | call hp hv hc =>
    cases List.mem_singleton.mp he
    obtain ⟨d, rfl⟩ := sleep_of_ask hv
    rfl
  | reply hp hv hc hr =>
    cases List.mem_singleton.mp he
    obtain ⟨d, rfl⟩ := sleep_of_ask hv
    rfl

namespace Turn

def afterHook : Reply → Point
  | .returned _ => .commit
  | .refused problem => .condemn (.refused problem)
  | .crashed text => .condemn (.crashed text)

theorem step_eq_ask {t : Turn} {p : Point} {k : Reply → Stand Point Unit}
    (h : t.step now m p = .ask q k) :
    (p = .hook ∧ q = .stage t.site (m.fixture t.fixture).value t.stage ∧
      k = fun r => .point (afterHook r)) ∨
      (∃ p', p = .queued p') ∧ ∃ d, q = .sleep d := by
  cases p with
  | hook =>
    cases h
    refine .inl ⟨rfl, rfl, ?_⟩
    funext r
    cases r <;> rfl
  | queued p =>
    obtain ⟨k', hk, _⟩ := Move.andThen_eq_ask h
    exact .inr ⟨⟨p, rfl⟩, Idling.sleep_of_ask hk⟩
  | enter =>
    cases hg : (m.gate t.fixture t.stage).enter? <;> simp [step, hg] at h
  | checkFailed | checkReady =>
    simp only [step] at h
    split at h <;> cases h
  | condemn | commit | leave => cases h

end Turn

theorem Release.step_eq_ask {a : Release} {p : Release.Point} {k : Reply → Stand Release.Point Unit}
    (h : a.step now m p = .ask q k) :
    (∃ f, p = .cleaning f .hook ∧ q = .stage a.site (m.fixture f).value ⟨.trial, .tearDown⟩ ∧
      k = fun r => .point (.cleaning f (Turn.afterHook r))) ∨
      (∃ f p', p = .cleaning f (.queued p')) ∧ ∃ d, q = .sleep d := by
  cases p with
  | cleaning f p =>
    obtain ⟨k', hk, rfl⟩ := Move.andThen_eq_ask h
    rcases Turn.step_eq_ask hk with ⟨rfl, rfl, rfl⟩ | ⟨⟨p', rfl⟩, hd⟩
    · exact .inl ⟨f, rfl, rfl, rfl⟩
    · exact .inr ⟨⟨f, p', rfl⟩, hd⟩
  | look => cases hl : m.live? a.site <;> simp [step, hl] at h
  | checkFailed => cases h
  | clearing o p =>
    obtain ⟨k', hk, _⟩ := Move.andThen_eq_ask h
    cases p with
    | enter =>
      simp only [Clear.step] at hk
      split at hk <;> cases hk
    | store | leave => cases hk

namespace Pass

/-- The hook or the workload that a pass calls where it stands. -/
def call? (a : Pass) (m : Memory) : Point → Option Request
  | .acquire .construct => some (.construct a.site a.iteration.benchmark.parameters)
  | .acquire (.setUp value) => some (.stage a.site value ⟨.trial, .setUp⟩)
  | .setUp f .hook => some (.stage a.site (m.fixture f).value ⟨.iteration, .setUp⟩)
  | .tearDown f _ .hook => some (.stage a.site (m.fixture f).value ⟨.iteration, .tearDown⟩)
  | .release _ (.cleaning f .hook) => some (.stage a.site (m.fixture f).value ⟨.trial, .tearDown⟩)
  | .warmupWork .. | .warmdownWork .. | .measure _ _ (.work ..) => some .work
  | _ => none

/-- A reply other than a return dooms the pass. -/
def Telling (q : Request) (k : Reply → Stand Point Report) : Prop :=
  ∀ r, q.Admits r → (∃ v, r = .returned v) ∨ Doomed (k r)

theorem Telling.hook {k : Reply → Stand Point Report}
    (hr : ∀ problem, Doomed (k (.refused problem))) (hc : ∀ text, Doomed (k (.crashed text))) :
    Telling q k := by
  intro r _
  cases r with
  | returned v => exact .inl ⟨v, rfl⟩
  | refused problem => exact .inr (hr problem)
  | crashed text => exact .inr (hc text)

theorem Telling.work {k : Reply → Stand Point Report} (hk : ∀ text, Doomed (k (.crashed text))) :
    Telling .work k := by
  intro r hr
  cases r with
  | returned v => exact .inl ⟨v, rfl⟩
  | crashed text => exact .inr (hk text)
  | refused problem => exact hr.elim

theorem call?_of_ask {a : Pass} {p : Point} {k : Reply → Stand Point Report}
    (h : a.step now m p = .ask q k) :
    a.call? m p = some q ∧ Telling q k ∨ a.call? m p = none ∧ ∃ d, q = .sleep d := by
  cases p with
  | acquire p =>
    obtain ⟨k', hk, rfl⟩ := Move.andThen_eq_ask h
    cases p with
    | construct =>
      cases hk
      exact .inl ⟨rfl, .hook (fun _ => trivial) fun _ => trivial⟩
    | setUp value =>
      cases hk
      exact .inl ⟨rfl, .hook (fun _ => trivial) fun _ => trivial⟩
    | look | recheck => cases hl : m.live? a.site <;> simp [Acquire.step, hl] at hk
    | enter | checkFailed =>
      simp only [Acquire.step] at hk
      split at hk <;> cases hk
    | publish | condemn | leave => cases hk
  | arrive f p | depart f r p =>
    obtain ⟨k', hk, _⟩ := Move.andThen_eq_ask h
    exact .inr ⟨rfl, Arrival.sleep_of_ask hk⟩
  | setUp f p | tearDown f r p =>
    obtain ⟨k', hk, rfl⟩ := Move.andThen_eq_ask h
    rcases Turn.step_eq_ask hk with ⟨rfl, rfl, rfl⟩ | ⟨⟨p', rfl⟩, hd⟩
    · exact .inl ⟨rfl, .hook (fun _ => trivial) fun _ => trivial⟩
    · exact .inr ⟨rfl, hd⟩
  | release r p =>
    obtain ⟨k', hk, rfl⟩ := Move.andThen_eq_ask h
    rcases Release.step_eq_ask hk with ⟨f, rfl, rfl, rfl⟩ | ⟨⟨f, p', rfl⟩, hd⟩
    · exact .inl ⟨rfl, .hook (fun _ => trivial) fun _ => trivial⟩
    · exact .inr ⟨rfl, hd⟩
  | measure f ops p =>
    obtain ⟨k', hk, hq⟩ := Move.andThen_eq_ask h
    cases p with
    | work l n =>
      cases hk
      exact .inl ⟨rfl, .work fun text => by subst hq; trivial⟩
    | checkSpoiled | stop =>
      simp only [Measurement.step] at hk
      split at hk <;> cases hk
    | _ => cases hk
  | warmupWork | warmdownWork =>
    cases h
    exact .inl ⟨rfl, .work fun _ => trivial⟩
  | checkFailed | finish =>
    simp only [step] at h
    split at h <;> cases h
  | _ => cases h

theorem call?_of_act {a : Pass} {p : Point} {t : Stand Point Report}
    (h : a.step now m p = .act m' notes t) : a.call? m p = none := by
  cases hc : a.call? m p with
  | none => rfl
  | some q =>
    exfalso
    cases p with
    | acquire p => cases p <;> cases hc <;> cases h
    | setUp f p | tearDown f r p =>
      cases p <;> cases hc
      cases h
    | measure f ops p =>
      cases p <;> cases hc
      cases h
    | release r p =>
      cases p with
      | cleaning f p =>
        cases p <;> cases hc
        cases h
      | look | checkFailed | clearing => cases hc
    | warmupWork | warmdownWork => cases h
    | _ => cases hc

def Point.isWork : Point → Bool
  | .warmupWork .. | .warmdownWork .. | .measure _ _ (.work ..) => true
  | _ => false

theorem isWork_of_call {a : Pass} {p : Point} (h : a.call? m p = some .work) : p.isWork = true := by
  cases p with
  | acquire p | setUp f p | tearDown f r p => cases p <;> cases h
  | release r p =>
    cases p with
    | cleaning f p => cases p <;> cases h
    | _ => cases h
  | measure f ops p => cases p <;> first | rfl | cases h
  | warmupWork | warmdownWork => rfl
  | _ => cases h

theorem call?_of_isWork {a : Pass} {p : Point} (h : p.isWork = true) :
    a.call? m p = some .work := by
  cases p with
  | measure f ops p => cases p <;> first | rfl | cases h
  | warmupWork | warmdownWork => rfl
  | _ => cases h

/-- The steps of a member: an action or a sleep, of which nothing is seen of hooks and workload, the
beginning of a call, and its end. -/
inductive Played (a : Pass) (m : Memory) (s : Strand Point Report) :
    Memory → List Event → Strand Point Report → Prop where
  | rest {p : Point} {es : List Event} {s' : Strand Point Report} (hp : s.stand = .point p)
      (hc : a.call? m p = none) (hs : s'.stand = s.stand) (he : ∀ e ∈ es, e.isQuiet = true) :
      Played a m s m es s'
  | act {p : Point} {m' : Memory} {es : List Event} {t : Stand Point Report}
      (hp : s.stand = .point p) (hc : a.call? m p = none) (h : a.Step m p m' t)
      (he : ∀ e ∈ es, e.isQuiet = true) :
      Played a m s m' es ⟨t, false⟩
  | call {p : Point} {q : Request} (hp : s.stand = .point p) (hc : a.call? m p = some q)
      (hs : s.calling = false) : Played a m s m [.called q] ⟨.point p, true⟩
  | reply {p : Point} {q : Request} {r : Reply} {k : Reply → Stand Point Report} {now : Nat}
      (hp : s.stand = .point p) (hc : a.call? m p = some q) (hs : s.calling = true)
      (hk : a.step now m p = .ask q k) (h : a.Step m p m (k r))
      (ht : (∃ v, r = .returned v) ∨ Doomed (k r)) :
      Played a m s m [.answered q r] ⟨k r, false⟩

theorem played_of_advanced {a : Pass} {s s' : Strand Point Report} {es : List Event}
    (h : s.Advanced (a.step now m) m m' es s') : Played a m s m' es s' := by
  cases h with
  | act hp hv =>
    refine .act hp (call?_of_act hv) (step_of_yields (by rw [hv]; exact ⟨rfl, rfl⟩)) fun e he => ?_
    obtain ⟨n, _, rfl⟩ := List.mem_map.mp he
    rfl
  | call hp hv hc =>
    rcases call?_of_ask hv with ⟨hq, _⟩ | ⟨hq, d, rfl⟩
    · exact .call hp hq hc
    · exact .rest hp hq hp.symm fun e he => by cases List.mem_singleton.mp he; rfl
  | reply hp hv hc hr =>
    have hs := step_of_yields (t := _) (by rw [hv]; exact ⟨rfl, _, hr, rfl⟩)
    rcases call?_of_ask hv with ⟨hq, ht⟩ | ⟨hq, d, rfl⟩
    · exact .reply hp hq hc hv hs (ht _ hr)
    · exact .act hp hq hs fun e he => by cases List.mem_singleton.mp he; rfl

end Pass
end LoadBench
