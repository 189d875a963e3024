import LoadBench.Proofs.Staging

/-!
# Calls in a history

What was called and what has returned, in the whole history of a trial or in one of its iterations,
and what it means that a call comes in the order of the lifecycle (`Execution.Lawful`). While an
iteration is running the calls of the workload balance: all that were made have returned, but for
those in progress and those that have crashed (`Group.Balanced`).
-/

namespace LoadBench

/-! ### Calls in a history -/

/-- The hook is called once for a trial, and not once for an iteration. -/
def Hook.isOfTrial : Hook → Bool
  | .construct => true
  | .stage s => s.level = .trial

def Event.isTimeOut : Event → Bool
  | .noted (.timedOut _) => true
  | _ => false

def Event.begun? : Event → Option Hook
  | .called q => q.hook?
  | _ => none

def Event.isWorkReturn : Event → Bool
  | .answered .work (.returned _) => true
  | _ => false

/-- The hook was called; one of the iteration level, in an iteration. -/
def Began (h : List Entry) (i : Option Nat) (k : Hook) : Prop :=
  ∃ e ∈ h, e.event.begun? = some k ∧ (k.isOfTrial = true ∨ e.iteration = i)

def Hook.tally (k : Hook) (h : List Entry) (i : Option Nat) : Nat :=
  h.countP fun e => e.event.begun? = some k && (k.isOfTrial || e.iteration = i)

/-- In the continuation of a history no hook is called twice, one of the iteration level not
twice in an iteration. -/
def OnceEach (h more : List Entry) : Prop :=
  Throughout (fun past e => ∀ k, e.event.begun? = some k → ¬ Began (h ++ past) e.iteration k) more

theorem Event.begun?_of_quiet {e : Event} (h : e.isQuiet = true) : e.begun? = none := by
  cases e with
  | called q => cases q <;> first | rfl | cases h
  | noted n | answered q r => rfl

theorem Event.not_work_of_quiet {e : Event} (h : e.isQuiet = true) :
    e.isWorkCall = false ∧ e.isWorkReturn = false := by
  cases e with
  | noted n => exact ⟨rfl, rfl⟩
  | called q => cases q <;> first | exact ⟨rfl, rfl⟩ | cases h
  | answered q r => cases q <;> first | exact ⟨rfl, rfl⟩ | cases h

theorem Event.countP_of_quiet {es : List Event} (he : ∀ e ∈ es, e.isQuiet = true) :
    es.countP Event.isWorkCall = 0 ∧ es.countP Event.isWorkReturn = 0 := by
  constructor
  · apply List.countP_eq_zero.mpr
    intro e hmem
    rw [(not_work_of_quiet (he e hmem)).1]
    exact Bool.false_ne_true
  · apply List.countP_eq_zero.mpr
    intro e hmem
    rw [(not_work_of_quiet (he e hmem)).2]
    exact Bool.false_ne_true

def Returned (h : List Entry) (i : Option Nat) (s : Stage) : Prop :=
  ∃ e ∈ h, e.iteration = i ∧ ∃ q v, e.event = .answered q (.returned v) ∧ q.hook? = some (.stage s)

theorem Returned.append {h : List Entry} {i : Option Nat} {s : Stage} (hr : Returned h i s)
    (more : List Entry) :
    Returned (h ++ more) i s := by
  obtain ⟨e, he, hv⟩ := hr
  exact ⟨e, List.mem_append_left _ he, hv⟩

/-- How many events of a kind an actor has had in an iteration. -/
def Occurred (b : Event → Bool) (h : List Entry) (i : Option Nat) (who : Execution.Actor) : Nat :=
  h.countP fun e => e.iteration = i && e.who = who && b e.event

theorem Began.of_trial {h : List Entry} {k : Hook} {i j : Option Nat} (hb : Began h i k)
    (hk : k.isOfTrial = true) : Began h j k := by
  obtain ⟨e, he, hek, _⟩ := hb
  exact ⟨e, he, hek, .inl hk⟩

/-- The hook was called in an iteration by a member of its group, or outside of any
iteration by the caller. -/
def Made (h : List Entry) (k : Hook) : Option Nat → Prop
  | some index =>
    ∃ e ∈ h, e.event.begun? = some k ∧ e.iteration = some index ∧ ∃ i, e.who = .member i
  | none => ∃ e ∈ h, e.event.begun? = some k ∧ e.iteration = none ∧ e.who = .caller

theorem Made.append {h : List Entry} {i : Option Nat} {k : Hook} (hm : Made h k i)
    (more : List Entry) :
    Made (h ++ more) k i := by
  cases i with
  | none | some index =>
    obtain ⟨e, he, hk⟩ := hm
    exact ⟨e, List.mem_append_left _ he, hk⟩

theorem Made.began {h : List Entry} {i : Option Nat} {k : Hook} (hm : Made h k i) :
    Began h i k := by
  cases i with
  | none | some index =>
    obtain ⟨e, he, hk, hi, _⟩ := hm
    exact ⟨e, he, hk, .inr hi⟩

theorem Hook.tally_pos {k : Hook} {h : List Entry} {i : Option Nat} :
    0 < k.tally h i ↔ Began h i k := by
  simp only [tally, List.countP_pos_iff, Began, Bool.and_eq_true, Bool.or_eq_true,
    decide_eq_true_eq]

theorem OnceEach.cons {h more : List Entry} {e : Entry} (ho : OnceEach h (e :: more)) :
    (∀ k, e.event.begun? = some k → ¬ Began h e.iteration k) ∧ OnceEach (h ++ [e]) more := by
  refine ⟨fun k hk => List.append_nil h ▸ ho [] e more rfl k hk, fun past e' rest hs k hk => ?_⟩
  rw [List.append_assoc]
  exact ho (e :: past) e' rest (congrArg (e :: ·) hs) k hk

theorem OnceEach.singleton {h : List Entry} {e : Entry}
    (he : ∀ k, e.event.begun? = some k → ¬ Began h e.iteration k) :
    OnceEach h [e] := Throughout.singleton fun k hk => (List.append_nil h).symm ▸ he k hk

theorem OnceEach.of_none {h : List Entry} {es : List Event} {f : Event → Entry}
    (he : ∀ e ∈ es, e.begun? = none) (hf : ∀ e, (f e).event = e := by exact fun _ => rfl) :
    OnceEach h (es.map f) := by
  apply Throughout.of_forall
  intro e hmem past k hk
  obtain ⟨ev, hev, rfl⟩ := List.mem_map.mp hmem
  rw [hf, he ev hev] at hk
  cases hk

theorem OnceEach.tally_le {k : Hook} {i : Option Nat} {h more : List Entry} (ho : OnceEach h more)
    (hh : k.tally h i ≤ 1) : k.tally (h ++ more) i ≤ 1 := by
  induction more generalizing h with
  | nil => rwa [List.append_nil]
  | cons e more ih =>
    obtain ⟨he, hmore⟩ := ho.cons
    rw [show h ++ e :: more = (h ++ [e]) ++ more from List.append_cons h e more]
    refine ih hmore ?_
    rw [Hook.tally, List.countP_append, List.countP_singleton, ← Hook.tally]
    split
    · rename_i hk
      simp only [Bool.and_eq_true, Bool.or_eq_true, decide_eq_true_eq] at hk
      have h0 : k.tally h i = 0 := by
        refine Nat.eq_zero_of_not_pos fun hpos => he k hk.1 ?_
        have hb := Hook.tally_pos.mp hpos
        rcases hk.2 with hk | hi
        · exact hb.of_trial hk
        · exact hi ▸ hb
      omega
    · exact hh

/-- A call of a hook or of the workload that comes in the order of the lifecycle. -/
structure Execution.Lawful (x : Execution) (past : List Entry) (i : Option Nat)
    (q : Request) : Prop where
  once : ∀ k, q.hook? = some k → ¬ Began past i k
  work : q = .work → Returned past i ⟨.iteration, .setUp⟩ ∧
    ¬ Began past i (.stage ⟨.iteration, .tearDown⟩)
  tearDown : q.hook? = some (.stage ⟨.iteration, .tearDown⟩) → ∀ who,
    Occurred Event.isWorkReturn past i who = Occurred Event.isWorkCall past i who
  cleanup : q.hook? = some (.stage ⟨.trial, .tearDown⟩) →
    (∃ index, i = some index ∧ index + 1 = x.trial.iterations) ∧
      Returned past i ⟨.iteration, .tearDown⟩
  last : (∀ d, q ≠ .sleep d) → ¬ Began past i (.stage ⟨.trial, .tearDown⟩)

namespace Execution
variable {x : Execution} {h : List Entry} {w w' : World} {who : Actor} {es : List Event}
  {i : Option Nat}

theorem Lawful.sleep (d : Span) : x.Lawful h i (.sleep d) :=
  ⟨nofun, nofun, nofun, nofun, fun hd => absurd rfl (hd d)⟩

theorem began_append {k : Hook} :
    Began (h ++ es.map (w.entry who)) i k ↔
      Began h i k ∨ (∃ e ∈ es, e.begun? = some k) ∧ (k.isOfTrial = true ∨ w.point.index? = i) := by
  constructor
  · rintro ⟨e, he, hk, hi⟩
    rcases List.mem_append.mp he with he | he
    · exact .inl ⟨e, he, hk, hi⟩
    · obtain ⟨ev, hev, rfl⟩ := List.mem_map.mp he
      exact .inr ⟨⟨ev, hev, hk⟩, hi⟩
  · rintro (⟨e, he, hk, hi⟩ | ⟨⟨ev, hev, hk⟩, hi⟩)
    · exact ⟨e, List.mem_append_left _ he, hk, hi⟩
    · exact ⟨_, List.mem_append_right _ (List.mem_map_of_mem hev), hk, hi⟩

theorem began_of_quiet (he : ∀ e ∈ es, e.begun? = none) {k : Hook} :
    Began (h ++ es.map (w.entry who)) i k ↔ Began h i k := by
  rw [began_append]
  apply or_iff_left
  rintro ⟨⟨e, hmem, hk⟩, _⟩
  exact absurd ((he e hmem).symm.trans hk) nofun

theorem occurred_append {b : Event → Bool} {who' : Actor} :
    Occurred b (h ++ es.map (w.entry who)) w.point.index? who' =
      Occurred b h w.point.index? who' + if who = who' then es.countP b else 0 := by
  rw [Occurred, Occurred, List.countP_append, List.countP_map]
  congr 1
  split
  · rename_i hw
    subst hw
    apply List.countP_congr
    intro e _
    simp [World.entry]
  · rename_i hw
    apply List.countP_eq_zero.mpr
    intro e _
    simp [World.entry, hw]

/-- Nothing has happened in an iteration that is still to come. -/
theorem occurred_eq_zero {b : Event → Bool} {index : Nat}
    (hn : ∀ e ∈ h, ∀ i, e.iteration = some i → i < index) :
    Occurred b h (some index) who = 0 := by
  apply List.countP_eq_zero.mpr
  intro e he
  simp only [Bool.and_eq_true, decide_eq_true_eq, not_and]
  exact fun hi => absurd (hn e he _ hi.1) (Nat.lt_irrefl _)

end Execution

/-! ### The balance of the workload -/

namespace Pass
variable {p : Point} {r : Nat}

/-- The workload is called between the set-up and the last checkpoint. -/
theorem Point.Passed.work (hp : p.Passed r) (h : p.isWork = true) : r < 4 ∧ p.isPast = true := by
  cases p with
  | measure | warmupWork | warmdownWork =>
    simp only [Passed] at hp
    exact ⟨by omega, rfl⟩
  | _ => cases h

end Pass

def Strand.isWorking (s : Strand Pass.Point Report) : Bool :=
  s.calling && s.stand.isAt Pass.Point.isWork

namespace Group

def pending (g : Group) : Execution.Actor → Nat
  | .member i => if (g.members[i]?).any Strand.isWorking then 1 else 0
  | _ => 0

/-- Every call of the workload by an actor has returned or is in progress,
unless one has crashed. -/
def Balanced (g : Group) (h : List Entry) (index : Nat) (marks : List Nat) (who : Execution.Actor) :
    Prop :=
  Occurred Event.isWorkCall h (some index) who =
      Occurred Event.isWorkReturn h (some index) who + g.pending who ∨
    ∃ i t r, who = .member i ∧ g.stands[i]? = some t ∧ marks[i]? = some r ∧ r < 4 ∧ Pass.Doomed t

theorem pending_of_member {g : Group} {i : Nat} {s : Strand Pass.Point Report}
    (hi : g.members[i]? = some s) :
    g.pending (.member i) = s.isWorking.toNat := by
  rw [pending, hi]
  cases hs : s.isWorking <;> simp [hs]

theorem pending_group (x : Execution) (c : Iteration) (who : Execution.Actor) :
    (x.group c).pending who = 0 := by
  cases who with
  | caller | conductor => rfl
  | member i =>
    cases hi : (x.group c).members[i]? with
    | none => simp [pending, hi]
    | some s =>
      obtain ⟨_, _, rfl⟩ := List.mem_map.mp (List.mem_of_getElem? hi)
      rw [pending_of_member hi]
      rfl

/-- Behind the last checkpoint no call of the workload is in progress. -/
theorem pending_of_departed {x : Execution} {g : Group} {m : Memory} {index : Nat}
    {marks : List Nat} (hP : g.Paced x index m marks) (h4 : ∀ n ∈ marks, n = 4)
    (who : Execution.Actor) : g.pending who = 0 := by
  cases who with
  | caller | conductor => rfl
  | member i =>
    cases hi : g.members[i]? with
    | none => simp [pending, hi]
    | some s =>
      obtain ⟨n, hn, hpn⟩ := hP.attendance.mark (getElem?_stands hi)
      have hn := h4 n (List.mem_of_getElem? hn)
      rw [pending_of_member hi]
      cases hs : s.stand with
      | ended o => simp [Strand.isWorking, hs]
      | point p =>
        rw [hs] at hpn
        cases hwork : p.isWork with
        | false => simp [Strand.isWorking, hs, hwork]
        | true =>
          have hlt := (Pass.Point.Passed.work hpn hwork).1
          omega

theorem pending_set_ne {g : Group} {i : Nat} {who : Execution.Actor} (hne : who ≠ .member i)
    (s : Strand Pass.Point Report) :
    { g with members := g.members.set i s }.pending who = g.pending who := by
  cases who with
  | member j =>
    have hij : i ≠ j := fun hij => hne (congrArg _ hij.symm)
    simp only [pending, List.getElem?_set_ne hij]
  | caller | conductor => rfl

namespace Balanced
variable {x : Execution} {g : Group} {h : List Entry} {w : Execution.World} {es : List Event}
  {index i r r' : Nat} {marks marks' : List Nat} {m m' : Memory} {s s' : Strand Pass.Point Report}

theorem other {who : Execution.Actor} (hb : g.Balanced h index marks who)
    (hw : w.point.index? = some index) (hne : who ≠ .member i)
    (hmarks : ∀ j, i ≠ j → marks'[j]? = marks[j]?) :
    { g with members := g.members.set i s' }.Balanced (h ++ es.map (w.entry (.member i))) index
      marks' who := by
  apply hb.imp
  · intro hb
    rw [← hw, Execution.occurred_append, Execution.occurred_append, if_neg hne.symm,
      if_neg hne.symm, hw, pending_set_ne hne]
    exact hb
  · rintro ⟨j, t, n, hj, ht, hn, hlt, hd⟩
    have hij : i ≠ j := by
      rintro rfl
      exact hne hj
    refine ⟨j, t, n, hj, ?_, (hmarks j hij).trans hn, hlt, hd⟩
    rw [stands_set, List.getElem?_set_ne hij]
    exact ht

theorem own (hb : g.Balanced h index marks (.member i)) (hw : w.point.index? = some index)
    (hi : g.members[i]? = some s) (ha : (x.pass g.iteration i).Played m s m' es s')
    (hr : marks[i]? = some r) (hr' : marks'[i]? = some r')
    (hp : Pass.Passed s.stand r) (hkeep : Pass.Doomed s'.stand → r' = r) :
    { g with members := g.members.set i s' }.Balanced
      (h ++ es.map (w.entry (.member i))) index marks' (.member i) := by
  obtain ⟨hlt, _⟩ := List.getElem?_eq_some_iff.mp hi
  have hi' : { g with members := g.members.set i s' }.members[i]? = some s' := by simp [hlt]
  have hs' : { g with members := g.members.set i s' }.stands[i]? = some s'.stand :=
    getElem?_stands hi'
  have doomed (hlt : r < 4) (hd : Pass.Doomed s'.stand) :
      { g with members := g.members.set i s' }.Balanced
        (h ++ es.map (w.entry (.member i))) index marks' (.member i) :=
    .inr ⟨i, _, _, rfl, hs', hr', hkeep hd ▸ hlt, hd⟩
  rcases hb with hb | ⟨j, t, n, hj, ht, hn, hlt, hd⟩
  · -- the balance of what the step shows and of what is in progress before and after it
    have balance (hc : es.countP Event.isWorkCall + s.isWorking.toNat =
        es.countP Event.isWorkReturn + s'.isWorking.toNat) :
        { g with members := g.members.set i s' }.Balanced
          (h ++ es.map (w.entry (.member i))) index marks' (.member i) := by
      left
      rw [pending_of_member hi] at hb
      rw [pending_of_member hi', ← hw, Execution.occurred_append, Execution.occurred_append, hw]
      simp only [if_true]
      omega
    have idle {u : Strand Pass.Point Report} {p : Pass.Point} (hu : u.stand = .point p)
        (hc : (x.pass g.iteration i).call? m p = none) : u.isWorking = false := by
      cases hwork : p.isWork with
      | false => rw [Strand.isWorking, hu, Stand.isAt_point, hwork, Bool.and_false]
      | true => exact absurd ((Pass.call?_of_isWork hwork).symm.trans hc) nofun
    cases ha with
    | rest hp' hc hs he =>
      apply balance
      rw [(Event.countP_of_quiet he).1, (Event.countP_of_quiet he).2, idle hp' hc,
        idle (hs.trans hp') hc]
    | act hp' hc ht he =>
      apply balance
      rw [(Event.countP_of_quiet he).1, (Event.countP_of_quiet he).2, idle hp' hc]
      rfl
    | @call p q hp' hc hs =>
      apply balance
      cases q with
      | work =>
        have hwork := Pass.isWork_of_call hc
        simp [Strand.isWorking, hs, hwork, Event.isWorkCall, Event.isWorkReturn]
      | construct | stage | sleep =>
        have hwork : p.isWork = false := by
          apply Bool.eq_false_iff.mpr
          intro hwork
          cases (Pass.call?_of_isWork hwork).symm.trans hc
        simp [Strand.isWorking, hs, hwork, Event.isWorkCall, Event.isWorkReturn]
    | @reply p q r k now hp' hc hs hk ht hd =>
      cases q with
      | work =>
        have hwork := Pass.isWork_of_call hc
        rcases hd with ⟨v, rfl⟩ | hd
        · apply balance
          simp [Strand.isWorking, hp', hs, hwork, Event.isWorkCall, Event.isWorkReturn]
        · rw [hp'] at hp
          exact doomed (Pass.Point.Passed.work hp hwork).1 hd
      | construct | stage | sleep =>
        have hwork : p.isWork = false := by
          apply Bool.eq_false_iff.mpr
          intro hwork
          cases (Pass.call?_of_isWork hwork).symm.trans hc
        apply balance
        simp [Strand.isWorking, hp', hwork, Event.isWorkCall, Event.isWorkReturn]
  · cases hj
    cases hr.symm.trans hn
    cases (getElem?_stands hi).symm.trans ht
    apply doomed hlt
    cases ha with
    | rest hp' hc hs he =>
      rw [hs]
      exact hd
    | act hp' hc ht he => exact ht.doomed (hp' ▸ hd)
    | call hp' hc hs =>
      rw [hp'] at hd
      exact hd
    | reply hp' hc hs hk ht _ => exact ht.doomed (hp' ▸ hd)

theorem played {who : Execution.Actor} (hb : g.Balanced h index marks who)
    (hw : w.point.index? = some index) (hi : g.members[i]? = some s)
    (ha : (x.pass g.iteration i).Played m s m' es s') (hr : marks[i]? = some r)
    (hr' : marks'[i]? = some r') (hmarks : ∀ j, i ≠ j → marks'[j]? = marks[j]?)
    (hp : Pass.Passed s.stand r) (hkeep : Pass.Doomed s'.stand → r' = r) :
    { g with members := g.members.set i s' }.Balanced (h ++ es.map (w.entry (.member i))) index
      marks' who := by
  by_cases hwho : who = .member i
  · subst hwho
    exact hb.own hw hi ha hr hr' hp hkeep
  · exact hb.other hw hwho hmarks

end Balanced
end Group

/-! ### Replies answer calls -/

/-- Which hook a pass calls does not depend on the memory. -/
theorem Pass.call?_hook (a : Pass) (m m' : Memory) (p : Pass.Point) :
    (a.call? m' p).bind Request.hook? = (a.call? m p).bind Request.hook? := by
  cases p with
  | acquire p | setUp f p | tearDown f r p | measure f ops p => cases p <;> rfl
  | release r p =>
    cases p with
    | cleaning f p => cases p <;> rfl
    | _ => rfl
  | _ => rfl

namespace Execution
variable {x : Execution} {m : Memory} {h : List Entry} {w w' : World} {who : Actor}
  {es : List Event}

/-- Every reply of a hook comes after a call of it, in the same iteration. -/
def Answered (h : List Entry) : Prop :=
  ∀ e ∈ h, ∀ q r k, e.event = .answered q r → q.hook? = some k → Made h k e.iteration

def World.Called (x : Execution) (h : List Entry) (w : World) : Prop :=
  match w.point with
  | .running index g => ∀ i s p k, g.members[i]? = some s → s.calling = true → s.stand = .point p →
      ((x.pass g.iteration i).call? w.memory p).bind Request.hook? = some k → Made h k (some index)
  | .cleaning _ _ s => s.calling = true → ∀ f, s.stand = .point (.cleaning f .hook) →
      Made h (.stage ⟨.trial, .tearDown⟩) none
  | _ => True

theorem Answered.append (ha : Answered h)
    (hes : ∀ q r k, .answered q r ∈ es → q.hook? = some k → Made h k w.point.index?) :
    Answered (h ++ es.map (w.entry who)) := by
  intro e he q r k hev hk
  rcases List.mem_append.mp he with he | he
  · exact (ha e he q r k hev hk).append _
  · obtain ⟨ev, hmem, rfl⟩ := List.mem_map.mp he
    exact (hes q r k (hev ▸ hmem) hk).append _

theorem World.Called.played {index i : Nat} {g : Group} {s s' : Strand Pass.Point Report}
    {m' : Memory} (hw : w.Called x h) (hp : w.point = .running index g)
    (hi : g.members[i]? = some s) (ha : (x.pass g.iteration i).Played w.memory s m' es s') :
    (∀ q r k, .answered q r ∈ es → q.hook? = some k → Made h k (some index)) ∧
      World.Called x (h ++ es.map (w.entry (.member i)))
        { w with
          memory := m'
          point := .running index { g with members := g.members.set i s' } } := by
  unfold World.Called at hw
  rw [hp] at hw
  have hindex : w.point.index? = some index := by rw [hp]; rfl
  have quiet (he : ∀ e ∈ es, e.isQuiet = true) (q : Request) (r : Reply) (k : Hook)
      (hm : .answered q r ∈ es)
      (hk : q.hook? = some k) : Made h k (some index) := by
    have := he _ hm
    cases q with
    | sleep d => cases hk
    | construct | stage | work => cases this
  -- the others are in the calls that they were in before
  have others (hown : ∀ p k, s'.calling = true → s'.stand = .point p →
      ((x.pass g.iteration i).call? m' p).bind Request.hook? = some k →
        Made (h ++ es.map (w.entry (.member i))) k (some index)) :
      World.Called x (h ++ es.map (w.entry (.member i)))
        { w with
          memory := m'
          point := .running index { g with members := g.members.set i s' } } := by
    intro j u p k hj hc hu hk
    rcases getElem?_set_eq_some hj with ⟨rfl, rfl⟩ | ⟨_, hj⟩
    · exact hown p k hc hu hk
    · exact (hw j u p k hj hc hu ((Pass.call?_hook _ _ _ _).trans hk)).append _
  cases ha with
  | @rest p _ _ hp' hc hs he =>
    refine ⟨quiet he, others fun p' k hcall hu hk => ?_⟩
    cases hp'.symm.trans (hs.symm.trans hu)
    rw [hc] at hk
    cases hk
  | act hp' hc ht he => exact ⟨quiet he, others fun p' k hcall => Bool.noConfusion hcall⟩
  | @call p q hp' hc hs =>
    refine ⟨fun q' r k hm => ?_, others fun p' k hcall hu hk => ?_⟩
    · cases List.mem_singleton.mp hm
    cases hu
    rw [hc] at hk
    exact ⟨_, List.mem_append_right _ List.mem_cons_self, hk, hindex, i, rfl⟩
  | @reply p q r k now hp' hc hs hk ht hd =>
    refine ⟨?_, others fun p' k hcall => Bool.noConfusion hcall⟩
    intro q' r' k' hm hk'
    cases List.mem_singleton.mp hm
    exact hw i s p k' hi hs hp' (by rw [hc]; exact hk')

/-- The cleanup that a caller calls is the only hook in its release. -/
theorem called_giveBack {c : Iteration} {now : Nat} {m' : Memory} {s s' : Strand Release.Point Unit}
    (ha : s.Advanced ((x.giveBack c).step now m) m m' es s') (hi : w.point.index? = none)
    (hw : s.calling = true → ∀ f, s.stand = .point (.cleaning f .hook) →
      Made h (.stage ⟨.trial, .tearDown⟩) none) :
    (∀ q r k, .answered q r ∈ es → q.hook? = some k → Made h k none) ∧
      (s'.calling = true → ∀ f, s'.stand = .point (.cleaning f .hook) →
        Made (h ++ es.map (w.entry .caller)) (.stage ⟨.trial, .tearDown⟩) none) := by
  cases ha with
  | act hp hv =>
    refine ⟨fun q r k hm => ?_, fun hc => Bool.noConfusion hc⟩
    obtain ⟨n, _, hn⟩ := List.mem_map.mp hm
    cases hn
  | @call p q k hp hv hc =>
    refine ⟨fun q r k hm => ?_, fun _ f hf => ?_⟩
    · cases List.mem_singleton.mp hm
    · cases hf
      rcases Release.step_eq_ask hv with ⟨f', hf', rfl, _⟩ | ⟨⟨f', p', hf'⟩, _⟩
      · exact ⟨_, List.mem_append_right _ List.mem_cons_self, rfl, hi, rfl⟩
      · cases hf'
  | @reply p q k r hp hv hc hr =>
    refine ⟨fun q' r' k' hm hk => ?_, fun hc => Bool.noConfusion hc⟩
    cases List.mem_singleton.mp hm
    rcases Release.step_eq_ask hv with ⟨f, rfl, rfl, _⟩ | ⟨_, d, rfl⟩
    · cases hk
      exact hw hc f hp
    · cases hk

theorem World.Called.step (hw : w.Called x h) (hc : Changed x w who es w') :
    (∀ q r k, .answered q r ∈ es → q.hook? = some k → Made h k w.point.index?) ∧
      w'.Called x (h ++ es.map (w.entry who)) := by
  have silent {more : List Event} (he : ∀ q r, .answered q r ∉ more) (q : Request)
      (r : Reply) (k : Hook)
      (hm : .answered q r ∈ more) : q.hook? = some k → Made h k w.point.index? := absurd hm (he q r)
  cases hc with
  | launch hp =>
    refine ⟨silent (by simp), fun i s p k hi hcall => ?_⟩
    obtain ⟨_, _, rfl⟩ := List.mem_map.mp (List.mem_of_getElem? hi)
    cases hcall
  | member hp hi ha =>
    obtain ⟨hes, hw'⟩ := hw.played hp hi (Pass.played_of_advanced ha)
    rw [hp]
    exact ⟨hes, hw'⟩
  | conductor hp ha =>
    refine ⟨fun q r k hm hk => ?_, fun i s p k hi hcall hs hk => ?_⟩
    · have hq := Conductor.quiet_of_advanced ha _ hm
      cases q with
      | sleep d => cases hk
      | construct | stage | work => cases hq
    · unfold World.Called at hw
      rw [hp] at hw
      exact (hw i s p k hi hcall hs ((Pass.call?_hook _ _ _ _).trans hk)).append _
  | @settle index g hp he =>
    refine ⟨silent (by simp), ?_⟩
    have hs := x.settled w index g
    generalize x.settle w index g = w' at hs
    cases hs <;> trivial
  | checkInterrupted | abandon => exact ⟨silent (by simp), trivial⟩
  | clean => exact ⟨silent (by simp), fun hc => Bool.noConfusion hc⟩
  | cleaning hp ha hs =>
    unfold World.Called at hw
    rw [hp] at hw ⊢
    exact called_giveBack ha (congrArg Point.index? hp) hw
  | cleaned hp ha hs hr =>
    unfold World.Called at hw
    rw [hp] at hw ⊢
    refine ⟨fun q r k hm hk => ?_, trivial⟩
    rcases List.mem_append.mp hm with hm | hm
    · exact (called_giveBack (w := w) ha (congrArg Point.index? hp) hw).1 q r k hm hk
    · cases List.mem_singleton.mp hm
  | cleanupCrashed hp ha hs =>
    unfold World.Called at hw
    rw [hp] at hw ⊢
    exact ⟨(called_giveBack (w := w) ha (congrArg Point.index? hp) hw).1, trivial⟩
  | @clearing r s s' m es hp ha =>
    obtain ⟨notes, rfl⟩ := Clear.noted ha
    refine ⟨silent (by simp), ?_⟩
    unfold World.Called
    cases s'.stand.hasEnded <;> trivial

theorem Run.answered (hr : x.Run m h w) : Answered h := by
  have key : Answered h ∧ w.Called x h := by
    refine hr.induct (P := fun h w => Answered h ∧ w.Called x h) ⟨?_, ?_⟩ ?_
    · intro e he
      cases he
    · unfold World.Called
      rcases x.start_point m with hp | hp <;> rw [hp] <;> trivial
    · intro h w who es w' _ ⟨ha, hw⟩ hc
      obtain ⟨hes, hw'⟩ := hw.step hc
      exact ⟨ha.append hes, hw'⟩
  exact key.1

end Execution
end LoadBench
