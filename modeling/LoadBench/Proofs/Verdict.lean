import LoadBench.Proofs.Blame
import LoadBench.Proofs.Closing
import LoadBench.Proofs.Pool
import LoadBench.Proofs.Vacancy

/-!
# What is to be reported of a failed iteration

An iteration fails if all its members have ended and not all of them well. What is to be reported is
then decided (`Execution.verdict`): the first crash in the order of the members, or else the first
primary failure, whatever secondary ones stand before it. If there is neither, the iteration was
interrupted; the caller takes its turn at the cleanup (`Execution.Tidying`), and it is what goes
wrong there, or else the interruption.
-/

namespace LoadBench

/-! ### The outcomes of an iteration -/

theorem Outcome.unharmed_iff {α : Type} {o : Outcome α} : o.Unharmed ↔ o.crash? = none ∧
    o.primary? = none := by
  cases o <;> simp [Unharmed, crash?, primary?, failure?, Option.filter]

namespace Execution
variable {α : Type}

theorem primary_of_decisive? {l : List (Outcome α)} {e : Failure} (h : decisive? l = some e) :
    l.findSome? Outcome.primary? = if e.isSecondary then none else some e := by
  cases hp : l.findSome? Outcome.primary? with
  | some e' =>
    rw [decisive?_eq, hp] at h
    cases h
    obtain ⟨o, _, ho⟩ := List.exists_of_findSome?_eq_some hp
    rw [(Outcome.primary?_eq_some.mp ho).2]
    rfl
  | none =>
    cases hs : e.isSecondary with
    | true => rfl
    | false =>
      have hn := List.findSome?_eq_none_iff.mp hp _ (mem_of_decisive? h)
      cases hn.symm.trans (Outcome.primary?_eq_some.mpr ⟨rfl, hs⟩)

end Execution

namespace Group
variable {x : Execution} {g : Group} {m : Memory}

/-- When everybody has ended, the outcomes stand in the order of the members. -/
theorem map_outcomes (he : g.hasEnded = true) :
    g.outcomes.map some = g.members.map Strand.outcome? := by
  have hm := List.all_eq_true.mp (Bool.and_eq_true_iff.mp he).2
  unfold outcomes
  revert hm
  induction g.members with
  | nil => exact fun _ => rfl
  | cons s rest ih =>
    intro hm
    cases hs : s.outcome? with
    | none =>
      exact Bool.noConfusion ((hm s List.mem_cons_self).symm.trans (Strand.hasEnded_of_outcome? hs))
    | some o =>
      rw [List.filterMap_cons_some hs, List.map_cons, List.map_cons, hs,
        ih fun t ht => hm t (List.mem_cons_of_mem _ ht)]

/-- An iteration that has failed: all its members have ended, not all of them well. -/
def Failed (g : Group) : Prop := g.hasEnded = true ∧ ∃ o ∈ g.outcomes, o.isOk = false

def Mild (g : Group) : Prop :=
  g.outcomes.findSome? Outcome.crash? = none ∧ g.outcomes.findSome? Outcome.primary? = none

theorem mild_iff : g.Mild ↔ ∀ o ∈ g.outcomes, o.Unharmed := by
  simp only [Mild, List.findSome?_eq_none_iff, Outcome.unharmed_iff]
  exact ⟨fun h o ho => ⟨h.1 o ho, h.2 o ho⟩,
    fun h => ⟨fun o ho => (h o ho).1, fun o ho => (h o ho).2⟩⟩

/-- What an iteration that has failed leaves to the caller. -/
structure Over (x : Execution) (m : Memory) (g : Group) : Prop where
  failed : g.Failed
  quiet : m.Quiet x.site
  blamed : m.hasFailed g.iteration = true ↔ ¬ g.Mild
  interrupted : g.Mild → m.isInterrupted g.iteration = true

theorem Answerable.over {index f : Nat} {marks : List Nat} (hA : g.Answerable x m f)
    (ha : g.Agreed x index m marks f) (hg : g.Failed) : g.Over x m := by
  have hblamed : m.hasFailed g.iteration = true ↔ ¬ g.Mild := by
    rw [hA.failed_iff hg.1, mild_iff]
    simp
  refine ⟨hg, hA.kept.quiet ha hg.1, hblamed, fun hmild => ?_⟩
  obtain ⟨o, ho, hno⟩ := hg.2
  have hunharmed := mild_iff.mp hmild o ho
  cases o with
  | ok r => cases hno
  | failed e => exact interrupted ha (Bool.eq_false_iff.mpr fun hf => hblamed.mp hf hmild) ho
  | crashed text => exact hunharmed.elim

end Group

namespace Execution
variable {x : Execution} {g : Group}

/-- What the caller's cleanup comes to, by the replies to its hook. -/
def cleanup (x : Execution) : List Reply → Outcome Unit
  | [.refused problem] => .failed (.tearDown x.site.name ⟨.trial, .tearDown⟩ problem)
  | [.crashed text] => .crashed text
  | _ => .ok ()

/-- What is reported of an iteration that has failed: the first crash, or else the first primary
failure, or else what went wrong as the caller cleaned up, or else the interruption. -/
def verdict (x : Execution) (g : Group) (replies : List Reply) : Outcome Summary :=
  match g.outcomes.findSome? Outcome.crash?, g.outcomes.findSome? Outcome.primary? with
  | some text, _ => .crashed text
  | none, some e => .failed e
  | none, none =>
    match x.cleanup replies with
    | .ok _ => .failed .interrupted
    | .failed e => .failed e
    | .crashed text => .crashed text

theorem verdict_crashed {text : String} (h : g.outcomes.findSome? Outcome.crash? = some text)
    (replies : List Reply) :
    x.verdict g replies = .crashed text := by
  unfold verdict
  rw [h]

theorem verdict_primary {e : Failure} (hc : g.outcomes.findSome? Outcome.crash? = none)
    (hp : g.outcomes.findSome? Outcome.primary? = some e) (replies : List Reply) :
    x.verdict g replies = .failed e := by
  unfold verdict
  rw [hc, hp]

theorem verdict_mild (h : g.Mild) (replies : List Reply) :
    x.verdict g replies = match x.cleanup replies with
      | .ok _ => .failed .interrupted
      | .failed e => .failed e
      | .crashed text => .crashed text := by
  unfold verdict
  rw [h.1, h.2]

/-- Nobody is told that others were waited for in vain. -/
theorem verdict_ne_aborted (x : Execution) (g : Group) (replies : List Reply) :
    x.verdict g replies ≠ .failed .aborted := by
  intro h
  cases hc : g.outcomes.findSome? Outcome.crash? with
  | some text => cases (verdict_crashed hc replies).symm.trans h
  | none =>
    cases hp : g.outcomes.findSome? Outcome.primary? with
    | some e =>
      cases (verdict_primary hc hp replies).symm.trans h
      obtain ⟨o, _, ho⟩ := List.exists_of_findSome?_eq_some hp
      exact Bool.noConfusion (Outcome.primary?_eq_some.mp ho).2
    | none =>
      rw [verdict_mild ⟨hc, hp⟩] at h
      unfold cleanup at h
      split at h
      · cases h
      · rename_i hr
        split at hr
        · cases hr
          cases h
        · cases hr
        · cases hr
      · cases h

/-- Where all members have ended well, their results are kept unless it was a warmup, and the
trial goes on or ends. -/
theorem settle_eq_of_ok {w : World} {index : Nat} (ho : ∀ o ∈ g.outcomes, o.isOk = true) :
    x.settle w index g =
      let reports := if x.isWarmup index then w.reports else w.reports ++ [results g.outcomes]
      { w with
        reports
        point :=
          if index + 1 = x.trial.iterations then .ended (.ok (x.summary reports))
          else .launch (index + 1) (w.memory.signalsOf g.iteration).mask } := by
  have hc : firstCrash? g.outcomes = none := by
    cases hc : firstCrash? g.outcomes with
    | none => rfl
    | some text => cases ho _ (mem_of_firstCrash? hc)
  have hd : decisive? g.outcomes = none := by
    cases hd : decisive? g.outcomes with
    | none => rfl
    | some e => cases ho _ (mem_of_decisive? hd)
  unfold settle
  rw [hc, hd]

/-- Where all members have ended well, the next iteration is launched, or the trial ends well. -/
theorem settle_of_ok {w : World} {index : Nat} (ho : ∀ o ∈ g.outcomes, o.isOk = true) :
    (∃ s, (x.settle w index g).point = .ended (.ok s)) ∨
      ∃ i mask, (x.settle w index g).point = .launch i mask := by
  rw [settle_eq_of_ok ho]
  by_cases hl : index + 1 = x.trial.iterations
  · exact .inl ⟨_, if_pos hl⟩
  · exact .inr ⟨_, _, if_neg hl⟩

theorem memory_settle (x : Execution) (w : World) (index : Nat) (g : Group) :
    (x.settle w index g).memory = w.memory := by
  have hs := x.settled w index g
  generalize x.settle w index g = w' at hs
  cases hs <;> rfl

end Execution

/-! ### The caller's cleanup -/

section
variable {t : Turn} {m m' : Memory} {p : Turn.Point} {u : Stand Turn.Point Unit}

theorem Turn.Step.isEntered (h : t.Step m p m' u) (site : Site) :
    m'.isEntered site = m.isEntered site := by
  cases h <;> rfl

/-- A turn leaves the gates of other stages alone. -/
theorem Turn.Step.gate_ne (h : t.Step m p m' u) {s : Stage} (hs : s ≠ t.stage) :
    m'.gate t.fixture s = m.gate t.fixture s := by
  cases h with
  | enter | leave => rw [Memory.gate_setGate, if_neg hs]
  | commit => exact Memory.gate_setReady ..
  | _ => rfl

end

def Entry.cleanup? (e : Entry) : Option Reply :=
  match e.who, e.event with
  | .caller, .answered (.stage _ _ ⟨.trial, .tearDown⟩) r => some r
  | _, _ => none

def cleanups (h : List Entry) : List Reply := h.filterMap Entry.cleanup?

@[simp] theorem cleanups_append (h h' : List Entry) :
    cleanups (h ++ h') = cleanups h ++ cleanups h' :=
  List.filterMap_append ..

@[simp] theorem cleanups_noted (w : Execution.World) (who : Execution.Actor) (notes : List Note) :
    cleanups ((notes.map Event.noted).map (w.entry who)) = [] := by
  rw [cleanups, List.filterMap_eq_nil_iff]
  intro e he
  obtain ⟨_, hn, rfl⟩ := List.mem_map.mp he
  obtain ⟨n, _, rfl⟩ := List.mem_map.mp hn
  cases who <;> rfl

namespace Execution
variable {x : Execution} {c : Iteration} {replies : List Reply} {m m' : Memory} {f : Nat}
  {h : List Entry} {w w' : World} {es : List Event}

/-- What is certain of the caller's turn at the cleanup, by the replies to its hook so
far; it waits for nobody. -/
def Serving (x : Execution) (c : Iteration) (replies : List Reply) (m : Memory) (f : Nat) :
    Turn.Point → Prop
  | .enter => replies = [] ∧ m.hasFailed c = false ∧ m.gate f ⟨.trial, .tearDown⟩ = .idle
  | .checkFailed => replies = [] ∧ m.hasFailed c = false
  | .checkReady | .hook => replies = []
  | .commit => ∃ v, replies = [.returned v]
  | .condemn y => replies = [y.reply]
  | .leave r => r = x.cleanup replies
  | .queued _ => False

theorem Serving.step {p : Turn.Point} {t : Stand Turn.Point Unit} (hp : x.Serving c replies m f p)
    (ht : ((x.giveBack c).turn f).Step m p m' t) (hh : p ≠ .hook) :
    t.Meets (x.Serving c replies m' f) fun r =>
      r = x.cleanup replies ∧ m'.gate f ⟨.trial, .tearDown⟩ = .idle := by
  cases ht with
  | enter => exact ⟨hp.1, hp.2.1⟩
  | queue hg => exact Gate.noConfusion (hp.2.2.symm.trans hg)
  | abort hf => exact Bool.noConfusion (hf.symm.trans hp.2)
  | proceed => exact hp.1
  | settled =>
    cases (hp : replies = [])
    rfl
  | due => exact hp
  | @condemn y =>
    cases (hp : replies = [y.reply])
    cases y <;> rfl
  | commit =>
    obtain ⟨v, rfl⟩ := hp
    rfl
  | leave => exact ⟨hp, (Memory.gate_setGate ..).trans (if_pos rfl)⟩
  | returned | mishap => exact absurd rfl hh
  | wait | foundIdle | giveUp | join | foundFailed => exact hp.elim

/-- What is certain of the release that the turn is part of. -/
def Tidying (x : Execution) (c : Iteration) (replies : List Reply) (m : Memory) :
    Stand Release.Point Unit → Prop
  | .point .look => replies = [] ∧ m.hasFailed c = false ∧ m.Quiet x.site
  | .point (.cleaning f p) => m.isEntered x.site = false ∧ m.live? x.site = some f ∧
      (∀ s, s ≠ ⟨.trial, .tearDown⟩ → m.gate f s = .idle) ∧ x.Serving c replies m f p
  | .point .checkFailed => replies = [] ∧ m.hasFailed c = false ∧ m.isEntered x.site = false
  | .point (.clearing r p) =>
    r = x.cleanup replies ∧ Clear.Alone m x.site (.point p) ∧
      Clear.Vacating (m.live? x.site) (.point p)
  | .ended r => r = x.cleanup replies ∧ m.Quiet x.site

theorem Tidying.step {p : Release.Point} {t : Stand Release.Point Unit}
    (hp : x.Tidying c replies m (.point p)) (ht : (x.giveBack c).Step m p m' t)
    (hh : ∀ f, p ≠ .cleaning f .hook) : x.Tidying c replies m' t := by
  have still {f : Nat} {q : Turn.Point} (hq : Release.Point.cleaning f q ≠ .cleaning f .hook) :
      q ≠ .hook :=
    fun hc => hq (congrArg _ hc)
  cases ht with
  | @found f hl =>
    obtain ⟨hr, hf, hm⟩ := hp
    exact ⟨hm.left, hl, fun s _ => hm.idle f hl s, hr, hf, hm.idle f hl _⟩
  | vacant => exact ⟨hp.1, hp.2.1, hp.2.2.left⟩
  | @cleaning f p q _ ht =>
    obtain ⟨hleft, hl, hidle, hs⟩ := hp
    exact ⟨(ht.isEntered _).trans hleft, (ht.live? _).trans hl,
      fun s hne => (ht.gate_ne hne).trans (hidle s hne), hs.step ht (still (hh f))⟩
  | @cleaned f p _ r ht =>
    obtain ⟨hleft, _, _, hs⟩ := hp
    exact ⟨(hs.step ht (still (hh f))).1, (ht.isEntered _).trans hleft, trivial⟩
  | @crashed f p _ text ht =>
    obtain ⟨hleft, hl, hidle, hs⟩ := hp
    obtain ⟨hr, hgate⟩ := hs.step ht (still (hh f))
    refine ⟨hr, (ht.isEntered _).trans hleft, fun f' hl' s => ?_⟩
    cases hl'.symm.trans ((ht.live? _).trans hl)
    by_cases hne : s = ⟨.trial, .tearDown⟩
    · exact hne ▸ hgate
    · exact (ht.gate_ne hne).trans (hidle s hne)
  | abort hf => exact Bool.noConfusion (hf.symm.trans hp.2.1)
  | proceed =>
    obtain ⟨rfl, _, hleft⟩ := hp
    exact ⟨rfl, hleft, trivial⟩
  | clearing hc => exact ⟨hp.1, hc.alone, hc.vacating hp.2.2⟩
  | cleared hc => exact ⟨hp.1, .of_vacant hc.alone (hc.vacating hp.2.2)⟩

theorem Tidying.advanced {now : Nat} {s s' : Strand Release.Point Unit}
    (hs : x.Tidying c (cleanups h) m s.stand)
    (ha : s.Advanced ((x.giveBack c).step now m) m m' es s') :
    x.Tidying c (cleanups (h ++ es.map (w.entry .caller))) m' s'.stand := by
  cases ha with
  | @act p m' notes t hp hv =>
    have ht : (x.giveBack c).Step m p m' t := Release.step_of_yields (by rw [hv]; exact ⟨rfl, rfl⟩)
    rw [hp] at hs
    rw [cleanups_append, cleanups_noted, List.append_nil]
    exact hs.step ht (by rintro f rfl; cases hv)
  | @call p q k hp hv hc =>
    rw [hp] at hs
    rw [cleanups_append]
    exact (List.append_nil _).symm ▸ hs
  | @reply p q k r hp hv hc hr =>
    rw [hp] at hs
    rcases Release.step_eq_ask hv with ⟨f, rfl, rfl, rfl⟩ | ⟨⟨f, p', rfl⟩, _⟩
    · obtain ⟨hleft, hl, hidle, hr⟩ := hs
      have hr : cleanups h = [] := hr
      refine ⟨hleft, hl, hidle, ?_⟩
      rw [cleanups_append, hr]
      cases r with
      | returned v => exact ⟨v, rfl⟩
      | refused problem | crashed text => exact rfl
    · exact hs.2.2.2.elim

end Execution

end LoadBench
