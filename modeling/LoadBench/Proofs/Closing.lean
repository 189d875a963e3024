import LoadBench.Proofs.Winding

/-!
# After an interruption

When all members of an interrupted iteration have ended, the teardown of the iteration has returned,
and so has the cleanup if the iteration was the last; otherwise the fixture is live and the cleanup
was never called (`Execution.Interrupted`). The caller then takes a turn at the cleanup alone. From
the note that time is over until the trial has ended, all this is kept by every step
(`Execution.World.Closing`).
-/

namespace LoadBench

/-- In which iteration the cleanup falls, if the trial is interrupted in one: only in the last of
all it is left to its members. -/
def Execution.cleanupAt (x : Execution) (index : Nat) : Option Nat :=
  if index + 1 = x.trial.iterations then some index else none

namespace Execution
variable {x : Execution} {index f : Nat} {h : List Entry} {m m' : Memory} {w w' : World}
  {es : List Event}

/-- The cleanup has returned and the trial level is down, or it is the caller's to
call and the level is up. -/
def CleanupDue (x : Execution) (index : Nat) (h : List Entry) (up : Bool) : Prop :=
  (Returned h (x.cleanupAt index) ⟨.trial, .tearDown⟩ ∧ up = false) ∨
    (x.cleanupAt index = none ∧ ¬ Began h none (.stage ⟨.trial, .tearDown⟩) ∧ up = true)

structure Interrupted (x : Execution) (index : Nat) (h : List Entry) (m : Memory) : Prop where
  clear : m.failing.get x.flag = false
  left : m.isEntered x.site = false
  torn : Returned h (some index) ⟨.iteration, .tearDown⟩
  cleanup : (m.live? x.site = none ∧ Returned h (x.cleanupAt index) ⟨.trial, .tearDown⟩) ∨
    ∃ f, m.live? x.site = some f ∧ m.gate f ⟨.trial, .tearDown⟩ = .idle ∧
      x.CleanupDue index h (m.isReady f ⟨.trial, .tearDown⟩)

end Execution

namespace Group.Winding
variable {x : Execution} {index f : Nat} {h : List Entry} {m : Memory} {g : Group}
  {marks : List Nat} {w : Execution.World}

/-- When everybody has ended, the teardowns that were handled are settled. -/
theorem settled (hw : g.Winding x index h m marks f) (he : g.hasEnded = true) {s : Stage}
    (hs : (m.view g.iteration x.site f).Handled s) : (m.view g.iteration x.site f).Settled s := by
  refine hs.resolve_right ?_
  rw [(hw.gates s).free_of_none]
  · exact Bool.false_ne_true
  · intro t ht
    obtain ⟨o, rfl⟩ := exists_outcome he ht
    rfl

theorem returned (hw : g.Winding x index h m marks f) {l : Level} (hl : l ≠ .invocation)
    (hs : (m.view g.iteration x.site f).Settled ⟨l, .tearDown⟩) :
    Returned h (some index) ⟨l, .tearDown⟩ :=
  (hw.up l hl).resolve_left fun hup => Bool.noConfusion (hs.symm.trans hup)

theorem interrupted (hw : g.Winding x index h m marks f) (he : g.hasEnded = true) :
    m.isInterrupted g.iteration = true ∧ x.Interrupted index h m := by
  obtain ⟨hP, hA⟩ := hw.agreed
  obtain ⟨left, idle⟩ := hw.hale.kept.free he
  have hlate := hw.late
  have hpos : 0 < g.stands.length := hP.length ▸ x.threads.pos
  have hmem : g.stands[0] ∈ g.stands := List.getElem_mem hpos
  have hlast : g.iteration.isLast = decide (index + 1 = x.trial.iterations) := by
    rw [hP.iteration]
    rfl
  have htorn : (m.view g.iteration x.site f).Settled ⟨.iteration, .tearDown⟩ := by
    obtain ⟨o, ho⟩ := exists_outcome he hmem
    exact hw.settled he (hw.finished _ hmem (by rw [ho]; rfl))
  refine ⟨?_, ?_, left, hw.returned (by decide) htorn, ?_⟩
  · cases hc : g.conductor.stand with
    | point p =>
      have hended := (Bool.and_eq_true_iff.mp he).1
      rw [hc] at hended
      cases hended
    | ended o =>
      rw [hc] at hlate
      exact hlate.1
  · have hclear := hw.clear
    rw [hP.iteration] at hclear
    exact hclear
  · by_cases hl : index + 1 = x.trial.iterations
    · have hdone : (m.view g.iteration x.site f).Settled ⟨.trial, .tearDown⟩ := by
        rcases hw.bound (hlast.trans (decide_eq_true hl)) htorn with hs | ⟨t, ht, hb⟩
        · exact hw.settled he hs
        · obtain ⟨o, rfl⟩ := exists_outcome he ht
          cases hb
      have hret : Returned h (x.cleanupAt index) ⟨.trial, .tearDown⟩ := by
        rw [Execution.cleanupAt, if_pos hl]
        exact hw.returned (by decide) hdone
      cases hlive : m.live? x.site with
      | none => exact .inl ⟨rfl, hret⟩
      | some f' =>
        cases hA.live hlive
        exact .inr ⟨f, rfl, idle hlive _, .inl ⟨hret, hdone⟩⟩
    · obtain ⟨hlive, hn⟩ := hw.kept (hlast.trans (decide_eq_false hl))
      have hup : (m.view g.iteration x.site f).Settled ⟨.trial, .setUp⟩ := by
        refine (hw.hale.trialUp ?_).resolve_right fun hd => ?_
        · rw [hlive]
          exact Option.some_ne_none f
        · exact hl (of_decide_eq_true (hlast.symm.trans hd.1))
      have hat : x.cleanupAt index = none := by rw [Execution.cleanupAt, if_neg hl]
      exact .inr ⟨f, hlive, idle hlive _, .inr ⟨hat, fun hb => hn (hb.of_trial rfl), hup⟩⟩

theorem settle (hw : g.Winding x index h m marks f) (he : g.hasEnded = true) :
    ∃ e, x.settle w index g = { w with point := .checkInterrupted g.iteration e } := by
  have hpos : 0 < g.stands.length := hw.agreed.1.length ▸ x.threads.pos
  obtain ⟨o, ho⟩ := exists_outcome he (List.getElem_mem hpos)
  obtain ⟨e, rfl, _⟩ := hw.secondary (mem_outcomes.mpr (ho ▸ List.getElem_mem hpos))
  unfold Execution.settle
  cases hc : Execution.firstCrash? g.outcomes with
  | some text =>
    obtain ⟨e, he, _⟩ := hw.secondary (Execution.mem_of_firstCrash? hc)
    cases he
  | none =>
    cases hd : Execution.decisive? g.outcomes with
    | none =>
      exact absurd (mem_outcomes.mpr (ho ▸ List.getElem_mem hpos))
        (Execution.decisive?_eq_none hd e)
    | some e' =>
      obtain ⟨e'', he'', hsec⟩ := hw.secondary (Execution.mem_of_decisive? hd)
      cases he''
      exact ⟨e', by simp only [hsec, if_true]⟩

end Group.Winding

/-! ### The caller alone -/

theorem Strand.hasEnded_of_outcome? {σ α : Type} {s : Strand σ α} (h : s.outcome? = none) :
    s.stand.hasEnded = false := by
  unfold outcome? at h
  cases hs : s.stand with
  | point p => rfl
  | ended o =>
    rw [hs] at h
    cases h

theorem Stand.exists_point {σ α : Type} {t : Stand σ α} (h : t.hasEnded = false) :
    ∃ p, t = .point p := by
  cases t with
  | point p => exact ⟨p, rfl⟩
  | ended o => cases h

/-- Nobody is in the section of the site, unless the one who clears it is. -/
def Clear.Alone (m : Memory) (site : Site) : Stand Clear.Point Unit → Prop
  | .point .enter | .ended _ => m.isEntered site = false
  | .point _ => True

theorem Clear.Step.alone {c : Clear} {m m' : Memory} {p : Clear.Point} {t : Stand Clear.Point Unit}
    (h : c.Step m p m' t) : Clear.Alone m' c.site t := by
  cases h with
  | enter | store => trivial
  | leave =>
    change (m.setEntered c.site false).isEntered c.site = false
    rw [Memory.isEntered_setEntered, if_pos rfl]

theorem Clear.alone_of_advanced {c : Clear} {m m' : Memory} {s s' : Strand Clear.Point Unit}
    {es : List Event} (h : s.Advanced (c.step m) m m' es s') (hs : Clear.Alone m c.site s.stand) :
    Clear.Alone m' c.site s'.stand := by
  rcases h.yields with ⟨rfl, hs'⟩ | ⟨p, _, hy⟩
  · rw [hs']
    exact hs
  · exact (Clear.step_of_yields hy).alone

namespace Execution
variable {x : Execution} {index f : Nat} {h : List Entry} {m m' : Memory} {w w' : World}
  {es : List Event}

/-- What is certain of the caller's own turn at the cleanup; it waits for nobody. -/
def Attending (x : Execution) (index : Nat) (h : List Entry) (m : Memory) (f : Nat)
    (calling : Bool) :
    Turn.Point → Prop
  | .enter =>
    m.gate f ⟨.trial, .tearDown⟩ = .idle ∧ x.CleanupDue index h (m.isReady f ⟨.trial, .tearDown⟩)
  | .checkFailed | .checkReady => x.CleanupDue index h (m.isReady f ⟨.trial, .tearDown⟩)
  | .hook =>
    x.cleanupAt index = none ∧ (calling = false → ¬ Began h none (.stage ⟨.trial, .tearDown⟩))
  | .commit => Returned h (x.cleanupAt index) ⟨.trial, .tearDown⟩
  | .leave o => o = .ok () ∧ Returned h (x.cleanupAt index) ⟨.trial, .tearDown⟩
  | .queued _ | .condemn _ => False

/-- What is certain of the caller that gives the fixture back after an interruption. -/
def Releasing (x : Execution) (index : Nat) (h : List Entry) (m : Memory) (calling : Bool) :
    Stand Release.Point Unit → Prop
  | .point .look => x.Interrupted index h m
  | .point (.cleaning f p) => m.isEntered x.site = false ∧ x.Attending index h m f calling p
  | .point .checkFailed =>
    m.isEntered x.site = false ∧ Returned h (x.cleanupAt index) ⟨.trial, .tearDown⟩
  | .point (.clearing o p) => o = .ok () ∧ Clear.Alone m x.site (.point p) ∧
      Returned h (x.cleanupAt index) ⟨.trial, .tearDown⟩
  | .ended o =>
    o = .ok () ∧ m.isEntered x.site = false ∧ Returned h (x.cleanupAt index) ⟨.trial, .tearDown⟩

section
variable {who : Actor} {b : Bool} {created : Nat}

theorem CleanupDue.quiet (hd : x.CleanupDue index h b) (he : ∀ e ∈ es, e.begun? = none) :
    x.CleanupDue index (h ++ es.map (w.entry who)) b :=
  hd.imp (fun hr => ⟨hr.1.append _, hr.2⟩) fun hn =>
    ⟨hn.1, fun hb => hn.2.1 ((began_of_quiet he).mp hb), hn.2.2⟩

theorem Interrupted.quiet (hi : x.Interrupted index h m) (he : ∀ e ∈ es, e.begun? = none) :
    x.Interrupted index (h ++ es.map (w.entry who)) m where
  clear := hi.clear
  left := hi.left
  torn := hi.torn.append _
  cleanup := hi.cleanup.imp (fun hr => ⟨hr.1, hr.2.append _⟩) fun ⟨f, hl, hg, hd⟩ =>
    ⟨f, hl, hg, hd.quiet he⟩

/-- An event that begins no hook takes nothing back. -/
theorem Releasing.quiet {t : Stand Release.Point Unit} (hr : x.Releasing index h m b t)
    (he : ∀ e ∈ es, e.begun? = none) : x.Releasing index (h ++ es.map (w.entry who)) m b t := by
  cases t with
  | ended o => exact ⟨hr.1, hr.2.1, hr.2.2.append _⟩
  | point p =>
    cases p with
    | look => exact Interrupted.quiet hr he
    | checkFailed => exact ⟨hr.1, hr.2.append _⟩
    | clearing o p => exact ⟨hr.1, hr.2.1, hr.2.2.append _⟩
    | cleaning f p =>
      refine ⟨hr.1, ?_⟩
      have hr := hr.2
      cases p with
      | enter => exact ⟨hr.1, hr.2.quiet he⟩
      | checkFailed | checkReady => exact CleanupDue.quiet hr he
      | hook => exact ⟨hr.1, fun hb hb' => hr.2 hb ((began_of_quiet he).mp hb')⟩
      | commit => exact Returned.append hr _
      | leave o => exact ⟨hr.1, hr.2.append _⟩
      | queued | condemn => exact hr.elim

theorem Attending.step {p : Turn.Point} {t : Stand Turn.Point Unit}
    (ht : x.Attending index h m f b p)
    (hs : (((x.giveBack (x.iteration index created)).turn f).Step m p m' t))
    (hclear : m.failing.get x.flag = false) (hp : p ≠ .hook) :
    m'.failing.get x.flag = false ∧ m'.isEntered x.site = m.isEntered x.site ∧
      t.Meets (x.Attending index h m' f false) fun o =>
        o = .ok () ∧ Returned h (x.cleanupAt index) ⟨.trial, .tearDown⟩ := by
  have hf : m.hasFailed (x.iteration index created) = false := hclear
  cases hs with
  | enter =>
    refine ⟨hclear, rfl, ?_⟩
    change x.CleanupDue index h _
    rw [Memory.isReady_setGate]
    exact ht.2
  | queue hg => exact Gate.noConfusion (ht.1.symm.trans hg)
  | abort hF => exact Bool.noConfusion (hF.symm.trans hf)
  | proceed => exact ⟨hclear, rfl, ht⟩
  | settled hs =>
    refine ⟨hclear, rfl, rfl, (ht.resolve_right fun hd => ?_).1⟩
    exact Bool.noConfusion (hs.symm.trans hd.2.2)
  | due hs =>
    obtain ⟨hat, hn, _⟩ := ht.resolve_left fun hd => hs hd.2
    exact ⟨hclear, rfl, hat, fun _ => hn⟩
  | commit => exact ⟨hclear, rfl, rfl, ht⟩
  | leave => exact ⟨hclear, rfl, ht⟩
  | returned | mishap => exact absurd rfl hp
  | wait | foundIdle | giveUp | join | foundFailed | condemn => exact ht.elim

theorem Releasing.step {p : Release.Point} {t : Stand Release.Point Unit}
    (hr : x.Releasing index h m b (.point p))
    (hs : (x.giveBack (x.iteration index created)).Step m p m' t)
    (hclear : m.failing.get x.flag = false) (hp : ∀ f, p ≠ .cleaning f .hook) :
    m'.failing.get x.flag = false ∧ x.Releasing index h m' false t := by
  have still {f : Nat} {q : Turn.Point} (hq : Release.Point.cleaning f q ≠ .cleaning f .hook) :
      q ≠ .hook :=
    fun hc => hq (congrArg _ hc)
  cases hs with
  | found hl =>
    obtain ⟨clear, left, _, ⟨hn, _⟩ | ⟨f, hf, hg, hd⟩⟩ := hr
    · cases hl.symm.trans hn
    · cases hl.symm.trans hf
      exact ⟨clear, left, hg, hd⟩
  | vacant hl =>
    obtain ⟨clear, left, _, ⟨_, hret⟩ | ⟨f, hf, _⟩⟩ := hr
    · exact ⟨clear, left, hret⟩
    · cases hl.symm.trans hf
  | cleaning ht =>
    obtain ⟨hclear', he, hm⟩ := hr.2.step ht hclear (still (hp _))
    exact ⟨hclear', he.trans hr.1, hm⟩
  | cleaned ht =>
    obtain ⟨hclear', he, ho, hret⟩ := hr.2.step ht hclear (still (hp _))
    exact ⟨hclear', ho, he.trans hr.1, hret⟩
  | crashed ht =>
    obtain ⟨_, _, ho, _⟩ := hr.2.step ht hclear (still (hp _))
    cases ho
  | abort hF => exact Bool.noConfusion (hF.symm.trans hclear)
  | proceed => exact ⟨hclear, rfl, hr⟩
  | clearing hc =>
    exact ⟨(hc.hasFailed (x.iteration index created)).trans hclear, hr.1, hc.alone, hr.2.2⟩
  | cleared hc =>
    exact ⟨(hc.hasFailed (x.iteration index created)).trans hclear, hr.1, hc.alone, hr.2.2⟩

theorem Releasing.advanced {now : Nat} {s s' : Strand Release.Point Unit}
    (hr : x.Releasing index h m s.calling s.stand) (hclear : m.failing.get x.flag = false)
    (ha : s.Advanced ((x.giveBack (x.iteration index created)).step now m) m m' es s')
    (hi : w.point.index? = none) (hes : ∀ e ∈ es, e.isMishap = false) :
    OnceEach h (es.map (w.entry .caller)) ∧ m'.failing.get x.flag = false ∧
      x.Releasing index (h ++ es.map (w.entry .caller)) m' s'.calling s'.stand := by
  cases ha with
  | @act p m' notes t hp hv =>
    have hbegun (e : Event) (he : e ∈ notes.map Event.noted) : e.begun? = none := by
      obtain ⟨n, _, rfl⟩ := List.mem_map.mp he
      rfl
    have hs : (x.giveBack (x.iteration index created)).Step m p m' t :=
      Release.step_of_yields (by rw [hv]; exact ⟨rfl, rfl⟩)
    rw [hp] at hr
    obtain ⟨hclear', hr'⟩ := hr.step hs hclear (by rintro f rfl; cases hv)
    exact ⟨.of_none hbegun, hclear', hr'.quiet hbegun⟩
  | @call p q k hp hv hc =>
    rw [hp, hc] at hr
    rcases Release.step_eq_ask hv with ⟨f, rfl, rfl, _⟩ | ⟨⟨f, p', rfl⟩, _⟩
    · obtain ⟨he, hat, hn⟩ := hr
      refine ⟨.singleton fun k hk => ?_, hclear, he, hat, nofun⟩
      cases hk
      change ¬ Began h w.point.index? _
      rw [hi]
      exact hn rfl
    · exact hr.2.elim
  | @reply p q k r hp hv hc hadm =>
    have hbegun (e : Event) (he : e ∈ [Event.answered q r]) : e.begun? = none := by
      cases List.mem_singleton.mp he
      rfl
    rw [hp] at hr
    rcases Release.step_eq_ask hv with ⟨f, rfl, rfl, rfl⟩ | ⟨⟨f, p', rfl⟩, _⟩
    · obtain ⟨he, hat, _⟩ := hr
      cases r with
      | returned v =>
        refine ⟨.of_none hbegun, hclear, he, ?_⟩
        exact ⟨_, List.mem_append_right _ List.mem_cons_self, hi.trans hat.symm, _, v, rfl, rfl⟩
      | refused | crashed => exact Bool.noConfusion (hes _ List.mem_cons_self)
    · exact hr.2.elim

end

/-! ### Runs -/

/-- Where the trial stands after an iteration has run out of time, as long as every call returns. -/
def World.Closing (x : Execution) (index : Nat) (h : List Entry) (w : World) : Prop :=
  match w.point with
  | .launch .. => False
  | .running i g => i = index ∧ ∃ marks f, g.Winding x index h w.memory marks f
  | .checkInterrupted c _ =>
    (∃ created, c = x.iteration index created) ∧ w.memory.isInterrupted c = true ∧
      x.Interrupted index h w.memory
  | .checkFailed c e =>
    (∃ created, c = x.iteration index created) ∧ e = .interrupted ∧ x.Interrupted index h w.memory
  | .cleaning c e s => (∃ created, c = x.iteration index created) ∧ e = .interrupted ∧
    Returned h (some index) ⟨.iteration, .tearDown⟩ ∧ w.memory.failing.get x.flag = false ∧
      x.Releasing index h w.memory s.calling s.stand ∧ s.stand.hasEnded = false
  | .clearing r s => r = .failed .interrupted ∧ Returned h (some index) ⟨.iteration, .tearDown⟩ ∧
    Returned h (x.cleanupAt index) ⟨.trial, .tearDown⟩ ∧ w.memory.failing.get x.flag = false ∧
      Clear.Alone w.memory x.site s.stand ∧ s.stand.hasEnded = false
  | .ended r => r = .failed .interrupted ∧ Returned h (some index) ⟨.iteration, .tearDown⟩ ∧
    Returned h (x.cleanupAt index) ⟨.trial, .tearDown⟩ ∧ w.memory.failing.get x.flag = false

theorem World.Closing.step (hw : w.Closing x index h) {who : Actor} (hc : Changed x w who es w')
    (hes : ∀ e ∈ es, e.isMishap = false) :
    OnceEach h (es.map (w.entry who)) ∧ w'.Closing x index (h ++ es.map (w.entry who)) := by
  unfold World.Closing at hw
  have quiet {e : Event} (he : e ∈ ([] : List Event)) : e.begun? = none :=
    absurd he List.not_mem_nil
  cases hc with
  | launch hp =>
    rw [hp] at hw
    exact hw.elim
  | @member i j now g s s' m es hp hi ha =>
    rw [hp] at hw
    obtain ⟨rfl, marks, f, hg⟩ := hw
    obtain ⟨honce, marks', hg'⟩ :=
      hg.played (congrArg Point.index? hp) hi (Pass.played_of_advanced ha) hes
    exact ⟨honce, rfl, marks', f, hg'⟩
  | conductor hp ha =>
    rw [hp] at hw
    obtain ⟨rfl, marks, f, hg⟩ := hw
    refine ⟨.of_none fun e he => Event.begun?_of_quiet (Conductor.quiet_of_advanced ha e he),
      rfl, marks, f, ?_⟩
    exact hg.conducted ha
  | settle hp he =>
    rw [hp] at hw
    obtain ⟨rfl, marks, f, hg⟩ := hw
    obtain ⟨e, hs⟩ := hg.settle (w := w) he
    obtain ⟨hI, hleft⟩ := hg.interrupted he
    rw [hs]
    exact ⟨.of_none fun e he => quiet he, ⟨_, hg.agreed.1.iteration⟩, hI,
      hleft.quiet fun e he => quiet he⟩
  | checkInterrupted hp =>
    rw [hp] at hw
    obtain ⟨hc, hI, hleft⟩ := hw
    exact ⟨.of_none fun e he => quiet he, hc, if_pos hI, hleft.quiet fun e he => quiet he⟩
  | abandon hp hf =>
    rw [hp] at hw
    obtain ⟨⟨_, rfl⟩, _, hleft⟩ := hw
    exact Bool.noConfusion (hf.symm.trans hleft.clear)
  | clean hp hf =>
    rw [hp] at hw
    obtain ⟨hc, he, hleft⟩ := hw
    exact ⟨.of_none fun e he => quiet he, hc, he, hleft.torn.append _, hleft.clear,
      hleft.quiet fun e he => quiet he, rfl⟩
  | cleaning hp ha hs =>
    rw [hp] at hw
    obtain ⟨⟨_, rfl⟩, rfl, htorn, hclear, hr, _⟩ := hw
    obtain ⟨honce, hclear', hr'⟩ := hr.advanced (w := w) hclear ha (congrArg Point.index? hp) hes
    exact ⟨honce, ⟨_, rfl⟩, rfl, htorn.append _, hclear', hr', Strand.hasEnded_of_outcome? hs⟩
  | @cleaned c e e' now s s' m es r hp ha hs hr' =>
    rw [hp] at hw
    obtain ⟨⟨_, rfl⟩, rfl, htorn, hclear, hr, _⟩ := hw
    have hes' (e : Event) (he : e ∈ es) : e.isMishap = false := hes e (List.mem_append_left _ he)
    obtain ⟨honce, hclear', hr⟩ := hr.advanced (w := w) hclear ha (congrArg Point.index? hp) hes'
    rw [Strand.outcome?_eq_some.mp hs] at hr
    obtain ⟨rfl, halone, hret⟩ := hr
    obtain ⟨_, rfl⟩ := hr'.resolve_right nofun
    rw [List.map_append, ← List.append_assoc]
    exact ⟨Throughout.append honce (.singleton nofun), rfl, (htorn.append _).append _,
      hret.append _, hclear', halone, rfl⟩
  | cleanupCrashed hp ha hs =>
    rw [hp] at hw
    obtain ⟨⟨_, rfl⟩, rfl, htorn, hclear, hr, _⟩ := hw
    obtain ⟨_, _, hr⟩ := hr.advanced (w := w) hclear ha (congrArg Point.index? hp) hes
    rw [Strand.outcome?_eq_some.mp hs] at hr
    cases hr.1
  | @clearing r s s' m es hp ha =>
    rw [hp] at hw
    obtain ⟨rfl, htorn, hret, hclear, halone, _⟩ := hw
    obtain ⟨notes, rfl⟩ := Clear.noted ha
    have honce : OnceEach h ((notes.map Event.noted).map (w.entry .caller)) := by
      refine .of_none fun e he => ?_
      obtain ⟨n, _, rfl⟩ := List.mem_map.mp he
      rfl
    have hclear' : m.failing.get x.flag = false := by
      rcases ha.yields with ⟨rfl, _⟩ | ⟨p, _, hy⟩
      · exact hclear
      · exact ((Clear.step_of_yields hy).hasFailed (x.iteration index 0)).trans hclear
    refine ⟨honce, ?_⟩
    cases hs : s'.stand with
    | point p =>
      exact ⟨rfl, htorn.append _, hret.append _, hclear', Clear.alone_of_advanced ha halone,
        congrArg Stand.hasEnded hs⟩
    | ended o => exact ⟨rfl, htorn.append _, hret.append _, hclear'⟩

/-- Calls in the order of the lifecycle call no hook twice. -/
theorem Lawfully.onceEach {more : List Entry} (hl : x.Lawfully h more) : OnceEach h more := by
  intro past e rest hs k hk
  cases hev : e.event with
  | called q =>
    rw [hev] at hk
    exact (hl past e rest hs q hev).once k hk
  | noted n | answered q r =>
    rw [hev] at hk
    cases hk

/-- As soon as the conductor of an iteration has noted that time is over, the trial is closing. -/
theorem Run.closing (hr : x.Run m h w) (hf : m.failing.get x.flag = false) (hm : m.Rested x.site)
    (hh : ∀ e ∈ h, e.event.isMishap = false) {e : Entry} (he : e ∈ h) (hwho : e.who = .conductor)
    (ht : e.event.isTimeOut = true) :
    ∃ index, e.iteration = some index ∧ OnceEach [] h ∧ w.Closing x index h := by
  refine hr.induct (P := fun h w => (∀ e ∈ h, e.event.isMishap = false) → ∀ {e : Entry}, e ∈ h →
    e.who = .conductor → e.event.isTimeOut = true →
      ∃ index, e.iteration = some index ∧ OnceEach [] h ∧ w.Closing x index h) ?_ ?_ hh he hwho ht
  · intro _ e he
    cases he
  · intro h w who es w' hr ih hc hh e he hwho ht
    have hh₀ (e : Entry) (he : e ∈ h) : e.event.isMishap = false := hh e (List.mem_append_left _ he)
    have hes (e : Event) (he : e ∈ es) : e.isMishap = false :=
      hh _ (List.mem_append_right _ (List.mem_map_of_mem he))
    have closed {index : Nat} (honce : OnceEach [] h) (hw : w.Closing x index h) :
        OnceEach [] (h ++ es.map (w.entry who)) ∧
          w'.Closing x index (h ++ es.map (w.entry who)) := by
      obtain ⟨hmore, hw'⟩ := hw.step hc hes
      exact ⟨Throughout.append honce hmore, hw'⟩
    rcases List.mem_append.mp he with he | he
    · obtain ⟨index, hi, honce, hw⟩ := ih hh₀ he hwho ht
      exact ⟨index, hi, closed honce hw⟩
    · obtain ⟨ev, hev, rfl⟩ := List.mem_map.mp he
      cases hc with
      | conductor hp ha =>
        by_cases hbefore : ∃ e ∈ h, e.who = .conductor ∧ e.event.isTimeOut = true
        · obtain ⟨e, he, hwho', ht'⟩ := hbefore
          obtain ⟨index, _, honce, hw⟩ := ih hh₀ he hwho' ht'
          refine ⟨index, ?_, closed honce hw⟩
          unfold World.Closing at hw
          rw [hp] at hw
          exact (congrArg Point.index? hp).trans (congrArg some hw.1)
        · -- this is the first time, and the calls so far were in order
          have hnone (e : Entry) (he : e ∈ h) (hwho' : e.who = .conductor) :
              e.event.isTimeOut = false :=
            Bool.eq_false_iff.mpr fun ht' => hbefore ⟨e, he, hwho', ht'⟩
          obtain ⟨hlaw, ho⟩ := hr.orderly (.start hf hm.iterationDown) hnone
          have hhale := hr.hale hf hm hh₀
          unfold World.Orderly at ho
          unfold World.Hale at hhale
          rw [hp] at ho hhale
          obtain ⟨marks, f, hag, ho⟩ := ho
          obtain ⟨marks', f', hag', hH⟩ := hhale
          refine ⟨_, congrArg Point.index? hp, ?_, rfl,
            ho.winding hag hH hag' hr.answered ha hev ht⟩
          exact Throughout.append hlaw.onceEach
            (OnceEach.of_none fun e he => Event.begun?_of_quiet
              (Conductor.quiet_of_advanced ha e he))
      | launch | settle | checkInterrupted | abandon | clean | cleaning | cleaned
      | cleanupCrashed | clearing | member => cases hwho

end Execution
end LoadBench
