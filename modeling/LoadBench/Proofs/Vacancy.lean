import LoadBench.Proofs.Construction

/-!
# The site after a trial

Whoever gives a fixture back clears its site, whatever came of the cleanup, with one exception: a
crash of the cleanup unwinds before the site is cleared. A member that crashes leaves the clearing
to the caller. So a trial leaves its fixture behind exactly when the cleanup that crashed was the
caller's own (`Execution.Run.vacant_iff`).
-/

namespace LoadBench

def Turn.Point.isCrashing : Turn.Point → Bool
  | .condemn (.crashed _) | .leave (.crashed _) => true
  | _ => false

theorem Turn.isCrashing_afterHook (r : Reply) :
    (Turn.afterHook r).isCrashing = true ↔ ∃ text, r = .crashed text := by
  cases r <;> simp [Turn.afterHook, Turn.Point.isCrashing]

/-- Only its hook makes a turn crash. -/
theorem Turn.Step.isCrashing {t : Turn} {m m' : Memory} {p : Turn.Point} {u : Stand Turn.Point Unit}
    (h : t.Step m p m' u) (hp : p ≠ .hook) :
    u.Meets (fun q => q.isCrashing = p.isCrashing) fun r => r.isCrash = p.isCrashing := by
  cases h with
  | returned | mishap => exact absurd rfl hp
  | @condemn x => cases x <;> rfl
  | @leave r => cases r <;> rfl
  | _ => rfl

theorem Turn.Step.live? {t : Turn} {m m' : Memory} {p : Turn.Point} {u : Stand Turn.Point Unit}
    (h : t.Step m p m' u) (site : Site) : m'.live? site = m.live? site := by
  cases h <;> rfl

/-! ### One who clears -/

/-- The site is vacant once it was cleared. -/
def Clear.Vacating (live : Option Nat) : Stand Clear.Point Unit → Prop
  | .point .leave | .ended _ => live = none
  | .point .enter | .point .store => True

theorem Clear.Step.vacating {c : Clear} {m m' : Memory} {p : Clear.Point}
    {t : Stand Clear.Point Unit} (h : c.Step m p m' t)
    (hp : Clear.Vacating (m.live? c.site) (.point p)) :
    Clear.Vacating (m'.live? c.site) t := by
  cases h with
  | enter => trivial
  | store =>
    change ((m.clear c.site).live? c.site) = none
    simp [Memory.live?, Memory.clear]
  | leave =>
    change ((m.setEntered c.site false).live? c.site) = none
    have hl : (m.slots.get c.site.id).live = none := hp
    simp [Memory.live?, Memory.setEntered, hl]

theorem Clear.vacating_of_advanced {c : Clear} {m m' : Memory} {s s' : Strand Clear.Point Unit}
    {es : List Event} (h : s.Advanced (c.step m) m m' es s')
    (hs : Clear.Vacating (m.live? c.site) s.stand) :
    Clear.Vacating (m'.live? c.site) s'.stand := by
  rcases h.yields with ⟨rfl, hs'⟩ | ⟨p, hp, hy⟩
  · rw [hs']
    exact hs
  · rw [hp] at hs
    exact (Clear.step_of_yields hy).vacating hs

/-! ### One who releases -/

/-- What is certain of the site while a fixture is given back, and of whether
its cleanup has crashed. -/
def Release.Vacating (crashed : Prop) (live : Option Nat) : Stand Release.Point Unit → Prop
  | .point .look | .point .checkFailed => ¬ crashed
  | .point (.cleaning _ p) => live ≠ none ∧ (crashed ↔ p.isCrashing = true)
  | .point (.clearing r p) => ¬ crashed ∧ r.isCrash = false ∧ Clear.Vacating live (.point p)
  | .ended r =>
    live = none ∧ ¬ crashed ∧ r.isCrash = false ∨ live ≠ none ∧ crashed ∧ r.isCrash = true

theorem Release.Step.vacating {a : Release} {m m' : Memory} {p : Release.Point}
    {t : Stand Release.Point Unit} {crashed : Prop} (h : a.Step m p m' t)
    (hp : ∀ f, p ≠ .cleaning f .hook) (hv : Release.Vacating crashed (m.live? a.site) (.point p)) :
    Release.Vacating crashed (m'.live? a.site) t := by
  have still {f : Nat} {q : Turn.Point} (hq : Release.Point.cleaning f q ≠ .cleaning f .hook) :
      q ≠ .hook :=
    fun hc => hq (congrArg _ hc)
  cases h with
  | found hl =>
    have hn : ¬ crashed := hv
    exact ⟨by simp [hl], by simpa [Turn.Point.isCrashing] using hn⟩
  | vacant => exact hv
  | cleaning ht =>
    have hc := ht.isCrashing (still (hp _))
    exact ⟨ht.live? a.site ▸ hv.1, by rw [hc]; exact hv.2⟩
  | cleaned ht hr =>
    have hc := ht.isCrashing (still (hp _))
    exact ⟨fun hx => Bool.noConfusion (hr.symm.trans (hc.trans (hv.2.mp hx))), hr, trivial⟩
  | crashed ht =>
    have hc := ht.isCrashing (still (hp _))
    exact .inr ⟨ht.live? a.site ▸ hv.1, hv.2.mpr hc.symm, rfl⟩
  | abort | proceed => exact ⟨hv, rfl, trivial⟩
  | clearing hc => exact ⟨hv.1, hv.2.1, hc.vacating hv.2.2⟩
  | cleared hc => exact .inl ⟨hc.vacating hv.2.2, hv.1, hv.2.1⟩

namespace Execution
variable {x : Execution} {m m' : Memory} {h : List Entry} {w w' : World}

def CleanupCrashed (x : Execution) (h : List Entry) : Prop :=
  ∃ e ∈ h, e.who = .caller ∧
    ∃ value text, e.event = .answered (.stage x.site value ⟨.trial, .tearDown⟩) (.crashed text)

theorem cleanupCrashed_append {es : List Entry} :
    x.CleanupCrashed (h ++ es) ↔ x.CleanupCrashed h ∨ x.CleanupCrashed es := by
  simp only [CleanupCrashed, List.mem_append, or_and_right, exists_or]

/-- Only the end of a call shows a crash. -/
theorem cleanupCrashed_entries {es : List Event} {who : Actor} :
    x.CleanupCrashed (es.map (w.entry who)) ↔ who = .caller ∧
      ∃ value text, .answered (.stage x.site value ⟨.trial, .tearDown⟩) (.crashed text) ∈ es := by
  constructor
  · rintro ⟨e, he, hw, value, text, hv⟩
    obtain ⟨ev, hev, rfl⟩ := List.mem_map.mp he
    exact ⟨hw, value, text, hv ▸ hev⟩
  · rintro ⟨rfl, value, text, he⟩
    exact ⟨_, List.mem_map_of_mem he, rfl, value, text, rfl⟩

/-- What is certain of the site where the caller stands. -/
def World.Vacating (x : Execution) (h : List Entry) (w : World) : Prop :=
  match w.point with
  | .cleaning _ _ s => Release.Vacating (x.CleanupCrashed h) (w.memory.live? x.site) s.stand
  | .clearing _ s => ¬ x.CleanupCrashed h ∧ Clear.Vacating (w.memory.live? x.site) s.stand
  | .ended _ => w.memory.live? x.site = none ↔ ¬ x.CleanupCrashed h
  | .launch .. | .running .. | .checkInterrupted .. | .checkFailed .. => ¬ x.CleanupCrashed h

theorem vacating_giveBack {c : Iteration} {now : Nat} {s s' : Strand Release.Point Unit}
    {es : List Event} (ha : s.Advanced ((x.giveBack c).step now m) m m' es s')
    (hv : Release.Vacating (x.CleanupCrashed h) (m.live? x.site) s.stand) :
    Release.Vacating (x.CleanupCrashed (h ++ es.map (w.entry .caller)))
      (m'.live? x.site) s'.stand := by
  have quiet (he : ∀ value text,
      .answered (.stage x.site value ⟨.trial, .tearDown⟩) (.crashed text) ∉ es) :
      x.CleanupCrashed (h ++ es.map (w.entry .caller)) = x.CleanupCrashed h := by
    rw [cleanupCrashed_append, cleanupCrashed_entries]
    exact propext (or_iff_left fun ⟨_, value, text, hc⟩ => he value text hc)
  cases ha with
  | @act p m' notes t hp hact =>
    rw [hp] at hv
    rw [quiet (by simp)]
    have ht : (x.giveBack c).Step m p m' t :=
      Release.step_of_yields (by rw [hact]; exact ⟨rfl, rfl⟩)
    refine ht.vacating ?_ hv
    rintro f rfl
    cases hact
  | @call p q k hp hask hc =>
    rw [quiet (by simp), ← hp]
    exact hv
  | @reply p q k r hp hask hc hr =>
    rw [hp] at hv
    rcases Release.step_eq_ask hask with ⟨f, rfl, rfl, rfl⟩ | ⟨⟨f, p', rfl⟩, d, rfl⟩
    · have hn : ¬ x.CleanupCrashed h := fun hx => Bool.noConfusion (hv.2.mp hx)
      refine ⟨hv.1, ?_⟩
      rw [cleanupCrashed_append, cleanupCrashed_entries, Turn.isCrashing_afterHook]
      constructor
      · rintro (hx | ⟨_, value, text, he⟩)
        · exact absurd hx hn
        · cases List.mem_singleton.mp he
          exact ⟨text, rfl⟩
      · rintro ⟨text, rfl⟩
        exact .inr ⟨rfl, _, text, List.mem_singleton.mpr rfl⟩
    · rw [quiet (by simp)]
      have ht : (x.giveBack c).Step m (.cleaning f (.queued p')) m (k r) :=
        Release.step_of_yields (by rw [hask]; exact ⟨rfl, r, hr, rfl⟩)
      exact ht.vacating nofun hv

theorem World.Vacating.step (hv : w.Vacating x h) {who : Actor} {es : List Event}
    (hc : Changed x w who es w') (hlast : ∀ {index : Nat} {g : Group}, w.point = .running index g →
      g.hasEnded = true →
      (∀ o ∈ g.outcomes, o.isOk = true) → index + 1 = x.trial.iterations →
        w.memory.live? x.site = none) :
    w'.Vacating x (h ++ es.map (w.entry who)) := by
  unfold World.Vacating at hv
  -- no crash is seen of a step unless the caller is giving the fixture back
  have quiet (hn : ¬ x.CleanupCrashed h) (he : who = .caller → ∀ q r, .answered q r ∉ es) :
      ¬ x.CleanupCrashed (h ++ es.map (w.entry who)) := by
    rw [cleanupCrashed_append, cleanupCrashed_entries]
    rintro (hx | ⟨hw, value, text, hx⟩)
    · exact hn hx
    · exact he hw _ _ hx
  cases hc with
  | launch hp =>
    rw [hp] at hv
    exact quiet hv fun _ => by simp
  | member hp hi ha =>
    rw [hp] at hv
    exact quiet hv nofun
  | conductor hp ha =>
    rw [hp] at hv
    exact quiet hv nofun
  | @settle index g hp he =>
    have hn : ¬ x.CleanupCrashed (h ++ [].map (w.entry .caller)) := by
      rw [hp] at hv
      exact quiet hv fun _ => by simp
    have hs := x.settled w index g
    generalize x.settle w index g = w' at hs
    cases hs with
    | crashed => exact ⟨hn, trivial⟩
    | last ho hl => exact iff_of_true (hlast hp he ho hl) hn
    | secondary | primary | next => exact hn
  | checkInterrupted hp =>
    rw [hp] at hv
    exact quiet hv fun _ => by simp
  | abandon hp =>
    rw [hp] at hv
    exact ⟨quiet hv fun _ => by simp, trivial⟩
  | clean hp =>
    rw [hp] at hv
    exact quiet hv fun _ => by simp
  | cleaning hp ha hs =>
    rw [hp] at hv
    exact vacating_giveBack ha hv
  | @cleaned c e e' now s s' m es r hp ha hs hr =>
    rw [hp] at hv
    have hv' := vacating_giveBack (w := w) ha hv
    rw [Strand.outcome?_eq_some.mp hs] at hv'
    have hr' : r.isCrash = false := by rcases hr with ⟨rfl, _⟩ | rfl <;> rfl
    obtain ⟨_, hn, _⟩ := hv'.resolve_right fun hc => Bool.noConfusion (hr'.symm.trans hc.2.2)
    refine ⟨?_, trivial⟩
    rw [List.map_append, ← List.append_assoc, cleanupCrashed_append]
    rintro (hx | ⟨e, he, _, _, _, hx⟩)
    · exact hn hx
    · cases List.mem_singleton.mp he
      cases hx
  | cleanupCrashed hp ha hs =>
    rw [hp] at hv
    have hv' := vacating_giveBack (w := w) ha hv
    rw [Strand.outcome?_eq_some.mp hs] at hv'
    obtain ⟨hl, hx, _⟩ := hv'.resolve_left fun hc => Bool.noConfusion hc.2.2
    exact iff_of_false hl fun hn => hn hx
  | @clearing r s s' m es hp ha =>
    rw [hp] at hv
    have hv' := Clear.vacating_of_advanced ha hv.2
    obtain ⟨notes, rfl⟩ := Clear.noted ha
    have hn := quiet hv.1 fun _ => by simp
    cases hs : s'.stand with
    | point p =>
      refine ⟨hn, ?_⟩
      change Clear.Vacating (m.live? x.site) s'.stand
      exact hv'
    | ended o =>
      rw [hs] at hv'
      exact iff_of_true hv' hn

theorem World.point_of_outcome? {r : Outcome Summary} (hr : w.outcome? = some r) :
    w.point = .ended r := by
  unfold World.outcome? at hr
  split at hr
  · rename_i hp
    cases hr
    exact hp
  · cases hr

theorem Run.vacating (hr : x.Run m h w) (hf : m.failing.get x.flag = false)
    (hl : m.live? x.site = none) :
    w.Vacating x h := by
  have hn : ¬ x.CleanupCrashed [] := fun ⟨e, he, _⟩ => List.not_mem_nil he
  apply hr.induct (P := fun h w => w.Vacating x h)
  · unfold World.Vacating
    rcases x.start_point m with hp | hp <;> rw [hp]
    · exact hn
    · exact iff_of_true hl hn
  · intro h w who es w' hr hv hc
    apply hv.step hc
    intro index g hp he ho hlast
    obtain ⟨marks, f, ha⟩ := (hr.agreed hf).2 hp
    obtain ⟨_, _, _, hl, _⟩ := ha.of_all_ok he ho
    exact hl hlast

/-- A trial from a vacant site leaves the site vacant, unless the caller's own cleanup has crashed;
from a vacant site the next trial makes its own fixture before it uses one. -/
theorem Run.vacant_iff (hr : x.Run m h w) (hf : m.failing.get x.flag = false)
    (hl : m.live? x.site = none) {r : Outcome Summary} (hp : w.point = .ended r) :
    (w.memory.live? x.site = none ↔ ¬ x.CleanupCrashed h) ∧
      (¬ x.CleanupCrashed h → ∀ (y : Execution) (h' : List Entry) (w' : World), y.site = x.site →
        y.Run w.memory h' w' → y.Prepared h') := by
  have hv := hr.vacating hf hl
  unfold World.Vacating at hv
  rw [hp] at hv
  refine ⟨hv, fun hn y h' w' hy hr' => hr'.prepared ?_⟩
  rw [hy]
  exact hv.mpr hn

theorem vacant_duet :
    (∃ s, (duet.play (rounds 77 (.returned 0)) (duet.start {})).2.point = .ended (.ok s)) ∧
      ∀ (y : Execution) (h' : List Entry) (w' : World), y.site = duet.site →
        y.Run (duet.play (rounds 77 (.returned 0)) (duet.start {})).2.memory h' w' →
          y.Prepared h' := by
  have hr := run_play duet {} (rounds 77 (.returned 0))
  have hend :
      (duet.play (rounds 77 (.returned 0)) (duet.start {})).2.outcome?.any Outcome.isOk = true := by
    decide +kernel
  obtain ⟨r, hr', hok⟩ := (Option.any_eq_true _ _).mp hend
  have hp := World.point_of_outcome? hr'
  obtain ⟨hv, hnext⟩ := hr.vacant_iff (by decide) (by decide) hp
  have hl :
      (duet.play (rounds 77 (.returned 0)) (duet.start {})).2.memory.live? duet.site = none := by
    decide +kernel
  refine ⟨?_, hnext (hv.mp hl)⟩
  cases r with
  | ok s => exact ⟨s, hp⟩
  | failed e | crashed text => cases hok

/-- One thread, and as many measured iterations as a duet has threads, that
run out of time at once. -/
def solo : Execution :=
  { duet with
    trial := { duet.trial with measurements := duet.threads, timeout := .ofNanos 0 }
    threads := .one }

/-- The thread comes to its warmup loop, the conductor interrupts it there, and the cleanup
by the caller crashes. -/
def overrun : List (Actor × Nat × Reply) :=
  [(.caller, 0, .returned 0)] ++ List.replicate 40 (.member 0, 0, .returned 0) ++
    List.replicate 40 (.conductor, 0, .returned 0) ++
      List.replicate 80 (.member 0, 0, .returned 0) ++
      List.replicate 40 (.caller, 0, .crashed "stale")

theorem left_behind_solo :
    ({} : Memory).failing.get solo.flag = false ∧ ({} : Memory).live? solo.site = none ∧
      ∃ h w r, solo.Run {} h w ∧ w.point = .ended r ∧ w.memory.live? solo.site = some 0 := by
  have hend : (solo.play overrun (solo.start {})).2.outcome?.isSome = true := by decide +kernel
  obtain ⟨r, hr⟩ := Option.isSome_iff_exists.mp hend
  exact ⟨rfl, rfl, _, _, r, run_play solo {} overrun, World.point_of_outcome? hr, by decide +kernel⟩

end Execution
end LoadBench
