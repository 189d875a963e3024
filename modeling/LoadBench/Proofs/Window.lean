import LoadBench.Proofs.Iterating

/-!
# The window of a conductor

A conductor reads the clock right after it has let the warmup loops go, and closes the window only
after a reading that lies the wanted duration later, unless it finds the trial failing. That is so
just if the end of the window is representable: without an end the window closes at once, and nobody
has looked at the clock or slept in between (`Conductor.Shift.keeps_window`).

A shift lists the steps of a conductor since its start. Between two of them the clock and the memory
may become anything, so it does not matter who else is at work, nor in which trial
(`Execution.Run.shift`).
-/

namespace LoadBench
namespace Conductor

/-- A step of a conductor: what the clock showed, the memory, and the point
that it was taken from. -/
structure Beat where
  now : Nat
  memory : Memory
  point : Point

/-- The steps of a conductor so far, and where it stands. -/
inductive Shift (c : Conductor) : List Beat → Stand Point Unit → Prop where
  | start : Shift c [] (.point c.start)
  | step {beats : List Beat} {now : Nat} {m m' : Memory} {p : Point} {s : Stand Point Unit}
      (hs : Shift c beats (.point p)) (h : (c.step now m p).Yields m m' s) :
      Shift c (beats ++ [⟨now, m, p⟩]) s

def Point.closes : Point → Bool
  | .close | .spoilWindow | .freeWindow => true
  | _ => false

def Point.looks : Point → Bool
  | .window (some _) => true
  | _ => false

def Point.watches : Point → Bool
  | .watch _ => true
  | _ => false

/-- What the clock showed right after the warmup loops were let go. -/
def opening? (beats : List Beat) : Option Nat :=
  (beats.find? fun b => b.point = .markWindow).map Beat.now

def Gathered (beats : List Beat) : Prop := ∃ b ∈ beats, b.point = .openWindow

def Closed (beats : List Beat) : Prop := ∃ b ∈ beats, b.point.closes = true

def Disturbed (c : Conductor) (beats : List Beat) : Prop :=
  ∃ b ∈ beats, b.point.watches = true ∧ b.memory.hasFailed c.iteration = true

instance (beats : List Beat) : Decidable (Gathered beats) :=
  inferInstanceAs (Decidable (∃ b ∈ beats, _))

instance (beats : List Beat) : Decidable (Closed beats) :=
  inferInstanceAs (Decidable (∃ b ∈ beats, _))

instance (c : Conductor) (beats : List Beat) : Decidable (c.Disturbed beats) :=
  inferInstanceAs (Decidable (∃ b ∈ beats, _))

variable {c : Conductor} {beats : List Beat} {b : Beat} {now began : Nat}
  {m m' : Memory} {p : Point} {s : Stand Point Unit}

/-- Nothing else closes the window. -/
theorem done_of_yields (h : (c.step now m p).Yields m m' s) (hp : p.closes = false) :
    (m'.signalsOf c.iteration).done = (m.signalsOf c.iteration).done := by
  cases step_of_yields h with
  | close | spoilWindow | freeWindow => cases hp
  | openWindow | interrupt | spoilWarmup | spoil | spoilWarmdown | freeWarmdown | freeWarmup =>
    rw [Memory.signalsOf_signal_self]
    rfl
  | _ => rfl

/-! ### One more beat -/

theorem opening?_append :
    opening? (beats ++ [b]) = (opening? beats).or (if b.point = .markWindow then some b.now
      else none) := by
  rw [opening?, List.find?_append, Option.map_or, ← opening?]
  by_cases hb : b.point = .markWindow <;> simp [hb]

theorem gathered_append : Gathered (beats ++ [b]) ↔ Gathered beats ∨ b.point = .openWindow := by
  simp only [Gathered, List.mem_append, List.mem_singleton, or_and_right, exists_or, exists_eq_left]

theorem closed_append : Closed (beats ++ [b]) ↔ Closed beats ∨ b.point.closes = true := by
  simp only [Closed, List.mem_append, List.mem_singleton, or_and_right, exists_or, exists_eq_left]

theorem not_closed_append (h : ¬ Closed beats) (hc : b.point.closes = false) :
    ¬ Closed (beats ++ [b]) := by
  rw [closed_append, hc]
  rintro (hclosed | hb)
  · exact h hclosed
  · cases hb

theorem opening?_append_of_some (h : opening? beats = some began) :
    opening? (beats ++ [b]) = some began := by
  rw [opening?_append, h]
  rfl

theorem unlooked_append (h : ∀ b ∈ beats, b.point.looks = false) (hl : b.point.looks = false) :
    ∀ b' ∈ beats ++ [b], b'.point.looks = false :=
  List.forall_mem_append.mpr ⟨h, List.forall_mem_singleton.mpr hl⟩

theorem Disturbed.append (h : c.Disturbed beats) : c.Disturbed (beats ++ [b]) := by
  obtain ⟨b', hb', hd⟩ := h
  exact ⟨b', List.mem_append_left _ hb', hd⟩

/-- The threads are being gathered, and nothing else has happened yet. -/
structure Fresh (beats : List Beat) : Prop where
  opening : opening? beats = none
  unclosed : ¬ Closed beats
  unlooked : ∀ b ∈ beats, b.point.looks = false

theorem Fresh.append (h : Fresh beats) (hm : b.point ≠ .markWindow) (hc : b.point.closes = false)
    (hl : b.point.looks = false) : Fresh (beats ++ [b]) where
  opening := by rw [opening?_append, h.opening, if_neg hm]; rfl
  unclosed := not_closed_append h.unclosed hc
  unlooked := unlooked_append h.unlooked hl

/-- The window is open. Whoever has looked at the clock has done so before the
end, if there is one. -/
structure Open (c : Conductor) (beats : List Beat) (began : Nat) : Prop where
  opening : opening? beats = some began
  unclosed : ¬ Closed beats
  early : ∀ b ∈ beats, b.point.looks = true →
    ∃ stop, c.iteration.duration.after? began = some stop ∧ b.now < stop

theorem Fresh.open (h : Fresh beats) (hm : b.point = .markWindow) :
    c.Open (beats ++ [b]) b.now where
  opening := by rw [opening?_append, h.opening, if_pos hm]; rfl
  unclosed := not_closed_append h.unclosed (by rw [hm]; rfl)
  early b' hb' hl := by
    rw [unlooked_append h.unlooked (by rw [hm]; rfl) b' hb'] at hl
    cases hl

theorem Open.append (h : c.Open beats began) (hc : b.point.closes = false)
    (hl : b.point.looks = true → ∃ stop, c.iteration.duration.after? began = some stop ∧
      b.now < stop) :
    c.Open (beats ++ [b]) began where
  opening := opening?_append_of_some h.opening
  unclosed := not_closed_append h.unclosed hc
  early := List.forall_mem_append.mpr ⟨h.early, List.forall_mem_singleton.mpr hl⟩

theorem Open.append_of_unlooked (h : c.Open beats began) (hc : b.point.closes = false)
    (hl : b.point.looks = false) : c.Open (beats ++ [b]) began :=
  h.append hc fun hlooks => absurd hlooks (by simp [hl])

/-- The window has been open as long as wanted, or its end is not representable and nobody has
looked at the clock. -/
structure Kept (c : Conductor) (beats : List Beat) (began : Nat) : Prop where
  opening : opening? beats = some began
  late : ∀ stop, c.iteration.duration.after? began = some stop →
    ∃ b ∈ beats, b.point.looks = true ∧ stop ≤ b.now
  unlooked : c.iteration.duration.after? began = none → ∀ b ∈ beats, b.point.looks = false

theorem Kept.append (h : c.Kept beats began) (hl : b.point.looks = false) :
    c.Kept (beats ++ [b]) began where
  opening := opening?_append_of_some h.opening
  late stop hstop := by
    obtain ⟨b', hb', hlate⟩ := h.late stop hstop
    exact ⟨b', List.mem_append_left _ hb', hlate⟩
  unlooked hstop := unlooked_append (h.unlooked hstop) hl

/-- The window ends with the first look that is not before its end. -/
theorem Open.kept {stop : Nat} (h : c.Open beats began)
    (hstop : c.iteration.duration.after? began = some stop) (hl : b.point.looks = true)
    (hn : stop ≤ b.now) : c.Kept (beats ++ [b]) began where
  opening := opening?_append_of_some h.opening
  late stop' hstop' := by
    cases hstop.symm.trans hstop'
    exact ⟨b, List.mem_append_right _ List.mem_cons_self, hl, hn⟩
  unlooked hnone := by cases hstop.symm.trans hnone

/-- Without an end, nobody can have looked at the clock before it. -/
theorem Open.kept_of_none (h : c.Open beats began)
    (hnone : c.iteration.duration.after? began = none) (hl : b.point.looks = false) :
    c.Kept (beats ++ [b]) began where
  opening := opening?_append_of_some h.opening
  late stop hstop := by cases hnone.symm.trans hstop
  unlooked _ := by
    refine unlooked_append (fun b' hb' => ?_) hl
    rw [← Bool.not_eq_true]
    intro hlook
    obtain ⟨stop, hstop, -⟩ := h.early b' hb' hlook
    cases hnone.symm.trans hstop

/-- Whoever gathered the threads has kept the window open for them, and has closed it. -/
def Done (c : Conductor) (beats : List Beat) : Prop :=
  Gathered beats → Closed beats ∧ ∃ began, c.Kept beats began

theorem Done.append (h : c.Done beats) (ho : b.point ≠ .openWindow) (hl : b.point.looks = false) :
    c.Done (beats ++ [b]) := by
  intro hg
  obtain ⟨hclosed, began, hkept⟩ := h ((gathered_append.mp hg).resolve_right ho)
  exact ⟨closed_append.mpr (.inl hclosed), began, hkept.append hl⟩

/-! ### What a shift comes to -/

/-- The conductor has just looked at the clock, and will sleep until the window ends
or the slice is over. -/
def Dozing (c : Conductor) (beats : List Beat) (began stop : Nat) (nap : Span) : Prop :=
  c.iteration.duration.after? began = some stop ∧
    ∃ look, beats.getLast? = some look ∧ look.point.looks = true ∧
      nap = (Span.between look.now stop).shorter slice

/-- What the point where a conductor stands says of its shift, with warm loops and
an undisturbed window. -/
def Point.Placed (c : Conductor) (beats : List Beat) : Point → Prop
  | .gather _ | .openWindow => ¬ Gathered beats ∧ Fresh beats
  | .markWindow => Fresh beats
  | .window stop => ∃ began, c.Open beats began ∧ stop = c.iteration.duration.after? began
  | .doze stop nap => ∃ began, c.Open beats began ∧ c.Dozing beats began stop nap
  | .watch stop => ∃ began, c.Open beats began ∧ some stop = c.iteration.duration.after? began
  | .close => ∃ began, c.Kept beats began
  | .freeWarmup | .freeWindow => False
  | .markDeadline | .drain .. | .judge | .interrupt | .spoilWarmup | .spoilWindow | .spoil
  | .spoilWarmdown | .freeWarmdown => c.Done beats

def Placed (c : Conductor) (beats : List Beat) : Stand Point Unit → Prop
  | .point p => p.Placed c beats
  | .ended _ => c.Done beats

theorem placed_of_yields (hp : p.Placed c beats) (hd : ¬ c.Disturbed (beats ++ [⟨now, m, p⟩]))
    (h : (c.step now m p).Yields m m' s) : c.Placed (beats ++ [⟨now, m, p⟩]) s := by
  cases p with
  | gather q =>
    obtain ⟨hg, hfresh⟩ := hp
    have hg' : ¬ Gathered (beats ++ [⟨now, m, .gather q⟩]) := fun hg' => by
      rcases gathered_append.mp hg' with hg' | hq
      · exact hg hg'
      · cases hq
    cases step_of_yields h with
    | gather => exact ⟨hg', hfresh.append (by simp) rfl rfl⟩
    | gathered => exact ⟨hg', hfresh.append (by simp) rfl rfl⟩
    | notGathered => exact fun hg => absurd hg hg'
  | openWindow =>
    cases step_of_yields h with
    | openWindow => exact hp.2.append (by simp) rfl rfl
  | markWindow =>
    obtain ⟨-, rfl⟩ := h
    exact ⟨now, Fresh.open hp rfl, rfl⟩
  | window stop =>
    obtain ⟨began, hopen, rfl⟩ := hp
    cases hstop : c.iteration.duration.after? began with
    | none =>
      rw [hstop] at h
      obtain ⟨-, rfl⟩ := h
      exact ⟨began, hopen.kept_of_none hstop rfl⟩
    | some stop =>
      rw [hstop] at h
      by_cases hn : now < stop
      · simp only [step, if_pos hn] at h
        obtain ⟨-, rfl⟩ := h
        refine ⟨began, hopen.append rfl fun _ => ⟨stop, hstop, hn⟩, hstop, _,
          List.getLast?_concat, rfl, rfl⟩
      · simp only [step, if_neg hn] at h
        obtain ⟨-, rfl⟩ := h
        exact ⟨began, hopen.kept hstop rfl (Nat.le_of_not_lt hn)⟩
  | doze stop nap =>
    obtain ⟨began, hopen, hstop, -⟩ := hp
    cases step_of_yields h with
    | slept => exact ⟨began, hopen.append_of_unlooked rfl rfl, hstop.symm⟩
  | watch stop =>
    obtain ⟨began, hopen, hstop⟩ := hp
    cases step_of_yields h with
    | foundFailed hf => exact absurd ⟨_, List.mem_append_right _ List.mem_cons_self, rfl, hf⟩ hd
    | foundRunning => exact ⟨began, hopen.append_of_unlooked rfl rfl, hstop⟩
  | close =>
    obtain ⟨began, hkept⟩ := hp
    cases step_of_yields h with
    | close => exact fun _ => ⟨closed_append.mpr (.inr rfl), began, hkept.append rfl⟩
  | freeWarmup | freeWindow => exact hp.elim
  | markDeadline | drain | judge | interrupt | spoilWarmup | spoilWindow | spoil | spoilWarmdown
  | freeWarmdown =>
    have hdone {b : Beat} (ho : b.point ≠ .openWindow) (hl : b.point.looks = false) :
        c.Done (beats ++ [b]) :=
      Done.append hp ho hl
    cases step_of_yields h <;> exact hdone (by simp) rfl

theorem Shift.placed (hs : c.Shift beats s) (hw : c.hasWarmLoops = true)
    (hd : ¬ c.Disturbed beats) :
    c.Placed beats s := by
  induction hs with
  | start =>
    rw [Conductor.start, if_pos hw]
    exact ⟨nofun, rfl, nofun, nofun⟩
  | step hs h ih => exact placed_of_yields (ih fun hd' => hd hd'.append) hd h

/-- How a conductor keeps its window open: what has come before it closes the window, and how long
it sleeps while the window is open. -/
structure KeepsWindow (c : Conductor) (beats : List Beat) (p : Point) : Prop where
  done : p.closes = false → ∀ now m m' s, (c.step now m p).Yields m m' s →
    (m'.signalsOf c.iteration).done = (m.signalsOf c.iteration).done
  kept : p.closes = true → ∃ began, opening? beats = some began ∧
    (began + c.iteration.duration.nanos < Span.instantLimit ∧
        (∃ b ∈ beats, b.point.looks = true ∧ began + c.iteration.duration.nanos ≤ b.now) ∨
      Span.instantLimit ≤ began + c.iteration.duration.nanos ∧ ∀ b ∈ beats, b.point.looks = false)
  naps : ¬ Closed beats → ∀ now m nap k, c.step now m p = .ask (.sleep nap) k →
    ∃ began look, opening? beats = some began ∧ beats.getLast? = some look ∧
      look.point.looks = true ∧
      nap.nanos = min (began + c.iteration.duration.nanos - look.now) slice.nanos

/-- Only a wait for the threads sleeps outside of the window. -/
theorem sleeps_of_step {nap : Span} {k : Reply → Stand Point Unit}
    (h : c.step now m p = .ask (.sleep nap) k) :
    (∃ q, p = .gather q) ∨ (∃ deadline q, p = .drain deadline q) ∨ ∃ stop, p = .doze stop nap := by
  cases p with
  | gather q => exact .inl ⟨q, rfl⟩
  | drain deadline q => exact .inr (.inl ⟨deadline, q, rfl⟩)
  | doze stop d =>
    cases h
    exact .inr (.inr ⟨stop, rfl⟩)
  | window stop =>
    cases stop with
    | none => cases h
    | some stop =>
      simp only [step] at h
      split at h <;> cases h
  | judge =>
    simp only [step] at h
    split at h <;> cases h
  | _ => cases h

/-- Takes a step at each reading of the clock, in a memory that stays as it is. -/
def attend (c : Conductor) (m : Memory) : List Nat → List Beat → Stand Point Unit →
    List Beat × Stand Point Unit
  | now :: rest, beats, .point p =>
    match c.step now m p with
    | .act _ _ s => attend c m rest (beats ++ [⟨now, m, p⟩]) s
    | .ask _ k => attend c m rest (beats ++ [⟨now, m, p⟩]) (k (.returned 0))
    | .blocked => (beats, .point p)
  | _, beats, s => (beats, s)

theorem Shift.attend (hs : c.Shift beats s) (m : Memory) (readings : List Nat) :
    c.Shift (c.attend m readings beats s).1 (c.attend m readings beats s).2 := by
  fun_induction Conductor.attend c m readings beats s with
  | case1 now rest beats p m' notes s hv ih =>
    exact ih (.step (m := m) hs (by rw [hv]; exact ⟨rfl, rfl⟩))
  | case2 now rest beats p q k hv ih =>
    have hq : q.Admits (.returned 0) := by cases q <;> trivial
    exact ih (.step (m := m) hs (by rw [hv]; exact ⟨rfl, _, hq, rfl⟩))
  | case3 | case4 => exact hs

/-- The conductor of a single thread that is already in its warmup loop. -/
def usher (duration : Span) : Conductor :=
  ⟨{ Execution.duet.iteration 0 0 with threads := .one, duration }, .ofMillis 600000, true⟩

def usherMemory : Memory := ({} : Memory).signal (usher .zero).iteration Signals.enterWarmup

/-- A conductor with warm loops that has found every thread in its own, and the trial not failing
since, keeps the window open. -/
theorem Shift.keeps_window (hs : c.Shift beats (.point p)) (hw : c.hasWarmLoops = true)
    (hg : Gathered beats) (hd : ¬ c.Disturbed beats) : c.KeepsWindow beats p := by
  have hp : p.Placed c beats := hs.placed hw hd
  refine ⟨fun hc now m m' s h => done_of_yields h hc, fun hc => ?_,
    fun hclosed now m nap k hstep => ?_⟩
  · obtain ⟨began, hkept⟩ : ∃ began, c.Kept beats began := by
      cases p with
      | close => exact hp
      | spoilWindow => exact (hp hg).2
      | freeWindow => exact hp.elim
      | _ => cases hc
    refine ⟨began, hkept.opening, ?_⟩
    rcases Nat.lt_or_ge (began + c.iteration.duration.nanos) Span.instantLimit with hlimit | hlimit
    · exact .inl ⟨hlimit, hkept.late _ (if_pos hlimit)⟩
    · exact .inr ⟨hlimit, hkept.unlooked (if_neg (Nat.not_lt.mpr hlimit))⟩
  · rcases sleeps_of_step hstep with ⟨q, rfl⟩ | ⟨deadline, q, rfl⟩ | ⟨stop, rfl⟩
    · exact absurd hg hp.1
    · exact absurd (hp hg).1 hclosed
    · obtain ⟨began, hopen, hstop, look, hlast, hl, rfl⟩ := hp
      obtain ⟨-, rfl⟩ := Span.after?_eq_some_iff.mp hstop
      refine ⟨began, look, hopen.opening, hlast, hl, ?_⟩
      have hslice : slice.nanos ≤ Span.maxNanos := slice.nanos_le
      rw [Span.nanos_shorter, Span.between, Span.nanos_ofNanos, Nat.min_assoc,
        Nat.min_eq_right hslice]

/-- A window of seven milliseconds that is left to itself takes two naps, of five
and of two milliseconds. -/
theorem keeps_window_usher :
    let c := usher (.ofMillis 7)
    let readings := [0, 0, 100, 100, 100, 5000100, 5000100, 5000100, 7000100, 7000200]
    let shift := c.attend usherMemory readings [] (.point c.start)
    c.hasWarmLoops = true ∧ Gathered shift.1 ∧ ¬ c.Disturbed shift.1 ∧ shift.2 = .point .close ∧
      c.KeepsWindow shift.1 .close := by
  intro c readings shift
  have hg : Gathered shift.1 := by decide +kernel
  have hd : ¬ c.Disturbed shift.1 := by decide +kernel
  have hend : shift.2 = .point .close := by decide +kernel
  have hs : c.Shift shift.1 shift.2 := Shift.start.attend ..
  rw [hend] at hs
  exact ⟨rfl, hg, hd, hend, hs.keeps_window rfl hg hd⟩

/-- A window that should be open for the longest span is closed at once. -/
theorem cut_short_usher :
    let c := usher ⟨Span.maxNanos, Nat.le_refl _⟩
    let shift := c.attend usherMemory [0, 0, 0, 0] [] (.point c.start)
    c.Shift shift.1 shift.2 ∧ c.hasWarmLoops = true ∧ Gathered shift.1 ∧ ¬ c.Disturbed shift.1 ∧
      shift.2 = .point .close ∧ opening? shift.1 = some 0 ∧
        ∀ b ∈ shift.1, b.now < 0 + c.iteration.duration.nanos := by
  intro c shift
  exact ⟨Shift.start.attend ..,
    rfl, by decide +kernel, by decide +kernel, by decide +kernel, by decide +kernel,
    by decide +kernel⟩

end Conductor

namespace Execution
variable {x : Execution} {m : Memory} {h : List Entry} {w : World} {index : Nat} {g : Group}

/-- Whatever the members of its group do, a conductor is on a shift. -/
theorem Run.shift (hr : x.Run m h w) (hp : w.point = .running index g) :
    ∃ beats, (x.conductor g.iteration).Shift beats g.conductor.stand := by
  refine hr.induct (P := fun _ w => ∀ {index g}, w.point = .running index g →
    ∃ beats, (x.conductor g.iteration).Shift beats g.conductor.stand) ?_ ?_ hp
  · intro index g hp
    rcases x.start_point m with hp' | hp' <;> cases hp.symm.trans hp'
  · intro h w who es w' _ ih hc index g hp
    cases hc with
    | launch =>
      cases hp
      exact ⟨[], .start⟩
    | member hp' =>
      cases hp
      have hs := ih hp'
      exact hs
    | conductor hp' ha =>
      cases hp
      obtain ⟨beats, hs⟩ := ih hp'
      rcases ha.yields with ⟨-, hrest⟩ | ⟨p, hstand, hy⟩
      · exact ⟨beats, hrest ▸ hs⟩
      · exact ⟨_, .step (hstand ▸ hs) hy⟩
    | @settle index' g' hp' =>
      have hsettled := settled x w index' g'
      generalize x.settle w index' g' = w' at hsettled hp
      cases hsettled <;> cases hp
    | clearing =>
      simp only at hp
      split at hp <;> cases hp
    | _ => cases hp

end Execution
end LoadBench
