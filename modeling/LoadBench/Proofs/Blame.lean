import LoadBench.Proofs.Health

/-!
# Whose fault it is

A pass that was told to stop has a secondary failure; a primary failure and a crash are its own.
Whatever hooks and the workload do, the failure flag tells the two apart: a pass that sets it is not
innocent and stays so (`Pass.Innocent`), and no pass leaves a part of its way without innocence
before the flag is set (`Pass.Noted`). So once all members of an iteration have ended, the trial is
failing exactly if one of them has crashed or has a primary failure to report
(`Group.Answerable.failed_iff`).
-/

namespace LoadBench

/-- Whoever does not end unharmed finds the trial failing. -/
def Outcome.Noted {α : Type} (m : Memory) (c : Iteration) (o : Outcome α) : Prop :=
  o.Unharmed ∨ m.hasFailed c = true

section
variable {m m' : Memory}

/-! ### Turns -/

theorem Turn.harmed_verdict (t : Turn) (x : Mishap) : ¬ (t.verdict x).Unharmed := by
  intro h
  cases x with
  | refused problem => exact Bool.noConfusion (h.symm.trans (Failure.isSecondary_ofStage ..))
  | crashed text => exact h

def Turn.Noted (m : Memory) (c : Iteration) : Stand Turn.Point Unit → Prop
  | .point (.leave r) | .ended r => r.Noted m c
  | .point _ => True

namespace Turn.Step
variable {t : Turn} {p : Turn.Point} {u : Stand Turn.Point Unit}

/-- What has gone wrong in a turn is not made good. -/
theorem unharmed_before (h : t.Step m p m' u) (hu : Turn.Unharmed u) :
    Turn.Unharmed (.point p) := by
  cases h with
  | condemn => exact absurd hu (t.harmed_verdict _)
  | leave => exact hu
  | _ => trivial

theorem harmed_of_failed (h : t.Step m p m' u) (hm : m.hasFailed t.iteration = false)
    (hm' : m'.hasFailed t.iteration = true) : ¬ Turn.Unharmed u := by
  cases h with
  | condemn => exact t.harmed_verdict _
  | _ => exact Bool.noConfusion (hm'.symm.trans hm)

theorem noted (h : t.Step m p m' u) (hp : Turn.Noted m t.iteration (.point p)) :
    Turn.Noted m' t.iteration u := by
  cases h with
  | giveUp | foundFailed | abort => exact .inl rfl
  | join | settled | commit => exact .inl trivial
  | condemn => exact .inr (Memory.hasFailed_setFailed_self _ _)
  | leave => exact hp
  | _ => trivial

end Turn.Step

theorem Turn.Noted.mono {c : Iteration} {u : Stand Turn.Point Unit} (h : Turn.Noted m c u)
    (hl : m.Later c m') :
    Turn.Noted m' c u := by
  cases u with
  | ended r => exact h.imp_right hl.failed
  | point p =>
    cases p with
    | leave r => exact h.imp_right hl.failed
    | _ => trivial

/-! ### Acquisitions -/

theorem Acquire.harmed_verdict (a : Acquire) (x : Mishap) : ¬ (a.verdict x).Unharmed := by
  intro h
  cases x with
  | refused problem => cases h
  | crashed text => exact h

def Acquire.Noted (m : Memory) (c : Iteration) : Stand Acquire.Point Nat → Prop
  | .point (.leave r) | .ended r => r.Noted m c
  | .point _ => True

namespace Acquire.Step
variable {a : Acquire} {p : Acquire.Point} {u : Stand Acquire.Point Nat}

theorem unharmed_before (h : a.Step m p m' u) (hu : Acquire.Unharmed u) :
    Acquire.Unharmed (.point p) := by
  cases h with
  | condemn => exact absurd hu (a.harmed_verdict _)
  | leave => exact hu
  | _ => trivial

theorem harmed_of_failed (h : a.Step m p m' u) (hm : m.hasFailed a.iteration = false)
    (hm' : m'.hasFailed a.iteration = true) : ¬ Acquire.Unharmed u := by
  cases h with
  | condemn => exact a.harmed_verdict _
  | _ => exact Bool.noConfusion (hm'.symm.trans hm)

theorem noted (h : a.Step m p m' u) (hp : Acquire.Noted m a.iteration (.point p)) :
    Acquire.Noted m' a.iteration u := by
  cases h with
  | abort => exact .inl rfl
  | found | foundLate | publish => exact .inl trivial
  | condemn => exact .inr (Memory.hasFailed_setFailed_self _ _)
  | leave => exact hp
  | _ => trivial

end Acquire.Step

theorem Acquire.Noted.mono {c : Iteration} {u : Stand Acquire.Point Nat} (h : Acquire.Noted m c u)
    (hl : m.Later c m') : Acquire.Noted m' c u := by
  cases u with
  | ended r => exact h.imp_right hl.failed
  | point p =>
    cases p with
    | leave r => exact h.imp_right hl.failed
    | _ => trivial

/-! ### Releases -/

def Release.Noted (m : Memory) (c : Iteration) : Stand Release.Point Unit → Prop
  | .point (.cleaning _ p) => Turn.Noted m c (.point p)
  | .point (.clearing r _) | .ended r => r.Noted m c
  | .point _ => True

namespace Release.Step
variable {a : Release} {p : Release.Point} {u : Stand Release.Point Unit}

theorem unharmed_before (h : a.Step m p m' u) (hu : Release.Unharmed u) :
    Release.Unharmed (.point p) := by
  cases h with
  | cleaning ht | cleaned ht | crashed ht => exact ht.unharmed_before hu
  | clearing | cleared => exact hu
  | _ => trivial

theorem harmed_of_failed (h : a.Step m p m' u) (hm : m.hasFailed a.iteration = false)
    (hm' : m'.hasFailed a.iteration = true) : ¬ Release.Unharmed u := by
  cases h with
  | cleaning ht | cleaned ht | crashed ht => exact ht.harmed_of_failed hm hm'
  | clearing hc | cleared hc => exact Bool.noConfusion (hm'.symm.trans ((hc.hasFailed _).trans hm))
  | _ => exact Bool.noConfusion (hm'.symm.trans hm)

theorem noted (h : a.Step m p m' u) (hp : Release.Noted m a.iteration (.point p)) :
    Release.Noted m' a.iteration u := by
  cases h with
  | cleaning ht | cleaned ht | crashed ht => exact ht.noted hp
  | abort => exact .inl rfl
  | proceed => exact .inl trivial
  | clearing hc | cleared hc => exact hp.imp_right fun hf => (hc.hasFailed _).trans hf
  | _ => trivial

end Release.Step

theorem Release.Noted.mono {c : Iteration} {u : Stand Release.Point Unit} (h : Release.Noted m c u)
    (hl : m.Later c m') : Release.Noted m' c u := by
  cases u with
  | ended r => exact h.imp_right hl.failed
  | point p =>
    cases p with
    | cleaning f p => exact Turn.Noted.mono h hl
    | clearing r p => exact h.imp_right hl.failed
    | look | checkFailed => trivial

/-! ### Passes -/

namespace Pass
variable {a : Pass} {p : Point} {t : Stand Point Report}

/-- Nothing has gone wrong on the pass itself. Past the first checkpoint that is what makes a pass
unharmed, since a pass without a role does not get there. -/
def Innocent (t : Stand Point Report) : Prop := Unharmed 1 t

theorem innocent_failed {e : Failure} : Innocent (.ended (.failed e)) ↔ e.isSecondary = true := by
  simp [Innocent, Unharmed]

/-- A part that does not end unharmed leaves the pass without innocence. -/
theorem unharmed_of_onward {α : Type} {phase : Phase} {next : α → Point} {o : Outcome α}
    (h : Innocent (onward phase next o)) : o.Unharmed := by
  cases o with
  | ok v => trivial
  | failed e => exact h.resolve_right (by decide)
  | crashed text => exact h

/-- Innocence that is lost is not regained. -/
theorem Step.innocent_before (h : a.Step m p m' t) (ht : Innocent t) : Innocent (.point p) := by
  cases h with
  | acquire h => exact h.unharmed_before ht
  | acquired h => exact h.unharmed_before (unharmed_of_onward ht)
  | setUp h | tearDown h => exact h.unharmed_before ht
  | setUpDone h | tearDownDone h => exact h.unharmed_before (unharmed_of_onward ht)
  | release h => exact h.unharmed_before ht
  | released h => exact h.unharmed_before (unharmed_of_onward ht)
  | fail | condemn => exact ht
  | _ => trivial

/-- Whoever marks a trial failing has lost its innocence. -/
theorem Step.guilty_of_failed (h : a.Step m p m' t) (hm : m.hasFailed a.iteration = false)
    (hm' : m'.hasFailed a.iteration = true) : ¬ Innocent t := by
  have same (hs : m'.hasFailed a.iteration = m.hasFailed a.iteration) : ¬ Innocent t :=
    Bool.noConfusion (hm'.symm.trans (hs.trans hm))
  cases h with
  | reject => exact fun ht => ht.elim nofun nofun
  | condemn => exact id
  | acquire h => exact h.harmed_of_failed hm hm'
  | acquired h => exact fun ht => h.harmed_of_failed hm hm' (unharmed_of_onward ht)
  | setUp h | tearDown h => exact h.harmed_of_failed hm hm'
  | setUpDone h | tearDownDone h =>
    exact fun ht => h.harmed_of_failed hm hm' (unharmed_of_onward ht)
  | release h => exact h.harmed_of_failed hm hm'
  | released h => exact fun ht => h.harmed_of_failed hm hm' (unharmed_of_onward ht)
  | arrive h | arrived h | depart h | met h | notMet h => exact same (h.hasFailed _)
  | measure h | measured h => exact same (h.hasFailed _)
  | _ => exact same rfl

/-- A pass without innocence has marked the trial failing by the time it comes out of the part where
that happened, or is about to. -/
def Noted (m : Memory) (c : Iteration) : Stand Point Report → Prop
  | .point (.acquire p) => Acquire.Noted m c (.point p)
  | .point (.setUp _ p) | .point (.tearDown _ _ p) => Turn.Noted m c (.point p)
  | .point (.release _ p) => Release.Noted m c (.point p)
  | .point (.fail _ e) => (Outcome.failed e : Outcome Report).Noted m c
  | .point _ => True
  | .ended o => o.Noted m c

theorem Noted.mono {c : Iteration} (h : Noted m c t) (hl : m.Later c m') : Noted m' c t := by
  cases t with
  | ended o => exact h.imp_right hl.failed
  | point p =>
    cases p with
    | acquire p => exact Acquire.Noted.mono h hl
    | setUp f p | tearDown f r p => exact Turn.Noted.mono h hl
    | release r p => exact Release.Noted.mono h hl
    | fail phase e => exact h.imp_right hl.failed
    | _ => trivial

theorem noted_onward {α : Type} {c : Iteration} {phase : Phase} {next : α → Point} {o : Outcome α}
    (ho : o.Noted m c) (hn : ∀ v, Noted m c (.point (next v))) :
    Noted m c (onward phase next o) := by
  cases o with
  | ok v => exact hn v
  | failed e => exact ho
  | crashed text => trivial

theorem Step.noted (h : a.Step m p m' t) (hp : Noted m a.iteration (.point p)) :
    Noted m' a.iteration t := by
  cases h with
  | reject | condemn => exact .inr (Memory.hasFailed_setFailed_self _ _)
  | acquire h => exact h.noted hp
  | acquired h => exact noted_onward (h.noted hp) fun _ => trivial
  | arrived h =>
    cases h with
    | met => trivial
    | abort => exact .inl rfl
  | setUp h | tearDown h => exact h.noted hp
  | @setUpDone f _ _ o h =>
    refine noted_onward (h.noted hp) fun _ => ?_
    unfold afterSetUp
    split <;> trivial
  | @measured f ops _ _ o h =>
    cases o with
    | failed e => cases h
    | ok v | crashed text => trivial
  | @noteStop f ops r =>
    unfold afterMeasured
    split <;> trivial
  | @tearDownDone f r _ _ o h =>
    refine noted_onward (h.noted hp) fun _ => ?_
    unfold afterTearDown
    split <;> trivial
  | release h => exact h.noted hp
  | released h => exact noted_onward (h.noted hp) fun _ => trivial
  | notInterrupted | abort | void => exact .inl rfl
  | finish => exact .inl trivial
  | fail => exact hp
  | _ => trivial

end Pass
end

/-! ### Groups -/

namespace Group

/-- What is certain of a running group whatever its calls come to: a trial that is failing has
somebody to blame for it, and nobody to blame has kept it to itself. -/
structure Answerable (x : Execution) (m : Memory) (g : Group) (f : Nat) : Prop where
  kept : g.Kept x m f
  blamed : m.hasFailed g.iteration = true → ∃ t ∈ g.stands, ¬ Pass.Innocent t
  noted : ∀ t ∈ g.stands, Pass.Noted m g.iteration t

namespace Answerable
variable {x : Execution} {m m' : Memory} {g g' : Group} {marks : List Nat} {f i index : Nat}

theorem opening (hf : m.failing.get x.flag = false) (hm : m.Quiet x.site) (index created : Nat)
    (mask : UInt32) :
    (x.group (x.iteration index created)).Answerable x
      { m with signals := m.signals.put (x.iteration index created).number { mask } }
      ((m.live? x.site).getD m.published) where
  kept := .opening hm index created mask
  blamed h := Bool.noConfusion (h.symm.trans hf)
  noted t ht := by
    rw [Group.eq_start_of_mem ht]
    trivial

theorem member (h : g.Answerable x m f) (ha : g.Agreed x index m marks f) {p : Pass.Point}
    {t : Stand Pass.Point Report} {r : Nat} (hi : g.stands[i]? = some (.point p))
    (ht : (x.pass g.iteration i).Step m p m' t) (hr : marks[i]? = some r) (hp : p.Passed r)
    (hc : g'.iteration = g.iteration) (hs : g'.stands = g.stands.set i t) :
    g'.Answerable x m' f where
  kept := h.kept.member ha hi ht hr hp hc hs
  blamed := by
    obtain ⟨hlt, _⟩ := List.getElem?_eq_some_iff.mp hi
    have hmem : t ∈ g.stands.set i t := List.mem_set hlt _
    rw [hc, hs]
    intro hf'
    cases hf : m.hasFailed g.iteration with
    | false => exact ⟨t, hmem, ht.guilty_of_failed hf hf'⟩
    | true =>
      -- whoever is to blame still is, the member itself included
      obtain ⟨u, hu, hn⟩ := h.blamed hf
      rcases eq_or_mem_set (b := t) hi hu with rfl | hu
      · exact ⟨t, hmem, fun hI => hn (ht.innocent_before hI)⟩
      · exact ⟨u, hu, hn⟩
  noted u hu := by
    rw [hs] at hu
    rw [hc]
    rcases List.mem_or_eq_of_mem_set hu with hu | rfl
    · exact (h.noted u hu).mono ht.later
    · exact ht.noted (h.noted _ (List.mem_of_getElem? hi))

theorem moved (h : g.Answerable x m f) (ha : g.Agreed x index m marks f) (hm : g.Moved x m m' g') :
    ∃ marks', g'.Agreed x index m' marks' f ∧ g'.Answerable x m' f := by
  cases hm with
  | rest hc hs hd =>
    refine ⟨marks, ha.rest hc hs hd, h.kept.rest hc hs, ?_, ?_⟩ <;> rw [hc, hs]
    · exact h.blamed
    · exact h.noted
  | member hc hi ht hs hd =>
    obtain ⟨r, r', hr, hp, _, _, _, ha'⟩ := ha.member hc hi ht hs hd
    exact ⟨_, ha', h.member ha hi ht hr hp hc hs⟩
  | conductor hc hs hp ht hd =>
    refine ⟨marks, ha.conductor hc hs hp ht hd, h.kept.conductor ht hc hs, ?_, ?_⟩ <;> rw [hc, hs]
    · rw [ht.hasFailed]
      exact h.blamed
    · exact fun t hmem => (h.noted t hmem).mono ht.later

/-- When everybody has ended, the trial is failing exactly if somebody has crashed or has
a failure of its own. -/
theorem failed_iff (h : g.Answerable x m f) (he : g.hasEnded = true) :
    m.hasFailed g.iteration = true ↔ ∃ o ∈ g.outcomes, ¬ o.Unharmed := by
  constructor
  · intro hf
    obtain ⟨t, ht, hn⟩ := h.blamed hf
    obtain ⟨o, rfl⟩ := exists_outcome he ht
    refine ⟨o, mem_outcomes.mpr ht, fun ho => hn ?_⟩
    cases o with
    | ok r => trivial
    | failed e => exact Pass.innocent_failed.mpr ho
    | crashed text => exact ho
  · rintro ⟨o, ho, hn⟩
    exact (h.noted _ (mem_outcomes.mp ho)).resolve_left hn

/-- Whoever has failed in a trial that is not failing was interrupted. -/
theorem interrupted (ha : g.Agreed x index m marks f) (hf : m.hasFailed g.iteration = false)
    {e : Failure} (he : .failed e ∈ g.outcomes) : m.isInterrupted g.iteration = true := by
  obtain ⟨i, hi⟩ := List.mem_iff_getElem?.mp (mem_outcomes.mp he)
  obtain ⟨r, hr, _⟩ := ha.1.attendance.mark hi
  have hh : m.Halted g.iteration := ha.1.excused hi hr
  exact hh.resolve_left (Bool.eq_false_iff.mp hf)

end Answerable
end Group

namespace Execution
variable {x : Execution} {m : Memory} {h : List Entry} {w : World}

/-- Along a run whose site was quiet at first, whatever its calls come to. -/
theorem Run.answerable (hr : x.Run m h w) (hf : m.failing.get x.flag = false)
    (hm : m.Quiet x.site) :
    (∀ {index : Nat} {mask : UInt32}, w.point = .launch index mask →
      w.memory.failing.get x.flag = false ∧ w.memory.Quiet x.site) ∧
      ∀ {index : Nat} {g : Group}, w.point = .running index g →
        ∃ marks f, g.Agreed x index w.memory marks f ∧ g.Answerable x w.memory f := by
  refine hr.along (L := fun _ m => m.failing.get x.flag = false ∧ m.Quiet x.site)
    (P := fun index m g => ∃ marks f, g.Agreed x index m marks f ∧ g.Answerable x m f)
      ⟨hf, hm⟩ ?_ ?_ ?_
  · exact fun ⟨hf, hm⟩ => ⟨_, _, .opening _ _ _ _ _ hf, .opening hf hm _ _ _⟩
  · rintro index _ _ _ _ hmoved ⟨marks, f, ha, hA⟩
    obtain ⟨marks', ha', hA'⟩ := hA.moved ha hmoved
    exact ⟨marks', f, ha', hA'⟩
  · rintro index m g ⟨marks, f, ha, hA⟩ he ho _
    exact ⟨(ha.of_all_ok he ho).1, hA.kept.quiet ha he⟩

end Execution
end LoadBench
