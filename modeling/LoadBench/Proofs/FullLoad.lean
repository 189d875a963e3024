import LoadBench.Proofs.Iterating

/-!
# Measurement under full load

In an iteration with warm loops that is not halted, whoever measures does so while every member
of the group is between entering its warmup loop and leaving its warmdown loop. Two counts carry
the argument: the warmup loops are let go once all members have entered them, and the
warmdown loops once all members have entered those, which a member that measures has not.
-/

namespace LoadBench

namespace Group

/-- Everything that members and conductor can count on while an iteration is running. -/
structure Paced (x : Execution) (index : Nat) (m : Memory) (g : Group) (marks : List Nat) :
    Prop where
  iteration : g.iteration = x.iteration index g.iteration.created
  length : g.stands.length = x.threads
  attendance : Attendance x.trial.benchmark.mode g.iteration m g.stands marks
  released : ∀ {i : Nat} {t : Stand Pass.Point Report}, g.stands[i]? = some t →
    Pass.Released x.trial.benchmark.mode (m.signalsOf g.iteration) t
  excused : ∀ {i : Nat} {t : Stand Pass.Point Report} {r : Nat}, g.stands[i]? = some t →
    marks[i]? = some r → Pass.Excused m g.iteration r t
  reliable : (x.conductor g.iteration).Reliable m
  knows : (x.conductor g.iteration).Knows m g.conductor.stand

namespace Paced
variable {x : Execution} {index : Nat} {m m' : Memory} {g g' : Group} {marks : List Nat}

theorem opening (x : Execution) (index created : Nat) (m : Memory) (mask : UInt32) :
    Paced x index { m with signals := m.signals.put (x.iteration index created).number { mask } }
      (x.group (x.iteration index created)) (List.replicate x.threads 0) := by
  have hs : ({ m with signals := m.signals.put (x.iteration index created).number { mask } } :
      Memory).signalsOf (x.iteration index created) = { mask } := Table.get_put_self _ _ _
  constructor
  · rfl
  · simp [Group.stands_group]
  · rw [Group.stands_group]
    exact .opening fun k => by cases k <;> exact congrArg _ hs
  · intro i t hi
    cases Group.eq_start_of_mem (List.mem_of_getElem? hi)
    trivial
  · intro i t r hi _
    cases Group.eq_start_of_mem (List.mem_of_getElem? hi)
    trivial
  · exact .opening (congrArg _ hs) (congrArg _ hs) (congrArg _ hs) (congrArg _ hs)
  · exact .opening (congrArg _ hs)

theorem rest (h : Paced x index m g marks) (hc : g'.iteration = g.iteration)
    (hs : g'.stands = g.stands) (hd : g'.conductor.stand = g.conductor.stand) :
    Paced x index m g' marks := by
  obtain ⟨iteration, length, attendance, released, excused, reliable, knows⟩ := h
  constructor <;> simp only [hc, hs, hd] <;> assumption

theorem member (h : Paced x index m g marks) {i : Nat} {p : Pass.Point}
    {t : Stand Pass.Point Report} (hc : g'.iteration = g.iteration)
    (hi : g.stands[i]? = some (.point p)) (ht : (x.pass g.iteration i).Step m p m' t)
    (hs : g'.stands = g.stands.set i t) (hd : g'.conductor.stand = g.conductor.stand) :
    ∃ r r', marks[i]? = some r ∧ p.Passed r ∧ Pass.Passed t r' ∧ r ≤ r' ∧ (Pass.Doomed t → r' = r) ∧
      Paced x index m' g' (marks.set i r') := by
  obtain ⟨r, r', hr, hp, ht', hle, hdoomed, ha⟩ :=
    h.attendance.step (a := x.pass g.iteration i) hi ht
  refine ⟨r, r', hr, hp, ht', hle, hdoomed, ?_⟩
  have hl := ht.later
  have hatt := ht.attended
  have hrel : Pass.Released x.trial.benchmark.mode (m.signalsOf g.iteration) t :=
    ht.keeps_released (h.released hi)
  have hexc := ht.excused hp h.reliable.spoiled (h.excused hi hr)
  refine ⟨?_, ?_, ?_, ?_, ?_, ?_, ?_⟩
  · rw [hc]
    exact h.iteration
  · rw [hs, List.length_set]
    exact h.length
  · rw [hc, hs]
    exact ha
  · intro j u hj
    rw [hs] at hj
    rw [hc]
    rcases getElem?_set_eq_some hj with ⟨_, rfl⟩ | ⟨_, hj⟩
    · exact hrel.mono hl.warmup hl.warmdown
    · exact (h.released hj).mono hl.warmup hl.warmdown
  · intro j u q hj hq
    rw [hs] at hj
    rw [hc]
    rcases getElem?_set_eq_some hj with ⟨rfl, rfl⟩ | ⟨hij, hj⟩
    · -- only where a pass unwinds does the mark matter, and there it has not moved
      obtain ⟨_, rfl⟩ | ⟨hne, _⟩ := getElem?_set_eq_some hq
      · exact Pass.Excused.of_mark hexc hdoomed
      · exact absurd rfl hne
    · obtain ⟨rfl, _⟩ | ⟨_, hq⟩ := getElem?_set_eq_some hq
      · exact absurd rfl hij
      · exact (h.excused hj hq).mono hl
  · rw [hc]
    exact h.reliable.attended hl hatt
  · rw [hc, hd]
    exact h.knows.attended hl hatt

theorem conductor (h : Paced x index m g marks) {p : Conductor.Point}
    {s : Stand Conductor.Point Unit} (hc : g'.iteration = g.iteration) (hs : g'.stands = g.stands)
    (hp : g.conductor.stand = .point p) (ht : (x.conductor g.iteration).Step m p m' s)
    (hd : g'.conductor.stand = s) : Paced x index m' g' marks := by
  have hl := ht.later
  have hk : (x.conductor g.iteration).Knows m (.point p) := hp ▸ h.knows
  constructor
  · rw [hc]
    exact h.iteration
  · rw [hs]
    exact h.length
  · rw [hc, hs]
    exact h.attendance.of_signals ht.count
  · intro i t hi
    rw [hs] at hi
    rw [hc]
    exact (h.released hi).mono hl.warmup hl.warmdown
  · intro i t r hi hr
    rw [hs] at hi
    rw [hc]
    exact (h.excused hi hr).mono hl
  · rw [hc]
    exact ht.reliable h.reliable hk
  · rw [hc, hd]
    exact ht.knows hk

theorem moved (h : Paced x index m g marks) (hm : g.Moved x m m' g') :
    ∃ marks', Paced x index m' g' marks' := by
  cases hm with
  | rest hc hs hd => exact ⟨marks, h.rest hc hs hd⟩
  | member hc hi ht hs hd =>
    obtain ⟨r, r', _, _, _, _, _, h'⟩ := h.member hc hi ht hs hd
    exact ⟨_, h'⟩
  | conductor hc hs hp ht hd => exact ⟨marks, h.conductor hc hs hp ht hd⟩

/-- Once the warmup loops were let go in an iteration that is not halted, every
member has entered its own. -/
theorem all_warm (h : Paced x index m g marks) (hm : x.trial.benchmark.mode.hasWarmLoops = true)
    (hn : x.threads ≤ (m.signalsOf g.iteration).warmupReady) {r : Nat} (hr : r ∈ marks) : 2 ≤ r :=
  h.attendance.of_complete (k := .warmup) hm (Nat.le_trans (Nat.le_of_eq h.length) hn) hr

theorem threads (h : Paced x index m g marks) : g.iteration.threads = x.threads := by
  rw [h.iteration]
  rfl

/-- An iteration is interrupted only when every member has entered its warmup loop. -/
theorem two_le_of_interrupted (h : Paced x index m g marks)
    (hi : m.isInterrupted g.iteration = true) {r : Nat} (hr : r ∈ marks) : 2 ≤ r := by
  obtain ⟨hm, hn⟩ := h.reliable.interrupted hi
  exact h.all_warm hm (h.threads ▸ hn) hr

end Paced
end Group

namespace Execution

theorem Run.paced {x : Execution} {m : Memory} {h : List Entry} {w : World} (hr : x.Run m h w)
    {index : Nat} {g : Group} (hp : w.point = .running index g) :
    ∃ marks, g.Paced x index w.memory marks :=
  (hr.along (L := fun _ _ => True) (P := fun index m g => ∃ marks, g.Paced x index m marks) trivial
    (fun _ => ⟨_, .opening ..⟩) (fun hm ⟨_, h⟩ => h.moved hm) (fun _ _ _ _ => trivial)).2 hp

end Execution

/-- Between entering the warmup loop and leaving the warmdown loop. Who unwinds out of a loop has
not left it before the trial is marked failing. -/
def Pass.Point.isLoaded : Pass.Point → Bool
  | .warmupGate .. | .warmupWork .. | .noteStart .. | .measure .. | .noteStop .. | .enterWarmdown ..
  | .warmdownGate .. | .warmdownWork .. => true
  | .condemn phase _ => phase = .warmup || phase = .measuring || phase = .warmdown
  | _ => false

/-- Who has entered its warmup loop is still loaded while the warmdown loops are held, unless the
iteration is halted. -/
theorem Pass.loaded {mode : Mode} {m : Memory} {c : Iteration} {t : Stand Point Report} {r : Nat}
    (hp : Passed t r) (hr : Released mode (m.signalsOf c) t) (he : Excused m c r t)
    (hm : mode.hasWarmLoops = true) (hh : ¬ m.Halted c) (hd : (m.signalsOf c).warmdownHeld = true)
    (h2 : 2 ≤ r) : r < 4 ∧ ∃ q, t = .point q ∧ q.isLoaded = true := by
  have held (hw : mode.hasWarmLoops = true → (m.signalsOf c).warmdownHeld = false) : False :=
    absurd (hw hm) (by simp [hd])
  cases t with
  | ended o =>
    cases o with
    | ok v => exact (held hr).elim
    | failed e => exact absurd he hh
    | crashed text => exact absurd (.inl he) hh
  | point q =>
    cases q with
    | begin | reject | acquire | setUp | enterWarmup =>
      simp only [Passed, Point.Passed] at hp
      omega
    | arrive f p =>
      cases p <;> simp only [Passed, Point.Passed] at hp <;> omega
    | warmupGate | warmupWork | noteStart | measure | noteStop | enterWarmdown | warmdownGate
    | warmdownWork =>
      refine ⟨?_, _, rfl, rfl⟩
      simp only [Passed, Point.Passed] at hp
      omega
    | depart | checkInterrupted | checkFailed | force | tearDown | enterRelease
    | release | finish =>
      exact (held hr).elim
    | fail phase e => exact absurd he hh
    | condemn phase text =>
      have h4 : r ≠ 4 := fun h4 => hh (.inl (he h4))
      cases phase with
      | init | trialTeardown | done =>
        simp only [Passed, Point.Passed, Phase.Passed] at hp
        omega
      | warmup | measuring | warmdown =>
        refine ⟨?_, _, rfl, rfl⟩
        simp only [Passed, Point.Passed, Phase.Passed] at hp
        omega

namespace Execution

/-- Whoever measures in an iteration that is not halted does so with all members under load. -/
theorem Run.full_load {x : Execution} {m : Memory} {h : List Entry} {w : World} (hr : x.Run m h w)
    {index : Nat} {g : Group} (hp : w.point = .running index g)
    (hm : x.trial.benchmark.mode.hasWarmLoops = true) (hf : w.memory.hasFailed g.iteration = false)
    (hi : w.memory.isInterrupted g.iteration = false) {s : Strand Pass.Point Report}
    (hs : s ∈ g.members) {f ops : Nat} {p : Measurement.Point}
    (hq : s.stand = .point (.measure f ops p)) :
    g.members.length = x.threads ∧ (w.memory.signalsOf g.iteration).warmupReady = x.threads ∧
      (w.memory.signalsOf g.iteration).tearDownArrivals = 0 ∧
      ∀ s ∈ g.members, ∃ q, s.stand = .point q ∧ q.isLoaded = true := by
  obtain ⟨marks, h⟩ := hr.paced hp
  have hh : ¬ w.memory.Halted g.iteration := by
    rintro (h | h)
    · simp [hf] at h
    · simp [hi] at h
  have hg := h.threads
  have hlen : marks.length = x.threads := h.attendance.length.trans h.length
  obtain ⟨i, hi⟩ := List.mem_iff_getElem?.mp (List.mem_map_of_mem (f := Strand.stand) hs)
  rw [hq] at hi
  obtain ⟨r, hr, hpr⟩ := h.attendance.mark hi
  -- the warmup loops were let go, so everybody has entered theirs
  have hn := (h.reliable.warmup hm (h.released hi hm)).resolve_left hh
  have hwarm {r : Nat} : r ∈ marks → 2 ≤ r := h.all_warm hm (hg ▸ hn)
  -- the member itself has not entered its warmdown loop, so nobody was let go there
  have hheld : (w.memory.signalsOf g.iteration).warmdownHeld = true := by
    cases hd : (w.memory.signalsOf g.iteration).warmdownHeld with
    | true => rfl
    | false =>
      have hn := (h.reliable.warmdown hm hd).resolve_left hh
      have h3 := h.attendance.of_complete (k := .warmdown) hm
        (Nat.le_trans (Nat.le_of_eq h.length) (hg ▸ hn)) (List.mem_of_getElem? hr)
      have hr : r = 2 := hpr
      have h3 : 3 ≤ r := h3
      omega
  have hload {j : Nat} {t : Stand Pass.Point Report} {r : Nat} (hj : g.stands[j]? = some t)
      (hr : marks[j]? = some r) : r < 4 ∧ ∃ q, t = .point q ∧ q.isLoaded = true :=
    Pass.loaded (h.attendance.passed hj hr) (h.released hj) (h.excused hj hr) hm hh hheld
      (hwarm (List.mem_of_getElem? hr))
  refine ⟨?_, ?_, ?_, ?_⟩
  · exact (List.length_map Strand.stand).symm.trans h.length
  · refine (h.attendance.counted .warmup hm).trans (Eq.trans ?_ hlen)
    exact List.countP_eq_length.mpr fun r hr => decide_eq_true (hwarm hr)
  · refine (h.attendance.counted .tearDown rfl).trans (List.countP_eq_zero.mpr fun r hr => ?_)
    obtain ⟨j, hj⟩ := List.mem_iff_getElem?.mp hr
    obtain ⟨hlt, _⟩ := List.getElem?_eq_some_iff.mp hj
    have h4 := (hload (List.getElem?_eq_getElem (h.attendance.length ▸ hlt)) hj).1
    exact fun h => absurd (of_decide_eq_true h) (Nat.not_le.mpr h4)
  · intro s hs
    obtain ⟨j, hj⟩ := List.mem_iff_getElem?.mp (List.mem_map_of_mem (f := Strand.stand) hs)
    obtain ⟨r, hr, _⟩ := h.attendance.mark hj
    exact (hload hj hr).2

/-- Some member of a running group measures, and the iteration is not halted. -/
def World.isMeasuring (w : World) : Bool :=
  match w.point with
  | .running _ g =>
    !w.memory.hasFailed g.iteration && !w.memory.isInterrupted g.iteration &&
      g.members.any fun s => match s.stand with
        | .point (.measure ..) => true
        | _ => false
  | _ => false

theorem World.exists_measuring {w : World} (h : w.isMeasuring = true) :
    ∃ index g, w.point = .running index g ∧ w.memory.hasFailed g.iteration = false ∧
      w.memory.isInterrupted g.iteration = false ∧
      ∃ s ∈ g.members, ∃ f ops p, s.stand = .point (.measure f ops p) := by
  unfold isMeasuring at h
  cases hp : w.point with
  | running index g =>
    simp only [hp, Bool.and_eq_true, Bool.not_eq_true', List.any_eq_true] at h
    obtain ⟨⟨hf, hi⟩, s, hs, hm⟩ := h
    refine ⟨index, g, rfl, hf, hi, s, hs, ?_⟩
    split at hm
    · rename_i f ops p hq
      exact ⟨f, ops, p, hq⟩
    · cases hm
  | _ => simp [hp] at h

theorem full_load_duet :
    ∃ index g, (duet.play (rounds 36 (.returned 0)) (duet.start {})).2.point = .running index g ∧
      g.members.length = 2 ∧ ∀ s ∈ g.members, ∃ q, s.stand = .point q ∧ q.isLoaded = true := by
  have hr := run_play duet {} (rounds 36 (.returned 0))
  obtain ⟨index, g, hp, hf, hi, s, hs, f, ops, p, hq⟩ := World.exists_measuring
    (w := (duet.play (rounds 36 (.returned 0)) (duet.start {})).2) (by decide +kernel)
  have h := hr.full_load hp (by decide) hf hi hs hq
  exact ⟨index, g, hp, h.1, h.2.2.2⟩

end Execution
end LoadBench
