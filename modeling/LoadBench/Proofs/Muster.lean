import LoadBench.Proofs.Excuse
import LoadBench.Proofs.Path
import LoadBench.Proofs.Run

/-!
# Nobody is silently missing

Passes side by side on one iteration, while a driver raises whatever signals it likes. At every
checkpoint the passes that have arrived are counted, and the only ones that are not counted are
still on their way, unless the iteration is halted: whoever gives up before a checkpoint, by a
failure or by a crash, has then halted the iteration, or found it halted, before it is gone
(`Pass.nobody_missing`). So nobody waits for a pass that will not come.

Spoiling alone does not halt an iteration. A pass whose measurement was spoiled still comes through
every checkpoint before it fails.
-/

namespace LoadBench
open Pool

namespace Pass

/-- The checkpoint where a pass announces itself with its next step. -/
def Point.checkpoint? : Point → Option Checkpoint
  | .arrive _ .announce => some .setUp
  | .enterWarmup _ => some .warmup
  | .enterWarmdown .. => some .warmdown
  | .depart _ _ .announce => some .tearDown
  | _ => none

def Point.announces (k : Checkpoint) (p : Point) : Bool := p.checkpoint? = some k

/-- A pass has taken the step by which it announces itself. -/
def HasArrived (k : Checkpoint) (i : Nat) (l : List (Stride Point)) : Bool :=
  l.any fun s => s.who = i && s.point.announces k

/-- What happens to an iteration besides its passes: a driver raises a signal or marks
the trial failing, and hooks, workloads and everybody else do what they like to all that
is not the iteration's. -/
inductive Raised (c : Iteration) (m : Memory) : Memory → Prop where
  | fail : Raised c m (m.setFailed c)
  | interrupt : Raised c m (m.signal c Signals.interrupt)
  | spoil : Raised c m (m.signal c Signals.spoil)
  | close : Raised c m (m.signal c Signals.close)
  | freeWarmup : Raised c m (m.signal c Signals.freeWarmup)
  | freeWarmdown : Raised c m (m.signal c Signals.freeWarmdown)
  | freeAll : Raised c m (m.signal c Signals.freeAll)
  | elsewhere {m' : Memory} (hf : m'.hasFailed c = m.hasFailed c)
      (hs : m'.signalsOf c = m.signalsOf c) : Raised c m m'

section
variable {a : Pass} {c : Iteration} {m m' : Memory} {p : Point} {t : Stand Point Report} {r : Nat}

theorem Raised.count (h : Raised c m m') (k : Checkpoint) :
    k.count (m'.signalsOf c) = k.count (m.signalsOf c) := by
  cases h with
  | fail => rfl
  | elsewhere _ hs => rw [hs]
  | _ =>
    rw [Memory.signalsOf_signal_self]
    cases k <;> rfl

theorem Raised.hasFailed (h : Raised c m m') (hf : m.hasFailed c = true) :
    m'.hasFailed c = true := by
  cases h with
  | fail => exact Memory.hasFailed_setFailed_self m c
  | elsewhere hf' _ => exact hf'.trans hf
  | _ => exact hf

theorem Raised.halted (h : Raised c m m') (hm : m.Halted c) : m'.Halted c := by
  have signalled {f : Signals → Signals} (hf : ∀ s : Signals, s.interrupted = true →
      (f s).interrupted = true) :
      (m.signal c f).Halted c := by
    refine hm.imp id fun hi => ?_
    unfold Memory.isInterrupted
    rw [Memory.signalsOf_signal_self]
    exact hf _ hi
  cases h with
  | fail => exact .inl (Memory.hasFailed_setFailed_self m c)
  | elsewhere hf hs =>
    refine hm.imp hf.trans fun hi => ?_
    unfold Memory.isInterrupted
    rw [hs]
    exact hi
  | interrupt => exact signalled fun _ _ => rfl
  | spoil | close | freeWarmup | freeWarmdown | freeAll => exact signalled fun _ => id

/-! ### Arrivals and counts -/

theorem Step.count (h : a.Step m p m' t) (k : Checkpoint) :
    k.count (m'.signalsOf a.iteration) = k.count (m.signalsOf a.iteration) +
      (p.announces k).toNat := by
  have same (hp : p.checkpoint? = none) (hs : m'.signalsOf a.iteration = m.signalsOf a.iteration) :
      k.count (m'.signalsOf a.iteration) = k.count (m.signalsOf a.iteration) +
        (p.announces k).toNat := by
    simp [Point.announces, hp, hs]
  have signalled {f : Signals → Signals}
      (hf : ∀ s, k.count (f s) = k.count s + (p.announces k).toNat) :
      k.count ((m.signal a.iteration f).signalsOf a.iteration) =
        k.count (m.signalsOf a.iteration) + (p.announces k).toNat := by
    rw [Memory.signalsOf_signal_self, hf]
  cases h with
  | acquire h | acquired h => exact same rfl (h.signalsOf _)
  | setUp h | setUpDone h | tearDown h | tearDownDone h => exact same rfl (h.signalsOf _)
  | release h | released h => exact same rfl (h.signalsOf _)
  | arrive h | depart h =>
    cases h with
    | announce => exact signalled fun s => by cases k <;> rfl
    | wait => exact same rfl rfl
  | arrived h | met h | notMet h => cases h <;> exact same rfl rfl
  | measure h | measured h =>
    rw [show a.iteration = a.measurement.iteration from rfl, h.count]
    rfl
  | enterWarmup | enterWarmdown | noteStart | noteStop | force =>
    exact signalled fun s => by cases k <;> rfl
  | _ => exact same rfl rfl

/-- A mark rises over a checkpoint by the announcement there. -/
theorem Step.announces_iff (h : a.Step m p m' t) {r' : Nat} {k : Checkpoint}
    (hk : k.isKept a.mode = true)
    (hm : Marked a.mode (m.signalsOf a.iteration) (m'.signalsOf a.iteration) r r') :
    p.announces k = true ↔ r < k.rank ∧ k.rank ≤ r' := by
  have hn := (h.count k).symm.trans (hm.2 k hk)
  by_cases hr : r < k.rank ∧ k.rank ≤ r'
  · simp only [hr, and_self, if_true] at hn ⊢
    cases hp : p.announces k with
    | true => exact ⟨fun _ => trivial, fun _ => rfl⟩
    | false => simp [hp] at hn
  · simp only [hr, if_false] at hn ⊢
    cases hp : p.announces k with
    | true => simp [hp] at hn
    | false => simp

/-- Nothing is called where a pass announces itself. -/
theorem not_announces_of_ask {now : Nat} {q : Request} {f : Reply → Stand Point Report}
    (h : a.step now m p = .ask q f) (k : Checkpoint) : p.announces k = false := by
  cases p with
  | arrive f p | depart f r p =>
    cases p with
    | announce => cases h
    | waiting p => rfl
  | enterWarmup | enterWarmdown => cases h
  | _ => rfl

/-! ### Who gives up -/

/-- Whoever gives up before the last checkpoint does so in an iteration that is halted. -/
def Accountable (m : Memory) (c : Iteration) (r : Nat) : Stand Point Report → Prop
  | .point (.acquire p) => Acquire.Excused m c (.point p)
  | .point (.setUp _ p) => Turn.Excused m c (.point p)
  | .point (.fail ..) | .ended (.failed _) | .ended (.crashed _) => r < 4 → m.Halted c
  | _ => True

theorem Accountable.mono (h : Accountable m c r t) (hl : m.Halted c → m'.Halted c)
    (hf : m.hasFailed c = true → m'.hasFailed c = true) : Accountable m' c r t := by
  cases t with
  | ended o =>
    cases o with
    | ok v => trivial
    | failed e | crashed text => exact fun hr => hl (h hr)
  | point p =>
    cases p with
    | acquire p =>
      cases p with
      | leave o => exact fun ho => hf (h ho)
      | _ => trivial
    | setUp f p =>
      cases p with
      | leave o => exact fun ho => hf (h ho)
      | _ => trivial
    | fail => exact fun hr => hl (h hr)
    | _ => trivial

theorem Step.accountable {r' : Nat} (h : a.Step m p m' t) (hp : p.Passed r) (hd : Doomed t → r' = r)
    (ha : Accountable m a.iteration r (.point p)) : Accountable m' a.iteration r' t := by
  -- past the last checkpoint there is nothing to show
  have last {m' : Memory} {phase : Phase} {e : Failure} (hr : r = 4) (h' : r' = r) :
      Accountable m' a.iteration r' (.point (.fail phase e)) := fun hlt => by omega
  cases h with
  | reject => exact fun _ => .inl (Memory.hasFailed_setFailed_self ..)
  | acquire h => exact h.excused ha
  | @acquired p _ o h =>
    cases o with
    | failed e => exact fun _ => h.excused ha
    | ok v | crashed text => trivial
  | arrived h =>
    cases h with
    | met => trivial
    | abort hh => exact fun _ => hh
  | setUp h => exact h.excused ha
  | @setUpDone f p _ o h =>
    cases o with
    | ok v =>
      change Accountable _ _ _ (.point (a.afterSetUp f))
      unfold afterSetUp
      split <;> trivial
    | failed e => exact fun _ => h.excused ha
    | crashed text => trivial
  | @measured f ops p _ o h =>
    cases o with
    | failed e => cases h
    | ok v | crashed text => trivial
  | @noteStop f ops o =>
    change Accountable _ _ _ (.point (a.afterMeasured f ops o))
    unfold afterMeasured
    split <;> trivial
  | notInterrupted | abort => exact last hp (hd trivial)
  | @tearDownDone f o p _ u h =>
    cases u with
    | ok v =>
      change Accountable _ _ _ (.point (a.afterTearDown o))
      unfold afterTearDown
      split <;> trivial
    | failed e => exact last hp (hd trivial)
    | crashed text => trivial
  | @released o p _ u h =>
    cases u with
    | failed e => exact last hp (hd trivial)
    | ok v | crashed text => trivial
  | void => exact last hp (hd trivial)
  | fail =>
    rw [hd trivial]
    exact ha
  | condemn => exact fun _ => .inl (Memory.hasFailed_setFailed_self ..)
  | _ => trivial

end

end Pass

/-- Marks are kept alike in all modes with warm loops, and in all without. -/
theorem Attendance.of_mode {mode mode' : Mode} {c : Iteration} {m : Memory}
    {l : List (Stand Pass.Point Report)} {marks : List Nat} (h : Attendance mode c m l marks)
    (hm : mode'.hasWarmLoops = mode.hasWarmLoops) :
    Attendance mode' c m l marks where
  length := h.length
  passed := h.passed
  counted k hk := h.counted k (by cases k <;> simp_all [Checkpoint.isKept])

namespace Pass

/-! ### The muster of a group -/

/-- The marks of the passes agree with the counts of the iteration and with the
steps that were taken. -/
structure Muster (mode : Mode) (c : Iteration) (l : List (Stride Point)) (w : Pool Point Report)
    (marks : List Nat) : Prop where
  attendance : Attendance mode c w.memory w.stands marks
  arrived : ∀ {i r : Nat} {k : Checkpoint}, marks[i]? = some r → k.isKept mode = true →
    (HasArrived k i l = true ↔ k.rank ≤ r)
  accountable : ∀ {i r : Nat} {t : Stand Point Report}, w.stands[i]? = some t → marks[i]? = some r →
    Accountable w.memory c r t

section
variable {passes : Nat → Pass} {mode : Mode} {c : Iteration} {l x : List (Stride Point)}
  {w w' : Pool Point Report} {marks : List Nat} {m m₀ : Memory} {i j n : Nat} {k : Checkpoint}
  {p : Point} {es : List Event}

theorem hasArrived_append : HasArrived k j (l ++ [⟨i, p, es⟩]) =
    (HasArrived k j l || decide (i = j) && p.announces k) := by simp [HasArrived]

theorem Muster.opening (h₀ : ∀ k : Checkpoint, k.count (m₀.signalsOf c) = 0) :
    Muster mode c [] (gather n (fun _ => .begin) m₀) (List.replicate n 0) := by
  have hs :
      (gather n (fun _ => .begin) m₀ : Pool Point Report).stands = List.replicate n Pass.start := by
    rw [stands_gather, List.map_const', List.length_range]
    rfl
  refine ⟨hs ▸ .opening h₀, fun {i r k} hr _ => ?_, fun {i r t} hi _ => ?_⟩
  · cases List.eq_of_mem_replicate (List.mem_of_getElem? hr)
    cases k <;> simp [HasArrived, Checkpoint.rank]
  · rw [hs] at hi
    cases List.eq_of_mem_replicate (List.mem_of_getElem? hi)
    trivial

theorem Muster.called (h : Muster mode c l w marks) (hi : w.strands[i]? = some ⟨.point p, false⟩)
    (hp : ∀ k, p.announces k = false) :
    Muster mode c (l ++ [⟨i, p, es⟩]) ⟨w.memory, w.strands.set i ⟨.point p, true⟩⟩ marks := by
  have hs :
      (⟨w.memory, w.strands.set i ⟨.point p, true⟩⟩ : Pool Point Report).stands = w.stands := by
    obtain ⟨hlt, hget⟩ := List.getElem?_eq_some_iff.mp (getElem?_stands hi)
    rw [stands, List.map_set, ← hget]
    exact List.set_getElem_self hlt
  refine ⟨hs ▸ h.attendance, fun hr hk => ?_, fun hi hr => h.accountable (hs ▸ hi) hr⟩
  rw [hasArrived_append, hp, Bool.and_false, Bool.or_false]
  exact h.arrived hr hk

theorem Muster.moved (h : Muster mode c l w marks) (hc : (passes i).iteration = c)
    (hw : (passes i).mode.hasWarmLoops = mode.hasWarmLoops) {b : Bool} {t : Stand Point Report}
    (hi : w.strands[i]? = some ⟨.point p, b⟩) (hs : (passes i).Step w.memory p m t) :
    ∃ marks', Muster mode c (l ++ [⟨i, p, es⟩]) ⟨m, w.strands.set i ⟨t, false⟩⟩ marks' := by
  subst hc
  have hstands :
      (⟨m, w.strands.set i ⟨t, false⟩⟩ : Pool Point Report).stands = w.stands.set i t := by
    rw [stands, List.map_set]
    rfl
  have hi := getElem?_stands hi
  obtain ⟨r, hr, hp⟩ := h.attendance.mark hi
  obtain ⟨r', ht, hm, hd⟩ := hs.passed hp
  have hatt := ((h.attendance.of_mode hw).move hr ht hm).of_mode hw.symm
  refine ⟨marks.set i r', hstands ▸ hatt, fun {j q k} hq hk => ?_, fun {j q u} hu hq => ?_⟩
  · have hkept : k.isKept (passes i).mode = true := by
      cases k <;> simp_all [Checkpoint.isKept]
    rw [hasArrived_append]
    rw [List.getElem?_set] at hq
    by_cases hij : i = j
    · subst hij
      simp only [if_true, Option.ite_none_right_eq_some, Option.some.injEq] at hq
      obtain ⟨-, rfl⟩ := hq
      have hle := hm.1
      have hiff := hs.announces_iff hkept hm
      have hold := h.arrived hr hk
      simp only [decide_true, Bool.true_and, Bool.or_eq_true, hold, hiff]
      omega
    · simp only [hij, decide_false, Bool.false_and, Bool.or_false, if_false] at hq ⊢
      exact h.arrived hq hk
  · rw [hstands, List.getElem?_set] at hu
    rw [List.getElem?_set] at hq
    by_cases hij : i = j
    · subst hij
      simp only [if_true, Option.ite_none_right_eq_some, Option.some.injEq] at hu hq
      obtain ⟨-, rfl⟩ := hu
      obtain ⟨-, rfl⟩ := hq
      exact hs.accountable hp hd (h.accountable hi hr)
    · simp only [hij, if_false] at hu hq
      exact (h.accountable hu hq).mono hs.later.halted hs.failed

theorem Muster.step (h : Muster mode c l w marks) (hc : ∀ i, (passes i).iteration = c)
    (hw : ∀ i, (passes i).mode.hasWarmLoops = mode.hasWarmLoops)
    (hs : Stepped (company passes (Raised c)) w x w') :
    ∃ marks', Muster mode c (l ++ x) w' marks' := by
  cases hs with
  | others ho =>
    rw [List.append_nil]
    exact ⟨marks, h.attendance.of_signals ho.count, h.arrived,
      fun hi hr => (h.accountable hi hr).mono ho.halted ho.hasFailed⟩
  | step hi ha =>
    cases ha with
    | @call p q f hp hv hcalling =>
      cases hp
      cases hcalling
      exact ⟨marks, h.called hi (not_announces_of_ask hv)⟩
    | act hp hv =>
      cases hp
      have hv : (passes _).step _ _ _ = _ := hv
      exact h.moved (hc _) (hw _) hi (step_of_yields (by rw [hv]; exact ⟨rfl, rfl⟩))
    | reply hp hv hcalling hr =>
      cases hp
      have hv : (passes _).step _ _ _ = _ := hv
      exact h.moved (hc _) (hw _) hi (step_of_yields (by rw [hv]; exact ⟨rfl, _, hr, rfl⟩))

theorem exists_muster (hc : ∀ i, (passes i).iteration = c)
    (hw : ∀ i, (passes i).mode.hasWarmLoops = mode.hasWarmLoops)
    (h₀ : ∀ k : Checkpoint, k.count (m₀.signalsOf c) = 0)
    (hp : Path (company passes (Raised c)) (gather n (fun _ => .begin) m₀) l w) :
    ∃ marks, Muster mode c l w marks :=
  hp.induct (P := fun l w => ∃ marks, Muster mode c l w marks) ⟨_, .opening h₀⟩
    fun _ ⟨_, h⟩ hs => h.step hc hw hs

/-! ### What the counts say -/

/-- A pass that is neither gone nor has arrived is still to arrive. -/
def IsAwaited (k : Checkpoint) (l : List (Stride Point)) (w : Pool Point Report) (i : Nat) : Bool :=
  (w.outcome? i).isNone && !HasArrived k i l

/-- The counts say how many of `n` passes have arrived, and unless the iteration is halted all
others are still to arrive. -/
structure Mustered (k : Checkpoint) (c : Iteration) (n : Nat) (l : List (Stride Point))
    (w : Pool Point Report) :
    Prop where
  counted : k.count (w.memory.signalsOf c) = (List.range n).countP fun i => HasArrived k i l
  halted_of_gone : ∀ {i : Nat} {o : Outcome Report}, w.outcome? i = some o →
    HasArrived k i l = false → w.memory.Halted c
  balanced : w.memory.Halted c ∨
    k.count (w.memory.signalsOf c) + (List.range n).countP (IsAwaited k l w) = n

theorem Muster.countP_arrived (h : Muster mode c l w marks) (hk : k.isKept mode = true) :
    (marks.countP fun r => k.rank ≤ r) = (List.range w.strands.length).countP fun i =>
      HasArrived k i l := by
  have hlen : marks.length = w.strands.length := by
    rw [h.attendance.length, stands, List.length_map]
  have hmarks : marks = (List.range marks.length).map fun i => marks.getD i 0 := by
    refine List.ext_getElem (by simp) fun i hi _ => ?_
    simp [List.getElem?_eq_getElem hi]
  refine (congrArg (List.countP fun r => k.rank ≤ r) hmarks).trans ?_
  rw [← hlen, List.countP_map]
  refine List.countP_congr fun i hi => ?_
  have hr : marks[i]? = some (marks.getD i 0) := by
    simp [List.getElem?_eq_getElem (List.mem_range.mp hi)]
  simpa using (h.arrived hr hk).symm

/-- Whoever is gone without having arrived has halted the iteration, or found it halted. -/
theorem Muster.halted_of_gone (h : Muster mode c l w marks) (hk : k.isKept mode = true)
    {o : Outcome Report} (ho : w.outcome? i = some o) (hn : HasArrived k i l = false) :
    w.memory.Halted c := by
  obtain ⟨b, hi⟩ := outcome?_eq_some.mp ho
  have hi := getElem?_stands hi
  obtain ⟨r, hr, hp⟩ := h.attendance.mark hi
  have hlt : r < k.rank := by
    have := h.arrived hr hk
    simp only [hn, Bool.false_eq_true, false_iff] at this
    omega
  have hfour : k.rank ≤ 4 := by cases k <;> decide
  have ha := h.accountable hi hr
  cases o with
  | ok v =>
    have : r = 4 := hp
    omega
  | failed e | crashed text => exact ha (by omega)

/-- At every checkpoint that the passes keep, nobody is silently missing: as many are counted as
have arrived, and all others are still to arrive, unless the iteration is halted. -/
theorem nobody_missing (hc : ∀ i, (passes i).iteration = c)
    (hw : ∀ i, (passes i).mode.hasWarmLoops = mode.hasWarmLoops)
    (h₀ : ∀ k : Checkpoint, k.count (m₀.signalsOf c) = 0)
    (hp : Path (company passes (Raised c)) (gather n (fun _ => .begin) m₀) l w)
    (hk : k.isKept mode = true) :
    Mustered k c n l w := by
  obtain ⟨marks, h⟩ := exists_muster hc hw h₀ hp
  have hlen : w.strands.length = n := hp.length.trans length_gather
  have hcount : k.count (w.memory.signalsOf c) = (List.range n).countP fun i =>
    HasArrived k i l := by
    rw [← hlen, h.attendance.counted k hk, h.countP_arrived hk]
  refine ⟨hcount, h.halted_of_gone hk, ?_⟩
  by_cases hh : w.memory.Halted c
  · exact .inl hh
  · have hawaited : (List.range n).countP (IsAwaited k l w) =
        (List.range n).countP fun i => !HasArrived k i l := by
      refine List.countP_congr fun i _ => ?_
      cases ho : w.outcome? i with
      | none => simp [IsAwaited, ho]
      | some o =>
        cases ha : HasArrived k i l with
        | true => simp [IsAwaited, ha]
        | false => exact absurd (h.halted_of_gone hk ho ha) hh
    have htotal := List.length_eq_countP_add_countP (fun i => HasArrived k i l) (l := List.range n)
    rw [List.length_range] at htotal
    refine .inr ?_
    rw [hcount, hawaited]
    simpa using htotal.symm

/-- Two passes on the duet's first iteration, the second in a subgroup that
nobody has a part for. -/
def mismatched (i : Nat) : Pass :=
  ⟨Execution.duet.iteration 0 0, Execution.duet.site,
    ⟨i, Execution.duet.trial.subgroups, i⟩, .throughput⟩

/-- The second pass gives up at once, while the first one waits for it. -/
theorem nobody_missing_mismatched :
    let path := (gather 2 (fun _ => .begin) {}).walk
      (company mismatched (Raised (Execution.duet.iteration 0 0)))
      (List.replicate 13 (0, 0, .returned 0) ++ List.replicate 3 (1, 0, .returned 0))
    Checkpoint.setUp.count (path.2.memory.signalsOf (Execution.duet.iteration 0 0)) = 1 ∧
      (List.range 2).countP (IsAwaited .setUp path.1 path.2) = 0 ∧
      path.2.memory.Halted (Execution.duet.iteration 0 0) ∧
      Mustered .setUp (Execution.duet.iteration 0 0) 2 path.1 path.2 := by
  intro path
  have hw : ∀ i, (mismatched i).mode.hasWarmLoops = Mode.throughput.hasWarmLoops := fun _ => rfl
  have h : Mustered .setUp (Execution.duet.iteration 0 0) 2 path.1 path.2 :=
    nobody_missing (fun _ => rfl) hw (fun k => by cases k <;> rfl) (path_walk ..) rfl
  have hgone : path.2.outcome? 1 = some (.failed (.subgroupWithoutRole 1)) := by decide +kernel
  exact ⟨by decide +kernel, by decide +kernel, h.halted_of_gone hgone (by decide +kernel), h⟩

end
end Pass
end LoadBench
