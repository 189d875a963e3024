import LoadBench.Proofs.Closing
import LoadBench.Proofs.Descent
import LoadBench.Proofs.Pool
import LoadBench.Proofs.Vacancy

/-!
# The end of an interrupted trial

Once everything is let go, whatever anybody does leads nearer to the end of the trial: the conductor
has only its releases before it, the members go down in rank as they leave the iteration, and so
does the caller after them. Once the caller is alone, it waits for nobody (`Execution.World.Alone`).
Only somebody in the section of the site makes others wait, and goes on itself. So the trial ends as
soon as everybody had a turn often enough (`Execution.World.Closing.ends`). Only this last part
depends on what leads down, and not on why (`Execution.Descent`).
-/

namespace LoadBench

variable {now : Nat} {m m' : Memory}

namespace Measurement
variable {s : Measurement} {p q : Point}

/-- How far a measured loop has to go once it is spoiled. -/
def Point.rank : Point → Nat
  | .work .. => 6
  | .endBatch _ => 5
  | .start | .checkDone _ => 4
  | .beginBatch _ => 3
  | .checkSpoiled .. => 2
  | .stop .. => 1
  | .widenMask .. => 0

theorem Point.rank_le (p : Point) : p.rank ≤ 6 := by cases p <;> simp [rank]

theorem Step.descends (h : s.Step m p m' (.point q))
    (hs : (m.signalsOf s.iteration).spoiled = true) :
    q.rank < p.rank := by
  cases h with
  | unspoiled hn => exact Bool.noConfusion (hs.symm.trans hn)
  | _ => simp [Point.rank]

theorem not_blocked : s.step now m p ≠ .blocked := by
  intro h
  cases p with
  | checkSpoiled | stop =>
    simp only [step] at h
    split at h <;> cases h
  | _ => cases h

end Measurement

namespace Pass
variable {a : Pass} {p q : Point} {r : Nat}

def Point.rank : Point → Nat
  | .warmupWork .. => 42
  | .warmupGate .. => 41
  | .noteStart .. => 40
  | .measure _ _ p => 33 + p.rank
  | .noteStop .. => 32
  | .enterWarmdown .. | .warmdownWork .. => 31
  | .warmdownGate .. => 30
  | .depart _ _ .announce => 29
  | .depart _ _ (.waiting p) => 24 + p.untilHalted
  | .checkInterrupted .. => 24
  | .checkFailed .. => 23
  | .force .. => 22
  | .tearDown _ _ p => 15 + p.rank Wait.Point.untilHalted
  | .enterRelease _ => 14
  | .release _ p => 2 + p.rank Wait.Point.untilHalted
  | .finish .. => 2
  | .fail .. | .condemn .. => 1
  | .begin | .reject | .acquire _ | .arrive .. | .setUp .. | .enterWarmup _ => 0

theorem Point.rank_le (p : Point) : p.rank ≤ 42 := by
  have ht (p : Turn.Point) : p.rank Wait.Point.untilHalted ≤ 6 :=
    p.rank_le Wait.Point.untilHalted_le
  cases p with
  | measure f ops p => exact Nat.le_trans (Nat.add_le_add_left p.rank_le 33) (by decide)
  | tearDown f t p => exact Nat.le_trans (Nat.add_le_add_left (ht p) 15) (by decide)
  | depart f t p =>
    cases p with
    | announce => simp [rank]
    | waiting p => exact Nat.le_trans (Nat.add_le_add_left p.untilHalted_le 24) (by decide)
  | release t p =>
    cases p with
    | cleaning f p =>
      have := ht p
      simp only [rank, Release.Point.rank]
      omega
    | clearing o p => cases p <;> simp [rank, Release.Point.rank, Clear.Point.rank]
    | look | checkFailed => simp [rank, Release.Point.rank]
  | _ => simp [rank]

theorem descends_onward {α : Type} {phase : Phase} {next : α → Point} {o : Outcome α} {n : Nat}
    (h : onward phase next o = .point q) (hn : ∀ v, (next v).rank < n) (h1 : 1 < n) :
    q.rank < n := by
  cases o with
  | ok v =>
    cases h
    exact hn v
  | failed e | crashed text =>
    cases h
    exact h1

/-- A pass goes down where its part does and where it goes on from the part. -/
theorem descends_andThen {σ α : Type} {v : Move Memory σ α} {embed : σ → Point}
    {next : Outcome α → Stand Point Report} {n : Nat}
    (h : (v.andThen embed next).Yields m m' (.point q)) (inside : ∀ u, v.Yields m m' (.point u) →
      (embed u).rank < n) (out : ∀ o, next o = .point q → q.rank < n) :
    q.rank < n := by
  obtain ⟨u, hu, hq⟩ := Move.yields_andThen.mp h
  cases u with
  | point u =>
    cases hq
    exact inside u hu
  | ended o => exact out o hq.symm

/-- What everybody finds once the conductor has let everything go. -/
structure Freed (s : Signals) : Prop where
  interrupted : s.interrupted = true
  warmup : s.warmupHeld = false
  spoiled : s.spoiled = true
  warmdown : s.warmdownHeld = false

theorem Freed.halts {w : Wait} {p q : Wait.Point} (hs : Freed (m.signalsOf a.iteration))
    (hw : w.iteration = a.iteration) (h : (w.step now m p).Yields m m' (.point q)) :
    q.untilHalted < p.untilHalted :=
  Wait.descends_of_interrupted (by rw [hw]; exact hs.interrupted) h

theorem descends_depart {f : Nat} {t : Tally} {p : Arrival.Point}
    (hs : Freed (m.signalsOf a.iteration))
    (h : (a.step now m (.depart f t p)).Yields m m' (.point q)) :
    q.rank < (Point.depart f t p).rank := by
  cases p with
  | announce =>
    cases h.2
    exact Nat.add_lt_add_left (Nat.lt_succ_self 4) 24
  | waiting p =>
    have hpos : 24 < 24 + p.untilHalted := by cases p <;> simp [Wait.Point.untilHalted]
    refine descends_andThen h (fun u hu => ?_) fun o ho => ?_
    · obtain ⟨v, hv, hq⟩ := Move.yields_andThen.mp hu
      cases v with
      | point v =>
        cases hq
        exact Nat.add_lt_add_left (hs.halts rfl hv) 24
      | ended o => cases hq
    · refine Nat.lt_of_le_of_lt ?_ hpos
      cases o with
      | ok _ | failed e | crashed text =>
        cases ho
        simp [Point.rank, Turn.Point.rank]

theorem descends_tearDown {f : Nat} {t : Tally} {p : Turn.Point}
    (hs : Freed (m.signalsOf a.iteration))
    (h : (a.step now m (.tearDown f t p)).Yields m m' (.point q)) :
    q.rank < (Point.tearDown f t p).rank := by
  have hle : 15 ≤ (Point.tearDown f t p).rank := Nat.le_add_right 15 _
  refine descends_andThen h (fun u hu => ?_) fun o ho => ?_
  · exact Nat.add_lt_add_left (Turn.descends Wait.Point.untilHalted_le
      (fun _ hw => hs.halts rfl hw) hu) 15
  · refine descends_onward ho (fun _ => Nat.lt_of_lt_of_le ?_ hle)
      (Nat.lt_of_lt_of_le (by decide) hle)
    unfold afterTearDown
    split <;> simp [Point.rank]

theorem descends_release {t : Tally} {p : Release.Point} (hs : Freed (m.signalsOf a.iteration))
    (h : (a.step now m (.release t p)).Yields m m' (.point q)) :
    q.rank < (Point.release t p).rank := by
  refine descends_andThen h (fun u hu => ?_) fun o ho => ?_
  · exact Nat.add_lt_add_left (Release.descends Wait.Point.untilHalted_le
      (fun _ hw => hs.halts rfl hw) hu) 2
  · have hpos : 0 < p.rank Wait.Point.untilHalted := by
      cases p with
      | cleaning f p => exact Nat.lt_of_lt_of_le (by decide) (Nat.le_add_right 4 _)
      | clearing o p => cases p <;> simp [Release.Point.rank, Clear.Point.rank]
      | look | checkFailed => simp [Release.Point.rank]
    exact descends_onward ho (fun _ => Nat.lt_add_of_pos_right hpos) (Nat.le_add_right 2 _)

/-- Every step of a pass that has entered its warmup loop leads down, once everything is let go. -/
theorem descends (hs : Freed (m.signalsOf a.iteration)) (hp : p.Passed r) (h2 : 2 ≤ r)
    (h : (a.step now m p).Yields m m' (.point q)) : q.rank < p.rank := by
  have early {n : Nat} (hr : r = n) (hn : n < 2) : q.rank < p.rank := by omega
  cases p with
  | begin | reject | acquire | setUp | enterWarmup => exact early hp (by decide)
  | arrive f p => cases p <;> exact early hp (by decide)
  | depart => exact descends_depart hs h
  | tearDown => exact descends_tearDown hs h
  | release => exact descends_release hs h
  | measure f ops p =>
    refine descends_andThen h (fun u hu => ?_) fun o ho => ?_
    · exact Nat.add_lt_add_left ((Measurement.step_of_yields hu).descends hs.spoiled) 33
    · exact descends_onward ho (fun _ => Nat.lt_of_lt_of_le (Nat.lt_succ_self 32)
        (Nat.le_add_right 33 _)) (Nat.lt_of_lt_of_le (by decide) (Nat.le_add_right 33 _))
  | noteStop f ops t =>
    cases h.2
    unfold afterMeasured
    split <;> simp [Point.rank]
  | warmupGate f ops =>
    have hstep := step_of_yields h
    cases hstep with
    | stayWarmup hg => exact Bool.noConfusion (hg.symm.trans hs.warmup)
    | leaveWarmup => exact Nat.lt_succ_self 40
  | warmdownGate f ops t =>
    have hstep := step_of_yields h
    cases hstep with
    | stayWarmdown hg => exact Bool.noConfusion (hg.symm.trans hs.warmdown)
    | leaveWarmdown => exact Nat.lt_succ_self 29
  | _ =>
    have hstep := step_of_yields h
    cases hstep <;> simp [Point.rank, Measurement.Point.rank, Turn.Point.rank, Release.Point.rank]

/-- A pass is blocked only before the section of a site that somebody else is in. -/
theorem of_blocked (h : a.step now m p = .blocked) : m.isEntered a.site = true ∧
    p.isInside = false := by
  cases p with
  | acquire p =>
    obtain ⟨rfl, he⟩ := Acquire.of_blocked (Move.blocked_of_andThen h)
    exact ⟨he, rfl⟩
  | release t p =>
    obtain ⟨⟨o, rfl⟩, he⟩ := Release.of_blocked (Move.blocked_of_andThen h)
    exact ⟨he, rfl⟩
  | arrive f p =>
    cases p with
    | announce => cases h
    | waiting p =>
      exact absurd (Move.blocked_of_andThen (Move.blocked_of_andThen h)) Wait.not_blocked
  | depart f t p =>
    cases p with
    | announce => cases h
    | waiting p =>
      exact absurd (Move.blocked_of_andThen (Move.blocked_of_andThen h)) Wait.not_blocked
  | setUp | tearDown => exact absurd (Move.blocked_of_andThen h) Turn.not_blocked
  | measure => exact absurd (Move.blocked_of_andThen h) Measurement.not_blocked
  | checkFailed | finish =>
    simp only [step] at h
    split at h <;> cases h
  | _ => cases h

end Pass

namespace Conductor
variable {c : Conductor} {p q : Point} {s : Signals}

/-- How far a conductor has to go once it has noted that time is over. -/
def Point.rank : Point → Nat
  | .interrupt => 4
  | .spoilWarmup => 3
  | .spoilWindow => 2
  | .spoil => 1
  | _ => 0

theorem Step.descends (h : c.Step m p m' (.point q)) (hl : Late s (.point p)) :
    q.rank < p.rank := by
  cases h with
  | interrupt | spoilWarmup | spoilWindow | spoil => simp [Point.rank]
  | _ => exact hl.elim

/-- A conductor waits, but never for the section of a site. -/
theorem not_blocked : c.step now m p ≠ .blocked := by
  intro h
  cases p with
  | gather p | drain d p => exact absurd (Move.blocked_of_andThen h) Wait.not_blocked
  | window stop =>
    cases stop with
    | none => cases h
    | some stop =>
      simp only [step] at h
      split at h <;> cases h
  | judge =>
    simp only [step] at h
    split at h <;> cases h
  | _ => cases h

theorem Late.freed {o : Outcome Unit} (hl : Late s (.ended o)) : Pass.Freed s :=
  ⟨hl.1, hl.2.1, hl.2.2.1, hl.2.2.2⟩

end Conductor

/-! ### Trials -/

theorem Strand.rank_pos {σ α : Type} {r : σ → Nat} {s : Strand σ α} (h : s.stand.hasEnded = false) :
    0 < s.rank r := by
  obtain ⟨p, hp⟩ := Stand.exists_point h
  have := s.calling.toNat_le
  simp only [rank, hp]
  omega

theorem Strand.rank_le {σ α : Type} {r : σ → Nat} {n : Nat} (hr : ∀ p, r p ≤ n) (s : Strand σ α) :
    s.rank r ≤ 2 * n + 2 := by
  unfold rank
  cases s.stand with
  | point p =>
    have := hr p
    change 2 * r p + 2 - _ ≤ _
    omega
  | ended o => exact Nat.zero_le _

theorem Pool.rank_le {σ α : Type} {r : σ → Nat} {n : Nat} (hr : ∀ p, r p ≤ n)
    (l : List (Strand σ α)) :
    Pool.rank r l ≤ (2 * n + 2) * l.length := by
  induction l with
  | nil => exact Nat.zero_le _
  | cons s rest ih =>
    rw [List.length_cons, Nat.mul_succ, Nat.add_comm]
    exact Nat.add_le_add (s.rank_le hr) ih

/-- How far a group has to go once its conductor has noted that time is over. As long as the
conductor has not let everything go, its members may go round. -/
def Group.rank (g : Group) : Nat :=
  if g.conductor.stand.hasEnded then Pool.rank Pass.Point.rank g.members
  else 86 * g.members.length + g.conductor.rank Conductor.Point.rank

namespace Group.Winding
variable {x : Execution} {index f i : Nat} {h : List Entry} {g : Group} {marks : List Nat}
  {es : List Event} {s s' : Strand Pass.Point Report}

/-- The members go round only as long as the conductor has not let everything go. -/
theorem member_descends (hw : g.Winding x index h m marks f) (hi : g.members[i]? = some s)
    (ha : s.Advanced ((x.pass g.iteration i).step now m) m m' es s') :
    { g with members := g.members.set i s' }.rank < g.rank ∨
      g.conductor.stand.hasEnded = false ∧
        { g with members := g.members.set i s' }.rank = g.rank := by
  have hlate := hw.late
  cases hc : g.conductor.stand with
  | point p =>
    right
    simp [rank, hc, Stand.hasEnded]
  | ended o =>
    rw [hc] at hlate
    have hlt :
        Pool.rank Pass.Point.rank (g.members.set i s') < Pool.rank Pass.Point.rank g.members := by
      refine Pool.rank_set_lt hi (ha.rank_lt ?_)
      intro p m' q hs hy
      obtain ⟨r, hr, hp⟩ := hw.agreed.1.attendance.mark (hs ▸ getElem?_stands hi)
      exact Pass.descends hlate.freed hp (hw.warm r (List.mem_of_getElem? hr)) hy
    left
    simpa [rank, hc, Stand.hasEnded] using hlt

theorem conductor_descends (hw : g.Winding x index h m marks f) {s' : Strand Conductor.Point Unit}
    (ha : g.conductor.Advanced ((x.conductor g.iteration).step now m) m m' es s') :
    { g with conductor := s' }.rank < g.rank := by
  have hlt : s'.rank Conductor.Point.rank < g.conductor.rank Conductor.Point.rank := by
    refine ha.rank_lt ?_
    intro p m' q hs hy
    exact (Conductor.step_of_yields hy).descends (hs ▸ hw.late)
  have hgoing : g.conductor.stand.hasEnded = false := by
    cases hc : g.conductor.stand with
    | point p => rfl
    | ended o =>
      unfold Strand.rank at hlt
      rw [hc] at hlt
      exact absurd hlt (Nat.not_lt_zero _)
  have hle : Pool.rank Pass.Point.rank g.members ≤ 86 * g.members.length :=
    Pool.rank_le Pass.Point.rank_le _
  simp only [rank, hgoing, Bool.false_eq_true, if_false]
  split <;> omega

end Group.Winding

/-- Among members that have not all ended somebody can go on: whoever is in the section of the site,
or anybody if nobody is. -/
theorem Group.Kept.exists_free {x : Execution} {g : Group} {f : Nat} (hK : g.Kept x m f)
    (hc : g.conductor.stand.hasEnded = true) (he : g.hasEnded = false) :
    ∃ (i : Nat) (p : Pass.Point), g.stands[i]? = some (.point p) ∧
      (m.isEntered x.site = true → p.isInside = true) := by
  by_cases hin : m.isEntered x.site = true
  · obtain ⟨t, ht, hholds⟩ := hK.entered hin
    obtain ⟨i, hi⟩ := List.mem_iff_getElem?.mp ht
    cases t with
    | point p => exact ⟨i, p, hi, fun _ => hholds⟩
    | ended o => cases hholds
  · unfold hasEnded at he
    rw [hc, Bool.true_and] at he
    obtain ⟨s, hs, hn⟩ := List.all_eq_false.mp he
    obtain ⟨i, hi⟩ := List.mem_iff_getElem?.mp hs
    obtain ⟨p, hp⟩ := Stand.exists_point (Bool.eq_false_iff.mpr hn)
    exact ⟨i, p, hp ▸ getElem?_stands hi, fun hin' => absurd hin' hin⟩

theorem Strand.Advanced.going {σ α : Type} {s s' : Strand σ α} {move : σ → Move Memory σ α}
    {m m' : Memory} {es : List Event} (h : s.Advanced move m m' es s') :
    s.stand.hasEnded = false := by
  cases h with
  | act hp | call hp | reply hp =>
    rw [hp]
    rfl

theorem Group.not_acted {x : Execution} {g g' : Group} {m m' : Memory} {who : Execution.Actor}
    {es : List Event} (he : g.hasEnded = true) : ¬ g.Acted x m who es m' g' := by
  obtain ⟨hc, hm⟩ := Bool.and_eq_true_iff.mp he
  intro h
  cases h with
  | member hi ha => exact Bool.noConfusion (ha.going.symm.trans
      (List.all_eq_true.mp hm _ (List.mem_of_getElem? hi)))
  | conductor ha => exact Bool.noConfusion (ha.going.symm.trans hc)

/-- A release that waits neither for another turn nor for the section of the site. -/
def Release.Alone (m : Memory) (site : Site) : Stand Release.Point Unit → Prop
  | .point (.cleaning _ (.queued _)) => False
  | .point (.clearing _ p) => Clear.Alone m site (.point p)
  | .point _ | .ended _ => True

namespace Release.Alone
variable {a : Release} {now : Nat}

theorem descends {p q : Release.Point} (h : Release.Alone m a.site (.point p))
    (hy : (a.step now m p).Yields m m' (.point q)) :
    q.rank Wait.Point.untilHalted < p.rank Wait.Point.untilHalted := by
  refine Release.descends Wait.Point.untilHalted_le ?_ hy
  rintro f p' q' rfl
  exact h.elim

/-- It has a step, whatever the hook replies. -/
theorem exists_advance {s : Strand Release.Point Unit} (h : Release.Alone m a.site s.stand)
    (he : s.stand.hasEnded = false) (now : Nat) (reply : Reply) :
    ∃ m' es s', s.advance (a.step now m) m reply = some (m', es, s') := by
  obtain ⟨p, hp⟩ := Stand.exists_point he
  rw [hp] at h
  refine Strand.exists_advance_of_admits m hp (fun hb => ?_) fun q k hask => ?_
  · obtain ⟨⟨o, rfl⟩, hentered⟩ := Release.of_blocked hb
    exact Bool.noConfusion (hentered.symm.trans h)
  · rcases Release.step_eq_ask hask with ⟨f, rfl, rfl, _⟩ | ⟨⟨f, p', rfl⟩, _⟩
    · trivial
    · exact h.elim

end Release.Alone

namespace Execution
variable {x : Execution} {index : Nat} {h : List Entry} {w w' : World} {who : Actor}
  {es : List Event}

def World.rank (w : World) : Nat :=
  match w.point with
  | .launch .. | .ended _ => 0
  | .running _ g => 35 + g.rank
  | .checkInterrupted .. => 34
  | .checkFailed .. => 33
  | .cleaning _ _ s => 8 + s.rank (Release.Point.rank Wait.Point.untilHalted)
  | .clearing _ s => s.rank Clear.Point.rank

def World.isConducted (w : World) : Bool :=
  match w.point with
  | .running _ g => !g.conductor.stand.hasEnded
  | _ => false

/-! ### The caller alone -/

/-- From here on the caller is alone, and waits for nobody. -/
def World.Alone (x : Execution) (w : World) : Prop :=
  match w.point with
  | .launch .. => False
  | .running _ g => g.hasEnded = true
  | .checkInterrupted .. | .checkFailed .. | .ended _ => True
  | .cleaning _ _ s => Release.Alone w.memory x.site s.stand ∧ s.stand.hasEnded = false
  | .clearing _ s => Clear.Alone w.memory x.site s.stand ∧ s.stand.hasEnded = false

namespace World.Alone

/-- Every step leads down. -/
theorem descends (hw : w.Alone x) (hc : Changed x w who es w') : w'.rank < w.rank := by
  unfold World.Alone at hw
  cases hc with
  | launch hp =>
    rw [hp] at hw
    exact hw.elim
  | member hp hi ha =>
    rw [hp] at hw
    exact absurd (.member hi ha) (Group.not_acted hw)
  | conductor hp ha =>
    rw [hp] at hw
    exact absurd (.conductor ha) (Group.not_acted hw)
  | @settle index g hp he =>
    have hs := x.settled w index g
    generalize x.settle w index g = w' at hs
    cases hs <;> simp [World.rank, hp, clearSite, Strand.rank, Clear.Point.rank] <;> omega
  | checkInterrupted hp | clean hp hf => simp [World.rank, hp, Strand.rank, Release.Point.rank]
  | abandon hp hf => simp [World.rank, hp, clearSite, Strand.rank, Clear.Point.rank]
  | cleaning hp ha hs =>
    rw [hp] at hw
    simp only [World.rank, hp]
    exact Nat.add_lt_add_left
      (ha.rank_lt fun p m' q hs hy => (hs ▸ hw.1 : Release.Alone ..).descends hy) 8
  | cleaned hp ha hs hr =>
    rw [hp] at hw
    simp only [World.rank, hp]
    exact Nat.lt_add_of_pos_right (Strand.rank_pos hw.2)
  | cleanupCrashed hp ha hs =>
    simp only [World.rank, hp]
    omega
  | @clearing r s s' m es hp ha =>
    have hlt : s'.rank Clear.Point.rank < s.rank Clear.Point.rank :=
      ha.rank_lt fun p m' q hs hy => (Clear.step_of_yields hy).descends
    simp only [World.rank, hp]
    cases hs : s'.stand with
    | point p => exact hlt
    | ended o => exact Nat.lt_of_le_of_lt (Nat.zero_le _) hlt

/-- As long as the trial has not ended, the caller has a step, whatever a call replies. -/
theorem able (hw : w.Alone x) (ho : w.outcome? = none) (now : Nat) (reply : Reply) :
    ∃ w' es, x.advance .caller now reply w = some (w', es) := by
  unfold World.Alone at hw
  cases hp : w.point with
  | launch =>
    rw [hp] at hw
    exact hw.elim
  | running index g =>
    rw [hp] at hw
    have he : g.hasEnded = true := hw
    exact ⟨_, _, by simp only [advance, advanceCaller, hp, he, if_true]; rfl⟩
  | checkInterrupted c e => exact ⟨_, _, by simp only [advance, advanceCaller, hp]; rfl⟩
  | checkFailed c e =>
    simp only [advance, advanceCaller, hp]
    split
    · exact ⟨_, _, rfl⟩
    · exact ⟨_, _, rfl⟩
  | cleaning c e s =>
    rw [hp] at hw
    obtain ⟨m', es, s', ha⟩ := Release.Alone.exists_advance (a := x.giveBack c) hw.1 hw.2 now reply
    simp only [advance, advanceCaller, hp, ha]
    split <;> exact ⟨_, _, rfl⟩
  | clearing r s =>
    rw [hp] at hw
    obtain ⟨halone, hended⟩ := hw
    obtain ⟨p, hs⟩ := Stand.exists_point hended
    have hmove : (Clear.mk x.site).step w.memory p ≠ .blocked := by
      intro hb
      obtain ⟨rfl, he⟩ := Clear.of_blocked hb
      rw [hs] at halone
      exact Bool.noConfusion (he.symm.trans halone)
    obtain ⟨m', es, s', ha⟩ := Strand.exists_advance_of_admits w.memory hs hmove (r := reply)
      fun q k hask => absurd hask (Clear.step_ne_ask _ _)
    exact ⟨_, _, by simp only [advance, advanceCaller, hp, ha]; rfl⟩
  | ended r =>
    unfold World.outcome? at ho
    rw [hp] at ho
    cases ho

theorem ended (hw : w.Alone x) (h0 : w.rank = 0) : ∃ r, w.outcome? = some r := by
  unfold World.Alone at hw
  unfold World.rank at h0
  unfold World.outcome?
  cases hp : w.point with
  | launch =>
    rw [hp] at hw
    exact hw.elim
  | ended r => exact ⟨r, rfl⟩
  | clearing r s =>
    rw [hp] at hw h0
    exact absurd h0 (Nat.ne_of_gt (Strand.rank_pos hw.2))
  | running | cleaning =>
    rw [hp] at h0
    simp only at h0
    omega
  | checkInterrupted | checkFailed =>
    rw [hp] at h0
    cases h0

end World.Alone

theorem World.rank_of_outcome? {r : Outcome Summary} (ho : w.outcome? = some r) : w.rank = 0 := by
  unfold World.rank
  rw [World.point_of_outcome? ho]

/-! ### The way down -/

theorem Releasing.alone {m : Memory} {b : Bool} {t : Stand Release.Point Unit}
    (hr : x.Releasing index h m b t) :
    Release.Alone m x.site t := by
  cases t with
  | ended o => trivial
  | point p =>
    cases p with
    | look | checkFailed => trivial
    | cleaning f p =>
      cases p with
      | queued q => exact hr.2.elim
      | _ => trivial
    | clearing o p => exact hr.2.1

/-- The caller is alone, unless somebody of the group has not ended yet. -/
theorem World.Closing.alone_or_running (hw : w.Closing x index h) :
    w.Alone x ∨
      ∃ g marks f, w.point = .running index g ∧ g.hasEnded = false ∧
        g.Winding x index h w.memory marks f := by
  unfold World.Closing at hw
  unfold World.Alone
  cases hp : w.point with
  | launch =>
    rw [hp] at hw
    exact hw.elim
  | running j g =>
    rw [hp] at hw
    obtain ⟨rfl, marks, f, hg⟩ := hw
    cases he : g.hasEnded with
    | true => exact .inl he
    | false => exact .inr ⟨g, marks, f, rfl, he, hg⟩
  | checkInterrupted | checkFailed | ended => exact .inl trivial
  | cleaning c e s =>
    rw [hp] at hw
    obtain ⟨_, _, _, _, hr, hended⟩ := hw
    exact .inl ⟨hr.alone, hended⟩
  | clearing r s =>
    rw [hp] at hw
    obtain ⟨_, _, _, _, halone, hended⟩ := hw
    exact .inl ⟨halone, hended⟩

/-- Every step leads down, but for those of members who do not know yet that it is over. -/
theorem World.Closing.descends (hw : w.Closing x index h) (hc : Changed x w who es w') :
    w'.rank < w.rank ∨
      who ≠ .conductor ∧ w.isConducted = true ∧ w'.isConducted = true ∧ w'.rank = w.rank := by
  rcases hw.alone_or_running with halone | ⟨g, marks, f, hp, he, hg⟩
  · exact .inl (halone.descends hc)
  cases hc with
  | member hp' hi ha =>
    cases hp.symm.trans hp'
    rcases hg.member_descends hi ha with hlt | ⟨hcond, heq⟩
    · left
      simpa [World.rank, hp] using hlt
    · right
      refine ⟨Actor.noConfusion, ?_, ?_, ?_⟩ <;> simp [isConducted, World.rank, hp, hcond, heq]
  | conductor hp' ha =>
    cases hp.symm.trans hp'
    left
    simpa [World.rank, hp] using hg.conductor_descends ha
  | settle hp' he' =>
    cases hp.symm.trans hp'
    exact Bool.noConfusion (he.symm.trans he')
  | launch hp' | checkInterrupted hp' | abandon hp' | clean hp' | cleaning hp' | cleaned hp'
  | cleanupCrashed hp' | clearing hp' => cases hp.symm.trans hp'

/-- Somebody who has a step whenever the clock is read and whatever a call returns. -/
def World.Able (x : Execution) (w : World) (who : Actor) : Prop :=
  ∀ now v, ∃ w' es, x.advance who now (.returned v) w = some (w', es)

def Actor.Of (x : Execution) : Actor → Prop
  | .caller | .conductor => True
  | .member i => i < x.threads

theorem World.conductor_able (hc : w.isConducted = true) : w.Able x .conductor := by
  intro now v
  unfold isConducted at hc
  split at hc
  · rename_i j g hp
    obtain ⟨p, hs⟩ := Stand.exists_point (Bool.not_eq_true' _ |>.mp hc)
    have hmove : (x.conductor g.iteration).step now w.memory p ≠ .blocked := Conductor.not_blocked
    obtain ⟨m', es, s', ha⟩ := Strand.exists_advance w.memory hs hmove v
    exact ⟨_, es, by simp only [advance, advanceConductor, hp, ha]; rfl⟩
  · cases hc

/-- A member that is not blocked has a step. -/
theorem World.member_able {g : Group} {i : Nat} {p : Pass.Point} (hp : w.point = .running index g)
    (hi : g.stands[i]? = some (.point p))
    (hmove : ∀ now, (x.pass g.iteration i).step now w.memory p ≠ .blocked) :
    w.Able x (.member i) := by
  intro now v
  obtain ⟨s, hs, hsp⟩ : ∃ s, g.members[i]? = some s ∧ s.stand = .point p := by
    simpa [Group.stands] using hi
  obtain ⟨m', es, s', ha⟩ := Strand.exists_advance w.memory hsp (hmove now) v
  exact ⟨_, es, by simp only [advance, advanceMember, hp, hs, ha]; rfl⟩

/-- Once the conductor has ended, some member has a step, whoever is in the
section of the site first. -/
theorem World.exists_member_able {g : Group} {f : Nat} (hp : w.point = .running index g)
    (hK : g.Kept x w.memory f) (hl : g.stands.length = x.threads)
    (hc : g.conductor.stand.hasEnded = true) (he : g.hasEnded = false) : ∃ who : Actor, who.Of x ∧
      w.Able x who := by
  obtain ⟨i, p, hi, hb⟩ := hK.exists_free hc he
  refine ⟨.member i, Nat.lt_of_lt_of_eq (List.getElem?_eq_some_iff.mp hi).1 hl,
    World.member_able hp hi ?_⟩
  intro now hblocked
  obtain ⟨hin, hn⟩ := Pass.of_blocked hblocked
  exact Bool.noConfusion (hn.symm.trans (hb hin))

/-- As long as the trial has not ended, somebody has a step: the conductor until it ends, then the
members, whoever is in the section of the site first, and in the end the caller. -/
theorem World.Closing.exists_able (hw : w.Closing x index h) (ho : w.outcome? = none) :
    ∃ who : Actor, who.Of x ∧ w.Able x who ∧ (w.isConducted = true → who = .conductor) := by
  by_cases hc : w.isConducted = true
  · exact ⟨.conductor, trivial, World.conductor_able hc, fun _ => rfl⟩
  refine (?_ : ∃ who : Actor, who.Of x ∧ w.Able x who).imp fun who hwho =>
    ⟨hwho.1, hwho.2, fun hc' => absurd hc' hc⟩
  rcases hw.alone_or_running with halone | ⟨g, marks, f, hp, he, hg⟩
  · exact ⟨.caller, trivial, fun now v => halone.able ho now (.returned v)⟩
  · exact exists_member_able hp hg.hale.kept hg.agreed.1.length
      (by simpa [isConducted, hp] using hc) he

/-! ### Rounds -/

/-- A step in which a call could return tells of no mishap. -/
theorem harmless_of_advance {now v : Nat} (ha : x.advance who now (.returned v) w = some (w', es)) :
    ∀ e ∈ es, e.isMishap = false := by
  cases who with
  | conductor =>
    simp only [advance, advanceConductor] at ha
    split at ha
    · split at ha
      · cases ha
      · rename_i hs
        cases ha
        exact Strand.harmless_of_advance hs
    · cases ha
  | member i =>
    simp only [advance, advanceMember] at ha
    split at ha
    · split at ha
      · cases ha
      · split at ha
        · cases ha
        · rename_i hs
          cases ha
          exact Strand.harmless_of_advance hs
    · cases ha
  | caller =>
    simp only [advance, advanceCaller] at ha
    split at ha
    · cases ha
      simp [Event.isMishap]
    · split at ha <;> cases ha
      simp
    · cases ha
      simp
    · split at ha <;> cases ha <;> simp [Event.isMishap]
    · split at ha
      · cases ha
      · rename_i hs
        have hh := Strand.harmless_of_advance hs
        have noted {e : Event} {n : Note} (he : e ∈ [Event.noted n]) : e.isMishap = false := by
          cases List.mem_singleton.mp he
          rfl
        split at ha <;> cases ha
        · exact hh
        · exact fun e he => (List.mem_append.mp he).elim (hh e) noted
        · exact fun e he => (List.mem_append.mp he).elim (hh e) noted
        · exact hh
    · split at ha
      · cases ha
      · rename_i hs
        cases ha
        exact Strand.harmless_of_advance hs
    · cases ha

/-- The caller, the conductor and every member of a trial are offered a step or more each, in any
order, and every call returns. -/
structure IsRound (x : Execution) (steps : List (Actor × Nat × Reply)) : Prop where
  returned : ∀ s ∈ steps, ∃ v, s.2.2 = .returned v
  complete : ∀ who : Actor, who.Of x → ∃ s ∈ steps, s.1 = who

theorem play_append (steps more : List (Actor × Nat × Reply)) (w : World) :
    (x.play (steps ++ more) w).2 = (x.play more (x.play steps w).2).2 := by
  induction steps generalizing w with
  | nil => rfl
  | cons s rest ih =>
    obtain ⟨who, now, reply⟩ := s
    cases ha : x.advance who now reply w with
    | none =>
      simp only [List.cons_append, play, ha]
      exact ih w
    | some r =>
      simp only [List.cons_append, play, ha]
      exact ih r.1

theorem play_append_fst (steps more : List (Actor × Nat × Reply)) (w : World) :
    (x.play (steps ++ more) w).1 = (x.play steps w).1 ++ (x.play more (x.play steps w).2).1 := by
  induction steps generalizing w with
  | nil => rfl
  | cons s rest ih =>
    obtain ⟨who, now, reply⟩ := s
    cases ha : x.advance who now reply w with
    | none =>
      simp only [List.cons_append, play, ha]
      exact ih w
    | some r =>
      simp only [List.cons_append, play, ha]
      rw [ih r.1, List.append_assoc]

/-- Everybody of a trial is offered a step in which a call would return, whatever
steps are offered besides. -/
def Serves (x : Execution) (steps : List (Actor × Nat × Reply)) : Prop :=
  ∀ who : Actor, who.Of x → ∃ s ∈ steps, s.1 = who ∧ ∃ v, s.2.2 = .returned v

theorem IsRound.serves {steps : List (Actor × Nat × Reply)} (h : x.IsRound steps) :
    x.Serves steps := by
  intro who hwho
  obtain ⟨s, hs, rfl⟩ := h.complete who hwho
  exact ⟨s, hs, rfl, h.returned s hs⟩

/-- Whatever is seen of the steps that are offered is harmless in some sense. -/
def Offers (x : Execution) (harmless : Event → Prop) (steps : List (Actor × Nat × Reply)) : Prop :=
  ∀ s ∈ steps, ∀ {w w' : World} {es : List Event}, x.advance s.1 s.2.1 s.2.2 w = some (w', es) →
    ∀ e ∈ es, harmless e

/-- A way down to the end of a trial. As long as the trial has not ended somebody takes the lead,
and has a step. A step leads down, or somebody else has taken it, nobody has come up by it, and the
lead has not changed. -/
structure Descent (x : Execution) (harmless : Event → Prop) (inv : List Entry → World → Prop)
    (rank : World → Nat) (leads : World → Actor → Prop) : Prop where
  step : ∀ {h w who es w'}, inv h w → Changed x w who es w' → (∀ e ∈ es, harmless e) →
    inv (h ++ es.map (w.entry who)) w'
  down : ∀ {h w who es w' lead}, inv h w → Changed x w who es w' → leads w lead →
    rank w' < rank w ∨ who ≠ lead ∧ rank w' = rank w ∧ leads w' lead
  able : ∀ {h w who}, inv h w → leads w who → w.Able x who
  exists_lead : ∀ {h w}, inv h w → w.outcome? = none → ∃ who : Actor, who.Of x ∧ leads w who

theorem Changed.going (hc : Changed x w who es w') : w.outcome? = none := by
  unfold World.outcome?
  cases hc with
  | launch hp | member hp | conductor hp | settle hp | checkInterrupted hp | abandon hp
  | clean hp | cleaning hp | cleaned hp | cleanupCrashed hp | clearing hp => rw [hp]

theorem play_of_ended {o : Outcome Summary} (ho : w.outcome? = some o)
    (steps : List (Actor × Nat × Reply)) :
    x.play steps w = ([], w) := by
  induction steps with
  | nil => rfl
  | cons s rest ih =>
    obtain ⟨who, now, reply⟩ := s
    unfold Execution.play
    split
    · exact ih
    · rename_i ha
      cases ho.symm.trans (changed_of_advance ha).going

namespace Descent
variable {harmless : Event → Prop} {inv : List Entry → World → Prop} {rank : World → Nat}
  {leads : World → Actor → Prop} {steps : List (Actor × Nat × Reply)}

theorem play (hd : x.Descent harmless inv rank leads) (hw : inv h w)
    (hs : x.Offers harmless steps) :
    inv (h ++ (x.play steps w).1) (x.play steps w).2 ∧ rank (x.play steps w).2 ≤ rank w := by
  induction steps generalizing h w with
  | nil =>
    unfold Execution.play
    exact ⟨(List.append_nil h).symm ▸ hw, Nat.le_refl _⟩
  | cons s rest ih =>
    obtain ⟨who, now, reply⟩ := s
    have hrest : x.Offers harmless rest := fun s hmem => hs s (List.mem_cons_of_mem _ hmem)
    unfold Execution.play
    split
    · exact ih hw hrest
    · rename_i w' es ha
      have hc := changed_of_advance ha
      obtain ⟨lead, _, hlead⟩ := hd.exists_lead hw hc.going
      obtain ⟨hw', hle⟩ := ih (hd.step hw hc (hs _ List.mem_cons_self ha)) hrest
      rw [List.append_assoc] at hw'
      refine ⟨hw', Nat.le_trans hle ?_⟩
      rcases hd.down hw hc hlead with hlt | ⟨_, heq, _⟩
      · exact Nat.le_of_lt hlt
      · exact Nat.le_of_eq heq

/-- The trial comes nearer to its end when whoever leads gets a turn. -/
theorem play_lt (hd : x.Descent harmless inv rank leads) (hw : inv h w)
    (hs : x.Offers harmless steps) {lead : Actor} (hlead : leads w lead)
    (hturn : ∃ s ∈ steps, s.1 = lead ∧ ∃ v, s.2.2 = .returned v) :
    rank (x.play steps w).2 < rank w := by
  induction steps generalizing h w with
  | nil =>
    obtain ⟨s, hmem, _⟩ := hturn
    cases hmem
  | cons s rest ih =>
    obtain ⟨who, now, reply⟩ := s
    have hrest : x.Offers harmless rest := fun s hmem => hs s (List.mem_cons_of_mem _ hmem)
    unfold Execution.play
    split
    · rename_i hnone
      refine ih hw hrest hlead ?_
      obtain ⟨s, hmem, hsw, v, hv⟩ := hturn
      rcases List.mem_cons.mp hmem with rfl | hmem
      · obtain ⟨w', es, hsome⟩ := hd.able hw hlead now v
        cases hsw
        cases hv
        cases hnone.symm.trans hsome
      · exact ⟨s, hmem, hsw, v, hv⟩
    · rename_i w' es ha
      have hc := changed_of_advance ha
      have hw' := hd.step hw hc (hs _ List.mem_cons_self ha)
      rcases hd.down hw hc hlead with hlt | ⟨hne, heq, hlead'⟩
      · exact Nat.lt_of_le_of_lt (hd.play hw' hrest).2 hlt
      · -- somebody else has taken a step, and the lead is still to come
        refine Nat.lt_of_lt_of_eq (ih hw' hrest hlead' ?_) heq
        obtain ⟨s, hmem, hsw, hv⟩ := hturn
        rcases List.mem_cons.mp hmem with rfl | hmem
        · exact absurd hsw hne
        · exact ⟨s, hmem, hsw, hv⟩

/-- The trial ends once everybody has been served often enough. -/
theorem ends (hd : x.Descent harmless inv rank leads) (hw : inv h w)
    {rounds : List (List (Actor × Nat × Reply))} (hn : rank w ≤ rounds.length)
    (hs : ∀ r ∈ rounds, x.Offers harmless r) (hr : ∀ r ∈ rounds, x.Serves r) :
    inv (h ++ (x.play rounds.flatten w).1) (x.play rounds.flatten w).2 ∧
      ∃ r, (x.play rounds.flatten w).2.outcome? = some r := by
  induction rounds generalizing h w with
  | nil =>
    rw [List.flatten_nil, Execution.play]
    refine ⟨(List.append_nil h).symm ▸ hw, ?_⟩
    cases ho : w.outcome? with
    | some r => exact ⟨r, rfl⟩
    | none =>
      -- whoever leads would lead below nothing
      obtain ⟨lead, _, hlead⟩ := hd.exists_lead hw ho
      obtain ⟨w', es, ha⟩ := hd.able hw hlead 0 0
      rcases hd.down hw (changed_of_advance ha) hlead with hlt | ⟨hne, _⟩
      · exact absurd (Nat.lt_of_lt_of_le hlt hn) (Nat.not_lt_zero _)
      · exact absurd rfl hne
  | cons r rest ih =>
    cases ho : w.outcome? with
    | some o =>
      rw [play_of_ended ho]
      exact ⟨(List.append_nil h).symm ▸ hw, o, ho⟩
    | none =>
      have hoffers := hs r List.mem_cons_self
      obtain ⟨lead, hof, hlead⟩ := hd.exists_lead hw ho
      have hlt := hd.play_lt hw hoffers hlead (hr r List.mem_cons_self lead hof)
      have hle : rank (x.play r w).2 ≤ rest.length := Nat.le_of_lt_succ (Nat.lt_of_lt_of_le hlt hn)
      rw [List.flatten_cons, play_append, play_append_fst, ← List.append_assoc]
      exact ih (hd.play hw hoffers).1 hle (fun r' hmem => hs r' (List.mem_cons_of_mem _ hmem))
        fun r' hmem => hr r' (List.mem_cons_of_mem _ hmem)

end Descent

namespace World.Closing

/-- After an iteration has run out of time, the conductor leads until it has ended, and then
anybody who has a step. -/
theorem descent (x : Execution) (index : Nat) :
    x.Descent (fun e => e.isMishap = false) (fun h w => w.Closing x index h) World.rank
    fun w who => w.Able x who ∧ (w.isConducted = true → who = .conductor) where
  step hw hc he := (hw.step hc he).2
  down := by
    intro h w who es w' lead hw hc hlead
    rcases hw.descends hc with hlt | ⟨hne, hcond, hcond', heq⟩
    · exact .inl hlt
    · cases hlead.2 hcond
      exact .inr ⟨hne, heq, World.conductor_able hcond', fun _ => rfl⟩
  able _ hlead := hlead.1
  exists_lead hw ho := hw.exists_able ho

theorem ends (hw : w.Closing x index h) {rounds : List (List (Actor × Nat × Reply))}
    (hn : w.rank ≤ rounds.length) (hr : ∀ r ∈ rounds, x.IsRound r) :
    (x.play rounds.flatten w).2.outcome? = some (.failed .interrupted) := by
  have hoffers (r : List (Actor × Nat × Reply)) (hmem : r ∈ rounds) :
      x.Offers (fun e => e.isMishap = false) r := by
    rintro ⟨who, now, reply⟩ hs w w' es ha
    obtain ⟨v, rfl⟩ := (hr r hmem).returned _ hs
    exact harmless_of_advance ha
  obtain ⟨hw', o, ho⟩ := (descent x index).ends hw hn hoffers fun r hmem => (hr r hmem).serves
  unfold World.Closing at hw'
  rw [World.point_of_outcome? ho] at hw'
  rw [ho, hw'.1]

theorem clear (hw : w.Closing x index h) : w.memory.failing.get x.flag = false := by
  unfold World.Closing at hw
  cases hp : w.point with
  | launch =>
    rw [hp] at hw
    exact hw.elim
  | running j g =>
    rw [hp] at hw
    obtain ⟨_, marks, f, hg⟩ := hw
    have hclear := hg.clear
    rw [hg.agreed.1.iteration] at hclear
    exact hclear
  | checkInterrupted c e =>
    rw [hp] at hw
    exact hw.2.2.clear
  | checkFailed c e =>
    rw [hp] at hw
    exact hw.2.2.clear
  | cleaning | clearing =>
    rw [hp] at hw
    exact hw.2.2.2.1
  | ended =>
    rw [hp] at hw
    exact hw.2.2.2

end World.Closing

/-- A hook that has returned and is called no more than once is called once, by
whoever it returned to. -/
theorem tally_of_returned {s : Stage} {i : Option Nat} (hr : Returned h i s) (ha : Answered h)
    (ho : OnceEach [] h) :
    Hook.tally (.stage s) h i = 1 ∧ Made h (.stage s) i := by
  obtain ⟨e, he, rfl, q, v, hev, hk⟩ := hr
  have hm := ha e he q _ _ hev hk
  have hle : Hook.tally (.stage s) ([] ++ h) e.iteration ≤ 1 := ho.tally_le (Nat.zero_le 1)
  exact ⟨Nat.le_antisymm hle (Hook.tally_pos.mpr hm.began), hm⟩

/-- A healthy trial one of whose iterations runs out of time is wound down completely. The trial is
not marked failing and nobody has a result of that iteration; if the trial ends, it was interrupted,
and the teardown of the iteration and the cleanup of the fixture have both been called once and have
returned, the cleanup to a member of the iteration if it was the last, and to the caller otherwise.
And the trial does end, in whatever order everybody takes their turns. -/
theorem Run.wound_down {m : Memory} (hr : x.Run m h w) (hf : m.failing.get x.flag = false)
    (hm : m.Rested x.site) (hh : ∀ e ∈ h, e.event.isMishap = false) {e : Entry} (he : e ∈ h)
    (hwho : e.who = .conductor) (ht : e.event.isTimeOut = true) (hi : e.iteration = some index) :
    w.memory.failing.get x.flag = false ∧
      (∀ i g, w.point = .running i g → i = index ∧ ∀ o ∈ g.outcomes, o.isOk = false) ∧
      (∀ r, w.outcome? = some r → r = .failed .interrupted ∧
        (Hook.tally (.stage ⟨.iteration, .tearDown⟩) h (some index) = 1 ∧
          Returned h (some index) ⟨.iteration, .tearDown⟩) ∧
        (Hook.tally (.stage ⟨.trial, .tearDown⟩) h (x.cleanupAt index) = 1 ∧
          Made h (.stage ⟨.trial, .tearDown⟩) (x.cleanupAt index) ∧
          Returned h (x.cleanupAt index) ⟨.trial, .tearDown⟩)) ∧
      ∃ n, ∀ rounds : List (List (Actor × Nat × Reply)), n ≤ rounds.length →
        (∀ r ∈ rounds, x.IsRound r) →
        (x.play rounds.flatten w).2.outcome? = some (.failed .interrupted) := by
  obtain ⟨index', hi', honce, hw⟩ := hr.closing hf hm hh he hwho ht
  cases hi.symm.trans hi'
  refine ⟨hw.clear, ?_, ?_, w.rank, fun rounds hn hround => hw.ends hn hround⟩
  · intro i g hp
    unfold World.Closing at hw
    rw [hp] at hw
    obtain ⟨rfl, marks, f, hg⟩ := hw
    exact ⟨rfl, fun o ho => hg.no_result ho⟩
  · intro r hout
    unfold World.Closing at hw
    rw [World.point_of_outcome? hout] at hw
    obtain ⟨rfl, htorn, hcleaned, _⟩ := hw
    obtain ⟨hteardown, _⟩ := tally_of_returned htorn hr.answered honce
    obtain ⟨hcleanup, hmade⟩ := tally_of_returned hcleaned hr.answered honce
    exact ⟨rfl, ⟨hteardown, htorn⟩, hcleanup, hmade, hcleaned⟩

/-- The thread comes to its warmup loop, the conductor interrupts it there, and
both go on to their ends. -/
def overtime : List (Actor × Nat × Reply) :=
  [(.caller, 0, .returned 0)] ++ List.replicate 40 (.member 0, 0, .returned 0) ++
    List.replicate 40 (.conductor, 0, .returned 0) ++
      List.replicate 80 (.member 0, 0, .returned 0) ++ List.replicate 40 (.caller, 0, .returned 0)

/-- The first of two iterations runs out of time, and the caller cleans up. -/
theorem wound_down_solo :
    (∃ e ∈ (solo.play overtime (solo.start {})).1, e.who = .conductor ∧ e.event.isTimeOut = true ∧
        e.iteration = some 0) ∧
      (solo.play overtime (solo.start {})).2.outcome? = some (.failed .interrupted) ∧
      Hook.tally (.stage ⟨.iteration, .tearDown⟩) (solo.play overtime (solo.start {})).1
        (some 0) = 1 ∧
      Made (solo.play overtime (solo.start {})).1 (.stage ⟨.trial, .tearDown⟩) none := by
  have hr := run_play solo {} overtime
  have hh :
      (solo.play overtime (solo.start {})).1.all (fun e => e.event.isMishap = false) = true := by
    decide +kernel
  have ht : (solo.play overtime (solo.start {})).1.any
      (fun e => e.who = .conductor ∧ e.event.isTimeOut = true ∧ e.iteration = some 0) = true := by
        decide +kernel
  have hend : (solo.play overtime (solo.start {})).2.outcome?.isSome = true := by decide +kernel
  obtain ⟨e, he, hte⟩ := List.any_eq_true.mp ht
  obtain ⟨hwho, hte, hi⟩ := of_decide_eq_true hte
  obtain ⟨r, hout⟩ := Option.isSome_iff_exists.mp hend
  obtain ⟨_, _, hdone, _⟩ := hr.wound_down rfl (.of_vacant rfl rfl)
    (fun e he => of_decide_eq_true (List.all_eq_true.mp hh e he)) he hwho hte hi
  obtain ⟨rfl, ⟨htear, _⟩, _, hmade, _⟩ := hdone r hout
  exact ⟨⟨e, he, hwho, hte, hi⟩, hout, htear, hmade⟩

end Execution
end LoadBench
