import LoadBench.Proofs.Judging

/-!
# Several subgroups

Consecutive threads form a subgroup, and only the first subgroup has a role. Where there are
several, its members get their fixture and come as far as the first rendezvous, which nobody passes:
the members of the other subgroups do not get there, so the arrivals never become complete
(`Group.Barred.short`). So everybody is turned away (`Pass.Barred`). The first member of the second
subgroup has a failure of its own to report, and in the order of the members nothing but a mishap of
the construction can stand before it (`Execution.World.Barred`).
-/

namespace LoadBench

/-! ### Who sits where -/

/-- Stretches of `k` numbers each have the same quotient. -/
theorem map_div_range (n : Nat) {k : Nat} (hk : 0 < k) :
    (List.range (n * k)).map (fun i => i / k) = (List.range n).flatMap fun j =>
      List.replicate k j := by
  induction n with
  | zero => simp
  | succ n ih =>
    have hlast : (List.range k).map (fun i => (n * k + i) / k) = List.replicate k n := by
      rw [List.eq_replicate_iff]
      refine ⟨by simp, fun j hj => ?_⟩
      obtain ⟨i, hi, rfl⟩ := List.mem_map.mp hj
      rw [Nat.mul_comm, Nat.mul_add_div hk, Nat.div_eq_of_lt (List.mem_range.mp hi), Nat.add_zero]
    rw [Nat.succ_mul, List.range_add, List.map_append, ih, List.map_map, List.range_succ,
      List.flatMap_append]
    exact congrArg _ (hlast.trans (List.append_nil _).symm)

namespace Execution
variable {x : Execution}

def share (x : Execution) : Nat := x.threads.val / x.trial.subgroups.val

/-- There are several subgroups, all of the same size. -/
structure Divided (x : Execution) : Prop where
  several : 2 ≤ x.trial.subgroups.val
  even : ¬ x.Uneven

namespace Divided

theorem threads_eq (hx : x.Divided) : x.trial.subgroups.val * x.share = x.threads.val :=
  Nat.mul_div_cancel' (Nat.dvd_of_mod_eq_zero (Decidable.not_not.mp hx.even))

theorem share_pos (hx : x.Divided) : 0 < x.share := by
  have hpos := x.threads.pos
  rw [← hx.threads_eq] at hpos
  exact Nat.pos_of_mul_pos_left hpos

theorem share_lt (hx : x.Divided) : x.share < x.threads.val := by
  have hle := Nat.mul_le_mul_right x.share hx.several
  have hpos := hx.share_pos
  rw [hx.threads_eq] at hle
  omega

theorem seats (hx : x.Divided) : ((List.range x.threads).map fun i => (x.seat i).subgroup) =
    (List.range x.trial.subgroups).flatMap fun j => List.replicate x.share j := by
  rw [← hx.threads_eq]
  exact map_div_range _ hx.share_pos

theorem seat_share (hx : x.Divided) : (x.seat x.share).subgroup = 1 := Nat.div_self hx.share_pos

/-- Before the first member without a role there are only members that have one. -/
theorem seat_of_lt {i : Nat} (hi : i < x.share) : (x.seat i).subgroup = 0 := Nat.div_eq_of_lt hi

end Divided
end Execution

/-! ### Who is turned away -/

/-- What a mishap of the construction comes to. -/
def Site.verdict {α : Type} (site : Site) : Mishap → Outcome α
  | .refused problem => .failed (.setUp site.name ⟨.trial, .setUp⟩ problem)
  | .crashed text => .crashed text

/-- The calls by which a fixture is made. -/
def Request.Makes : Request → Prop
  | .construct .. => True
  | .stage _ _ s => s = ⟨.trial, .setUp⟩
  | .work | .sleep _ => False

def Told (h : List Entry) (y : Mishap) : Prop :=
  ∃ e ∈ h, ∃ q : Request, q.Makes ∧ e.event = .answered q y.reply

theorem Told.append {h : List Entry} {y : Mishap} (ht : Told h y) (more : List Entry) :
    Told (h ++ more) y := by
  obtain ⟨e, he, hq⟩ := ht
  exact ⟨e, List.mem_append_left _ he, hq⟩

section
variable {α β : Type} {site : Site} {y : Mishap} {e : Failure} {text : String}

theorem Acquire.verdict_eq (a : Acquire) (y : Mishap) : a.verdict y = a.site.verdict y := by
  cases y <;> rfl

theorem Site.isOk_verdict (site : Site) (y : Mishap) :
    (site.verdict y : Outcome α).isOk = false := by
  cases y <;> rfl

theorem Site.verdict_failed (h : (site.verdict y : Outcome α) = .failed e) :
    (site.verdict y : Outcome β) = .failed e := by
  cases y with
  | refused problem =>
    cases h
    rfl
  | crashed text => cases h

theorem Site.verdict_crashed (h : (site.verdict y : Outcome α) = .crashed text) :
    (site.verdict y : Outcome β) = .crashed text := by
  cases y with
  | refused problem => cases h
  | crashed text =>
    cases h
    rfl

end

/-- How a member of a subgroup ends that is turned away, if these mishaps of the
construction were told of. -/
inductive TurnedAway {α : Type} (site : Site) (told : Mishap → Prop) (subgroup : Nat)
    (o : Outcome α) : Prop
  | aborted (hs : subgroup = 0) (ho : o = .failed .aborted)
  | denied {y : Mishap} (hs : subgroup = 0) (hy : told y) (ho : o = site.verdict y)
  | misplaced (hs : subgroup ≠ 0) (ho : o = .failed (.subgroupWithoutRole subgroup))

namespace TurnedAway
variable {α β : Type} {site : Site} {told told' : Mishap → Prop} {k : Nat}
  {o : Outcome α} {e : Failure}

theorem mono (h : TurnedAway site told k o) (ht : ∀ y, told y → told' y) :
    TurnedAway site told' k o := by
  cases h with
  | aborted hs ho => exact .aborted hs ho
  | denied hs hy ho => exact .denied hs (ht _ hy) ho
  | misplaced hs ho => exact .misplaced hs ho

theorem isOk (h : TurnedAway site told k o) : o.isOk = false := by
  cases h with
  | aborted hs ho | misplaced hs ho => rw [ho]; rfl
  | denied hs hy ho => rw [ho, Site.isOk_verdict]

theorem failed (h : TurnedAway site told k (.failed e : Outcome α)) :
    TurnedAway site told k (.failed e : Outcome β) := by
  cases h with
  | aborted hs ho =>
    cases ho
    exact .aborted hs rfl
  | denied hs hy ho => exact .denied hs hy (Site.verdict_failed ho.symm).symm
  | misplaced hs ho =>
    cases ho
    exact .misplaced hs rfl

theorem crashed {text : String} (h : TurnedAway site told k (.crashed text : Outcome α)) :
    ∃ y, told y ∧ (site.verdict y : Outcome β) = .crashed text := by
  cases h with
  | aborted hs ho | misplaced hs ho => cases ho
  | denied hs hy ho => exact ⟨_, hy, Site.verdict_crashed ho.symm⟩

end TurnedAway

/-- What is certain of somebody who is getting a fixture. -/
def Acquire.Barred (site : Site) (told : Mishap → Prop) : Stand Acquire.Point Nat → Prop
  | .point (.condemn y) => told y
  | .point (.leave r) | .ended r => r.isOk = true ∨ TurnedAway site told 0 r
  | .point _ => True

namespace Pass

/-- Where a member of a subgroup can stand if nobody passes the first rendezvous. -/
def Barred (site : Site) (told : Mishap → Prop) (subgroup : Nat) : Stand Point Report → Prop
  | .point .begin => True
  | .point .reject => subgroup ≠ 0
  | .point (.acquire p) => subgroup = 0 ∧ Acquire.Barred site told (.point p)
  | .point (.arrive ..) => subgroup = 0
  | .point (.fail _ e) => TurnedAway site told subgroup (.failed e : Outcome Report)
  | .point (.condemn _ text) => TurnedAway site told subgroup (.crashed text : Outcome Report)
  | .point _ => False
  | .ended o => TurnedAway site told subgroup o

end Pass

section
variable {m m' : Memory} {site : Site} {told told' : Mishap → Prop} {k : Nat}

theorem Acquire.Barred.mono {t : Stand Acquire.Point Nat} (h : Acquire.Barred site told t)
    (ht : ∀ y, told y → told' y) : Acquire.Barred site told' t := by
  cases t with
  | ended r => exact h.imp_right fun ha => ha.mono ht
  | point p =>
    cases p with
    | condemn y => exact ht y h
    | leave r => exact h.imp_right fun ha => ha.mono ht
    | _ => trivial

theorem Acquire.Step.barred {a : Acquire} {p : Acquire.Point} {t : Stand Acquire.Point Nat}
    (h : a.Step m p m' t) (h₁ : p ≠ .construct) (h₂ : ∀ value, p ≠ .setUp value)
    (hp : Acquire.Barred a.site told (.point p)) :
    Acquire.Barred a.site told t := by
  cases h with
  | constructed | mishap => exact absurd rfl h₁
  | setUp | setUpMishap => exact absurd rfl (h₂ _)
  | found | foundLate | publish => exact .inl rfl
  | abort => exact .inr (.aborted rfl rfl)
  | condemn => exact .inr (.denied rfl hp (a.verdict_eq _))
  | leave => exact hp
  | _ => trivial

end

namespace Pass
variable {a : Pass} {m m' : Memory} {p : Point} {t : Stand Point Report} {site : Site}
  {told told' : Mishap → Prop} {k : Nat}

theorem Barred.mono (h : Barred site told k t) (ht : ∀ y, told y → told' y) :
    Barred site told' k t := by
  cases t with
  | ended o => exact TurnedAway.mono h ht
  | point p =>
    cases p with
    | acquire p => exact h.imp_right fun ha => ha.mono ht
    | fail phase e | condemn phase text => exact TurnedAway.mono h ht
    | _ => exact h

/-- Without a call, and as long as somebody is missing at the first rendezvous, a member
goes on to be barred. -/
theorem Step.barred (h : a.Step m p m' t) (hc : a.call? m p = none)
    (hn : (m.signalsOf a.iteration).setUpArrivals < a.iteration.threads)
    (hp : Barred a.site told a.seat.subgroup (.point p)) :
    Barred a.site told a.seat.subgroup t := by
  cases h with
  | enrol hs => exact ⟨hs, trivial⟩
  | misplaced hs => exact hs
  | reject => exact .misplaced hp rfl
  | acquire h =>
    exact ⟨hp.1, h.barred (by rintro rfl; cases hc) (by rintro value rfl; cases hc) hp.2⟩
  | @acquired p _ r h =>
    obtain ⟨hs, hp⟩ := hp
    have hr : r.isOk = true ∨ TurnedAway a.site told 0 r :=
      h.barred (by rintro rfl; cases hc) (by rintro value rfl; cases hc) hp
    cases r with
    | ok f => exact hs
    | failed e => exact hs.symm ▸ (hr.resolve_left nofun).failed
    | crashed text =>
      obtain ⟨y, hy, hv⟩ := (hr.resolve_left nofun).crashed (β := Report)
      exact .denied hs hy hv.symm
  | arrive h => exact hp
  | arrived h =>
    cases h with
    | met hle => exact absurd hn (Nat.not_lt.mpr hle)
    | abort => exact .aborted hp rfl
  | fail | condemn => exact hp
  | _ => exact hp.elim

/-- The calls of a member that is barred are those by which the fixture is made. -/
theorem Barred.makes {q : Request} (hp : Barred site told k (.point p))
    (hc : a.call? m p = some q) : q.Makes := by
  cases p with
  | acquire p =>
    cases p <;> cases hc
    · trivial
    · rfl
  | begin | reject | arrive | fail | condemn => cases hc
  | _ => exact hp.elim

/-- Whatever a call replies, a member goes on to be barred. -/
theorem Barred.answered {now : Nat} {q : Request} {r : Reply} {k' : Reply → Stand Point Report}
    (hp : Barred site told k (.point p)) (hc : a.call? m p = some q)
    (hk : a.step now m p = .ask q k') (ht : ∀ y : Mishap, r = y.reply → told y) :
    Barred site told k (k' r) := by
  cases p with
  | acquire p =>
    cases p <;> cases hc <;> cases hk
    all_goals
      cases r with
      | returned v => exact ⟨hp.1, trivial⟩
      | refused problem => exact ⟨hp.1, ht (.refused problem) rfl⟩
      | crashed text => exact ⟨hp.1, ht (.crashed text) rfl⟩
  | begin | reject | arrive | fail | condemn => cases hc
  | _ => exact hp.elim

/-- A member without a role is doomed from its first step on. -/
theorem Step.doomed_of_misplaced (h : a.Step m p m' t)
    (hp : Barred site told a.seat.subgroup (.point p)) (hs : a.seat.subgroup ≠ 0) : Doomed t := by
  cases h with
  | enrol h0 => exact absurd h0 hs
  | misplaced | reject | fail | condemn => trivial
  | acquire | acquired => exact absurd hp.1 hs
  | arrive | arrived => exact absurd hp hs
  | _ => exact hp.elim

end Pass

/-! ### Groups -/

namespace Group

/-- Everybody in a group is barred, and those without a role are missing at the first rendezvous. -/
structure Barred (x : Execution) (g : Group) (marks : List Nat) (told : Mishap → Prop) : Prop where
  stands : ∀ {i : Nat} {t : Stand Pass.Point Report}, g.stands[i]? = some t →
    Pass.Barred x.site told (x.seat i).subgroup t
  missing : ∀ {i r : Nat}, (x.seat i).subgroup ≠ 0 → marks[i]? = some r → r = 0

namespace Barred
variable {x : Execution} {index f i : Nat} {m m' : Memory} {g g' : Group} {marks : List Nat}
  {told told' : Mishap → Prop} {t : Stand Pass.Point Report}

theorem opening (x : Execution) (c : Iteration) :
    (x.group c).Barred x (List.replicate x.threads 0) told where
  stands hi := by
    rw [eq_start_of_mem (List.mem_of_getElem? hi)]
    trivial
  missing _ hr := List.eq_of_mem_replicate (List.mem_of_getElem? hr)

theorem mono (hb : g.Barred x marks told) (hs : g'.stands = g.stands) (ht : ∀ y, told y → told' y) :
    g'.Barred x marks told' where
  stands hi := (hb.stands (hs ▸ hi)).mono ht
  missing := hb.missing

theorem set {p : Pass.Point} {r r' : Nat} (hb : g.Barred x marks told)
    (hi : g.stands[i]? = some (.point p)) (hs : g'.stands = g.stands.set i t)
    (ht : ∀ y, told y → told' y) (hr : marks[i]? = some r)
    (hstep : (x.pass g.iteration i).Step m p m' t) (hkeep : Pass.Doomed t → r' = r)
    (hbar : Pass.Barred x.site told' (x.seat i).subgroup t) :
    g'.Barred x (marks.set i r') told' where
  stands hj := by
    rw [hs] at hj
    rcases getElem?_set_eq_some hj with ⟨rfl, rfl⟩ | ⟨_, hj⟩
    · exact hbar
    · exact (hb.stands hj).mono ht
  missing hj hn := by
    rcases getElem?_set_eq_some hn with ⟨rfl, rfl⟩ | ⟨_, hn⟩
    · exact (hkeep (hstep.doomed_of_misplaced (hb.stands hi) hj)).trans (hb.missing hj hr)
    · exact hb.missing hj hn

/-- No count that everybody has a part in becomes complete. -/
theorem short (hb : g.Barred x marks told) (hP : g.Paced x index m marks) (hx : x.Divided)
    {k : Checkpoint} (hk : k.isKept x.trial.benchmark.mode = true) :
    k.count (m.signalsOf g.iteration) < x.threads := by
  refine Nat.lt_of_not_le fun hn => ?_
  obtain ⟨r, hr⟩ : ∃ r, marks[x.share]? = some r := by
    refine ⟨_, List.getElem?_eq_getElem ?_⟩
    rw [hP.attendance.length, hP.length]
    exact hx.share_lt
  have hle := hP.attendance.of_complete hk (Nat.le_trans (Nat.le_of_eq hP.length) hn)
    (List.mem_of_getElem? hr)
  cases hb.missing (by rw [hx.seat_share]; decide) hr
  cases k <;> exact absurd hle (by decide)

theorem turnedAway (hb : g.Barred x marks told) (he : g.hasEnded = true) {o : Outcome Report}
    (ho : g.outcomes[i]? = some o) : TurnedAway x.site told (x.seat i).subgroup o := by
  have hmap : (g.outcomes.map some)[i]? = (g.members.map Strand.outcome?)[i]? := by
    rw [map_outcomes he]
  rw [List.getElem?_map, List.getElem?_map, ho] at hmap
  obtain ⟨s, hs, hout⟩ := Option.map_eq_some_iff.mp hmap.symm
  have hi := getElem?_stands hs
  rw [Strand.outcome?_eq_some.mp hout] at hi
  exact hb.stands hi

theorem no_result (hb : g.Barred x marks told) {o : Outcome Report} (ho : o ∈ g.outcomes) :
    o.isOk = false := by
  obtain ⟨i, hi⟩ := List.mem_iff_getElem?.mp (mem_outcomes.mp ho)
  exact TurnedAway.isOk (hb.stands hi)

/-- The first member without a role says so. -/
theorem misplaced (hb : g.Barred x marks told) (hP : g.Paced x index m marks) (hx : x.Divided)
    (he : g.hasEnded = true) : g.outcomes[x.share]? = some (.failed (.subgroupWithoutRole 1)) := by
  have hlt : x.share < g.outcomes.length := by
    rw [length_outcomes he, hP.length]
    exact hx.share_lt
  have ho := List.getElem?_eq_getElem hlt
  have hone := hx.seat_share
  cases hb.turnedAway he ho with
  | aborted hs | denied hs => cases hone.symm.trans hs
  | misplaced hs hmis => rw [ho, hmis, hone]

/-- The first primary failure is that of the first member without a role, unless the
construction was refused. -/
theorem first_primary (hb : g.Barred x marks told) (hP : g.Paced x index m marks) (hx : x.Divided)
    (he : g.hasEnded = true) {e : Failure}
    (hprim : g.outcomes.findSome? Outcome.primary? = some e) :
    e = .subgroupWithoutRole 1 ∨ ∃ y, told y ∧
      x.site.verdict y = (.failed e : Outcome Summary) := by
  obtain ⟨before, o, after, hsplit, ho, hnone⟩ := List.findSome?_eq_some_iff.mp hprim
  obtain ⟨rfl, hprimary⟩ := Outcome.primary?_eq_some.mp ho
  have hat : g.outcomes[before.length]? = some (.failed e) := by rw [hsplit]; simp
  have hmis := hb.misplaced hP hx he
  -- it does not stand behind the first member without a role
  have hle : before.length ≤ x.share := by
    refine Nat.le_of_not_lt fun hlt => ?_
    rw [hsplit, List.getElem?_append_left hlt] at hmis
    cases hnone _ (List.mem_of_getElem? hmis)
  rcases Nat.lt_or_eq_of_le hle with hlt | heq
  · have h0 : (x.seat before.length).subgroup = 0 := Execution.Divided.seat_of_lt hlt
    cases hb.turnedAway he hat with
    | aborted hs ho =>
      cases ho
      cases hprimary
    | denied hs hy ho => exact .inr ⟨_, hy, Site.verdict_failed ho.symm⟩
    | misplaced hs => exact absurd h0 hs
  · rw [heq, hmis] at hat
    cases hat
    exact .inl rfl

end Barred

/-- A running group in which everybody is turned away. -/
def Stalled (x : Execution) (m : Memory) (told : Mishap → Prop) (g : Group) : Prop :=
  ∃ marks f, g.Agreed x 0 m marks f ∧ g.Answerable x m f ∧ g.Barred x marks told

namespace Stalled
variable {x : Execution} {i : Nat} {m m' : Memory} {g g' : Group} {told told' : Mishap → Prop}
  {h : List Entry} {w : Execution.World} {es : List Event}

theorem opening (hf : m.failing.get x.flag = false) (hm : m.Quiet x.site) (created : Nat)
    (mask : UInt32) :
    (x.group (x.iteration 0 created)).Stalled x
      { m with signals := m.signals.put (x.iteration 0 created).number { mask } } told :=
  ⟨_, _, .opening x 0 created m mask hf, .opening hf hm 0 created mask, .opening x _⟩

theorem rest (hg : g.Stalled x m told) (hc : g'.iteration = g.iteration) (hs : g'.stands = g.stands)
    (hd : g'.conductor.stand = g.conductor.stand) (ht : ∀ y, told y → told' y) :
    g'.Stalled x m told' := by
  obtain ⟨marks, f, ha, hA, hb⟩ := hg
  have hmoved : g.Moved x m m g' := .rest hc hs hd
  obtain ⟨_, _, hA'⟩ := hA.moved ha hmoved
  exact ⟨marks, f, ha.rest hc hs hd, hA', hb.mono hs ht⟩

theorem member {s s' : Strand Pass.Point Report} (hg : g.Stalled x m (Told h)) (hx : x.Divided)
    (hi : g.members[i]? = some s) (hs : (x.pass g.iteration i).Played m s m' es s') :
    { g with members := g.members.set i s' }.Stalled x m'
      (Told (h ++ es.map (w.entry (.member i)))) := by
  have htold (y : Mishap) (ht : Told h y) :
      Told (h ++ es.map (w.entry (.member i))) y := ht.append _
  have step {p : Pass.Point} {t : Stand Pass.Point Report} (hp : s.stand = .point p)
      (hst : s' = ⟨t, false⟩)
      (ht : (x.pass g.iteration i).Step m p m' t)
      (hbar : ∀ {marks : List Nat} {f : Nat}, g.Agreed x 0 m marks f →
        Pass.Barred x.site (Told h) (x.seat i).subgroup (.point p) →
        Pass.Barred x.site (Told (h ++ es.map (w.entry (.member i)))) (x.seat i).subgroup t) :
      { g with members := g.members.set i s' }.Stalled x m'
        (Told (h ++ es.map (w.entry (.member i)))) := by
    obtain ⟨marks, f, ha, hA, hb⟩ := hg
    subst hst
    have hi' : g.stands[i]? = some (.point p) := hp ▸ getElem?_stands hi
    have hc : { g with members := g.members.set i ⟨t, false⟩ }.iteration = g.iteration := rfl
    obtain ⟨r, r', hr, hpr, _, _, hkeep, ha'⟩ := ha.member hc hi' ht (stands_set ..) rfl
    exact ⟨_, _, ha', hA.member ha hi' ht hr hpr hc (stands_set ..),
      hb.set hi' (stands_set ..) htold hr ht hkeep (hbar ha (hb.stands hi'))⟩
  cases hs with
  | rest hp hc hsame he => exact hg.rest rfl (stands_set_self hi hsame) rfl htold
  | call hp hc hcall => exact hg.rest rfl (stands_set_self hi hp.symm) rfl htold
  | act hp hc ht he =>
    refine step hp rfl ht fun ha hbar => ht.barred hc ?_ (hbar.mono htold)
    obtain ⟨marks, f, ha', _, hb⟩ := hg
    exact ha'.1.threads ▸ hb.short ha'.1 hx (k := .setUp) rfl
  | @reply p q r k now hp hc hcall hk ht hd =>
    refine step hp rfl ht fun ha hbar => (hbar.mono htold).answered hc hk fun y hy => ?_
    exact ⟨w.entry (.member i) (.answered q r),
      List.mem_append_right _ (List.mem_singleton.mpr rfl), q, hbar.makes hc, hy ▸ rfl⟩

theorem conductor {now : Nat} {s' : Strand Conductor.Point Unit} (hg : g.Stalled x m told)
    (ha : g.conductor.Advanced ((x.conductor g.iteration).step now m) m m' es s')
    (ht : ∀ y, told y → told' y) :
    { g with conductor := s' }.Stalled x m' told' := by
  rcases ha.yields with ⟨rfl, hs⟩ | ⟨p, hp, hy⟩
  · exact hg.rest rfl rfl hs ht
  · obtain ⟨marks, f, hag, hA, hb⟩ := hg
    have hstep := Conductor.step_of_yields hy
    have hmoved : g.Moved x m m' { g with conductor := s' } := .conductor rfl rfl hp hstep rfl
    obtain ⟨_, _, hA'⟩ := hA.moved hag hmoved
    exact ⟨marks, f, hag.conductor rfl rfl hp hstep rfl, hA', hb.mono rfl ht⟩

/-- Once everybody has ended, the trial is failing and nobody is at its site. -/
theorem failed_of_ended (hg : g.Stalled x m told) (hx : x.Divided) (he : g.hasEnded = true) :
    m.hasFailed g.iteration = true ∧ m.isEntered x.site = false := by
  obtain ⟨marks, f, ha, hA, hb⟩ := hg
  refine ⟨(hA.failed_iff he).mpr ⟨_, List.mem_of_getElem? (hb.misplaced ha.1 hx he), ?_⟩,
    (hA.kept.free he).1⟩
  exact fun hn => Bool.noConfusion hn

end Stalled
end Group

/-! ### Trials -/

namespace Execution
variable {x : Execution} {m : Memory} {h : List Entry} {w w' : World} {who : Actor}
  {es : List Event}

/-- What a trial with several subgroups can report: that the second one has no role, or a
mishap of the construction. -/
def Rejection (x : Execution) (h : List Entry) (r : Outcome Summary) : Prop :=
  r = .failed (.subgroupWithoutRole 1) ∨ ∃ y, Told h y ∧ r = x.site.verdict y

theorem Rejection.append {r : Outcome Summary} (hr : x.Rejection h r) (more : List Entry) :
    x.Rejection (h ++ more) r :=
  hr.imp_right fun ⟨y, hy, ho⟩ => ⟨y, hy.append more, ho⟩

def World.Barred (x : Execution) (h : List Entry) (w : World) : Prop :=
  match w.point with
  | .launch index _ => index = 0 ∧ w.memory.failing.get x.flag = false ∧ w.memory.Quiet x.site
  | .running index g => index = 0 ∧ g.Stalled x w.memory (Told h)
  | .checkInterrupted .. | .cleaning .. => False
  | .checkFailed c e =>
    w.memory.hasFailed c = true ∧ w.memory.isEntered x.site = false ∧ x.Rejection h (.failed e)
  | .clearing r s => x.Rejection h r ∧ Clear.Alone w.memory x.site s.stand ∧
    Clear.Vacating (w.memory.live? x.site) s.stand ∧ s.stand.hasEnded = false
  | .ended r => x.Rejection h r ∧ w.memory.live? x.site = none

theorem World.Barred.running {index : Nat} {g : Group} (hw : w.Barred x h)
    (hp : w.point = .running index g) :
    index = 0 ∧ g.Stalled x w.memory (Told h) := by
  unfold World.Barred at hw
  rw [hp] at hw
  exact hw

/-- What the caller makes of a group in which everybody was turned away. -/
theorem barred_settle {g : Group} (hx : x.Divided) (hg : g.Stalled x w.memory (Told h))
    (he : g.hasEnded = true) :
    (x.settle w 0 g).Barred x h := by
  obtain ⟨hfailed, hleft⟩ := hg.failed_of_ended hx he
  obtain ⟨marks, f, ha, hA, hb⟩ := hg
  unfold settle
  cases hc : firstCrash? g.outcomes with
  | some text =>
    obtain ⟨i, hi⟩ := List.mem_iff_getElem?.mp (mem_of_firstCrash? hc)
    obtain ⟨y, hy, hv⟩ := (hb.turnedAway he hi).crashed (β := Summary)
    exact ⟨.inr ⟨y, hy, hv.symm⟩, hleft, trivial, rfl⟩
  | none =>
    have hmis := List.mem_of_getElem? (hb.misplaced ha.1 hx he)
    cases hd : decisive? g.outcomes with
    | none => exact absurd hmis (decisive?_eq_none hd _)
    | some e =>
      have hprim := primary_of_decisive? hd
      cases hs : e.isSecondary with
      | true =>
        rw [hs] at hprim
        have hnone := List.findSome?_eq_none_iff.mp hprim _ hmis
        cases hnone
      | false =>
        rw [hs] at hprim
        simp only [hs, Bool.false_eq_true, if_false]
        refine ⟨hfailed, hleft, (hb.first_primary ha.1 hx he hprim).imp (fun h1 => by rw [h1]) ?_⟩
        exact fun ⟨y, hy, hv⟩ => ⟨y, hy, hv.symm⟩

theorem World.Barred.step (hx : x.Divided) (hw : w.Barred x h) (hc : Changed x w who es w') :
    w'.Barred x (h ++ es.map (w.entry who)) := by
  have htold (y : Mishap) (ht : Told h y) : Told (h ++ es.map (w.entry who)) y := ht.append _
  cases hc with
  | member hp hi ha =>
    obtain ⟨h0, hg⟩ := hw.running hp
    exact ⟨h0, hg.member hx hi (Pass.played_of_advanced ha)⟩
  | conductor hp ha =>
    obtain ⟨h0, hg⟩ := hw.running hp
    exact ⟨h0, hg.conductor ha htold⟩
  | settle hp he =>
    obtain ⟨rfl, hg⟩ := hw.running hp
    rw [List.map_nil, List.append_nil]
    exact barred_settle hx hg he
  | launch hp =>
    unfold World.Barred at hw
    rw [hp] at hw
    obtain ⟨rfl, hf, hm⟩ := hw
    exact ⟨rfl, .opening hf hm _ _⟩
  | checkInterrupted hp | cleaning hp | cleaned hp | cleanupCrashed hp =>
    unfold World.Barred at hw
    rw [hp] at hw
    exact hw.elim
  | abandon hp hf =>
    unfold World.Barred at hw
    rw [hp] at hw
    exact ⟨hw.2.2.append _, hw.2.1, trivial, rfl⟩
  | clean hp hf =>
    unfold World.Barred at hw
    rw [hp] at hw
    exact Bool.noConfusion (hf.symm.trans hw.1)
  | @clearing r s s' m es hp ha =>
    unfold World.Barred at hw
    rw [hp] at hw
    obtain ⟨hr, halone, hvac, _⟩ := hw
    have hr' := hr.append (es.map (w.entry .caller))
    have halone' := Clear.alone_of_advanced ha halone
    have hvac' := Clear.vacating_of_advanced ha hvac
    cases hs : s'.stand with
    | point p => exact ⟨hr', halone', hvac', congrArg Stand.hasEnded hs⟩
    | ended o =>
      rw [hs] at hvac'
      exact ⟨hr', hvac'⟩

theorem Run.barred (hr : x.Run m h w) (hx : x.Divided) (hf : m.failing.get x.flag = false)
    (hm : m.Quiet x.site) :
    w.Barred x h := by
  refine hr.induct (P := fun h w => w.Barred x h) ?_ fun _ hw hc => hw.step hx hc
  unfold World.Barred Execution.start
  rw [if_pos (Decidable.not_not.mp hx.even)]
  exact ⟨rfl, hf, hm⟩

/-- Nothing is called but what makes the fixture. -/
theorem World.Barred.makes (hw : w.Barred x h) (hc : Changed x w who es w') {q : Request}
    (hq : .called q ∈ es) :
    q.Makes ∨ ∃ d, q = .sleep d := by
  cases hc with
  | member hp hi ha =>
    obtain ⟨_, marks, f, _, _, hb⟩ := hw.running hp
    cases Pass.played_of_advanced ha with
    | rest hp' hcall hs he => exact .inr (Event.sleep_of_quiet (he _ hq))
    | act hp' hcall ht he => exact .inr (Event.sleep_of_quiet (he _ hq))
    | call hp' hcall hs =>
      cases List.mem_singleton.mp hq
      have hi' := Group.getElem?_stands hi
      rw [hp'] at hi'
      exact .inl ((hb.stands hi').makes hcall)
    | reply => cases List.mem_singleton.mp hq
  | conductor hp ha => exact .inr (Event.sleep_of_quiet (Conductor.quiet_of_advanced ha _ hq))
  | launch | abandon => cases List.mem_singleton.mp hq
  | settle | clean => cases hq
  | checkInterrupted => cases hq
  | cleaning hp | cleaned hp | cleanupCrashed hp =>
    unfold World.Barred at hw
    rw [hp] at hw
    exact hw.elim
  | clearing hp ha =>
    obtain ⟨notes, rfl⟩ := Clear.noted ha
    obtain ⟨n, _, hn⟩ := List.mem_map.mp hq
    cases hn

theorem Run.makes (hr : x.Run m h w) (hx : x.Divided) (hf : m.failing.get x.flag = false)
    (hm : m.Quiet x.site) {e : Entry} (he : e ∈ h) {q : Request} (hq : e.event = .called q) :
    q.Makes ∨ ∃ d, q = .sleep d := by
  induction hr with
  | start => cases he
  | @step h w w' who now reply es hr ha ih =>
    rcases List.mem_append.mp he with he | he
    · exact ih he
    · obtain ⟨ev, hev, rfl⟩ := List.mem_map.mp he
      cases (hq : ev = .called q)
      exact (hr.barred hx hf hm).makes (changed_of_advance ha) hev

/-- Where the threads cannot be divided the trial has ended before anything has happened. -/
theorem Run.of_uneven (hr : x.Run m h w) (hu : x.Uneven) :
    h = [] ∧ w = { memory := m, reports := [], point := .ended (.crashed groupMessage) } := by
  induction hr with
  | start =>
    refine ⟨rfl, ?_⟩
    unfold Execution.start
    rw [if_neg hu]
  | step hr ha ih =>
    obtain ⟨rfl, rfl⟩ := ih
    cases changed_of_advance ha with
    | launch hp | member hp | conductor hp | settle hp | checkInterrupted hp | abandon hp
    | clean hp | cleaning hp | cleaned hp | cleanupCrashed hp | clearing hp => cases hp

end Execution
end LoadBench
