import LoadBench.Proofs.Conducting
import LoadBench.Proofs.Run

/-!
# Runs as sequences of iterations

While an iteration is running, a step moves one member of its group or its conductor
(`Group.Moved`); the next iteration is launched only when every member has ended well. So a fact
about running groups holds along a run once it holds of a group that is launched and is kept by
every move (`Execution.Run.along`).
-/

namespace LoadBench

theorem getElem?_set_eq_some {α : Type} {l : List α} {i j : Nat} {a b : α}
    (h : (l.set i a)[j]? = some b) : (i = j ∧ b = a) ∨ (i ≠ j ∧ l[j]? = some b) := by
  rw [List.getElem?_set] at h
  by_cases hij : i = j
  · simp only [hij, if_true, Option.ite_none_right_eq_some, Option.some.injEq] at h
    exact .inl ⟨hij, h.2.symm⟩
  · simp only [hij, if_false] at h
    exact .inr ⟨hij, h⟩

theorem eq_or_mem_set {α : Type} {l : List α} {i : Nat} {a b c : α} (ha : l[i]? = some a)
    (hc : c ∈ l) :
    c = a ∨ c ∈ l.set i b := by
  obtain ⟨j, hj⟩ := List.mem_iff_getElem?.mp hc
  by_cases hij : i = j
  · subst hij
    exact .inl (Option.some.inj (hj.symm.trans ha))
  · exact .inr (List.mem_of_getElem? ((List.getElem?_set_ne hij).trans hj))

theorem Strand.outcome?_eq_some {σ α : Type} {s : Strand σ α} {o : Outcome α} :
    s.outcome? = some o ↔ s.stand = .ended o := by
  unfold outcome? Stand.outcome?
  split <;> rename_i hs <;> simp [hs]

namespace Outcome
variable {α : Type} {o : Outcome α} {e : Failure}

def crash? : Outcome α → Option String
  | crashed text => some text
  | _ => none

def failure? : Outcome α → Option Failure
  | failed e => some e
  | _ => none

/-- A failure that no other thread has caused. -/
def primary? (o : Outcome α) : Option Failure := o.failure?.filter fun e => !e.isSecondary

theorem crash?_eq_some {text : String} : o.crash? = some text ↔ o = .crashed text := by
  cases o <;> simp [crash?]

theorem failure?_eq_some : o.failure? = some e ↔ o = .failed e := by
  cases o <;> simp [failure?]

theorem primary?_eq_some : o.primary? = some e ↔ o = .failed e ∧ e.isSecondary = false := by
  cases o with
  | ok v | crashed text => simp [primary?, failure?]
  | failed e' =>
    simp only [primary?, failure?, Option.filter_eq_some_iff, Option.some.injEq, failed.injEq,
      Bool.not_eq_true']

end Outcome

namespace Group

def stands (g : Group) : List (Stand Pass.Point Report) := g.members.map Strand.stand

/-- A step inside a group, with calls in progress forgotten. -/
inductive Moved (x : Execution) (g : Group) (m : Memory) : Memory → Group → Prop where
  | rest {g' : Group} (hc : g'.iteration = g.iteration) (hs : g'.stands = g.stands)
      (hd : g'.conductor.stand = g.conductor.stand) : Moved x g m m g'
  | member {g' : Group} {i : Nat} {p : Pass.Point} {t : Stand Pass.Point Report} {m' : Memory}
      (hc : g'.iteration = g.iteration) (hi : g.stands[i]? = some (.point p))
      (h : (x.pass g.iteration i).Step m p m' t) (hs : g'.stands = g.stands.set i t)
      (hd : g'.conductor.stand = g.conductor.stand) : Moved x g m m' g'
  | conductor {g' : Group} {p : Conductor.Point} {s : Stand Conductor.Point Unit} {m' : Memory}
      (hc : g'.iteration = g.iteration) (hs : g'.stands = g.stands)
      (hp : g.conductor.stand = .point p) (h : (x.conductor g.iteration).Step m p m' s)
      (hd : g'.conductor.stand = s) : Moved x g m m' g'

/-- A step inside a group, by whom, and what is seen of it. -/
inductive Acted (x : Execution) (g : Group) (m : Memory) : Execution.Actor → List Event → Memory →
    Group → Prop where
  | member {i now : Nat} {s s' : Strand Pass.Point Report} {m' : Memory} {es : List Event}
      (hi : g.members[i]? = some s)
      (ha : s.Advanced ((x.pass g.iteration i).step now m) m m' es s') :
      Acted x g m (.member i) es m' { g with members := g.members.set i s' }
  | conductor {now : Nat} {s' : Strand Conductor.Point Unit} {m' : Memory} {es : List Event}
      (ha : g.conductor.Advanced ((x.conductor g.iteration).step now m) m m' es s') :
      Acted x g m .conductor es m' { g with conductor := s' }

theorem stands_set (g : Group) (i : Nat) (s : Strand Pass.Point Report) :
    { g with members := g.members.set i s }.stands = g.stands.set i s.stand := List.map_set ..

theorem getElem?_stands {g : Group} {i : Nat} {s : Strand Pass.Point Report}
    (hi : g.members[i]? = some s) :
    g.stands[i]? = some s.stand := by simp [stands, hi]

theorem stands_set_self {g : Group} {i : Nat} {s s' : Strand Pass.Point Report}
    (hi : g.members[i]? = some s) (hs : s'.stand = s.stand) :
    { g with members := g.members.set i s' }.stands = g.stands := by
  obtain ⟨hlt, hget⟩ := List.getElem?_eq_some_iff.mp (getElem?_stands hi)
  rw [stands_set, hs, ← hget]
  exact List.set_getElem_self hlt

theorem Acted.moved {x : Execution} {g g' : Group} {m m' : Memory} {who : Execution.Actor}
    {es : List Event} (h : g.Acted x m who es m' g') : g.Moved x m m' g' := by
  cases h with
  | @member i now s s' _ es hi ha =>
    rcases ha.yields with ⟨rfl, hs⟩ | ⟨p, hs, hy⟩
    · exact .rest rfl (stands_set_self hi hs) rfl
    · exact .member rfl (hs ▸ getElem?_stands hi) (Pass.step_of_yields hy) (stands_set ..) rfl
  | conductor ha =>
    rcases ha.yields with ⟨rfl, hs⟩ | ⟨p, hs, hy⟩
    · exact .rest rfl rfl hs
    · exact .conductor rfl rfl hs (Conductor.step_of_yields hy) rfl

theorem stands_group (x : Execution) (c : Iteration) :
    (x.group c).stands = List.replicate x.threads Pass.start := by
  rw [stands, Execution.group, List.map_map, List.eq_replicate_iff]
  refine ⟨by simp, ?_⟩
  intro t ht
  obtain ⟨_, _, rfl⟩ := List.mem_map.mp ht
  rfl

theorem eq_start_of_mem {x : Execution} {c : Iteration} {t : Stand Pass.Point Report}
    (ht : t ∈ (x.group c).stands) : t = Pass.start := by
  rw [stands_group] at ht
  exact List.eq_of_mem_replicate ht

theorem mem_outcomes {g : Group} {o : Outcome Report} : o ∈ g.outcomes ↔ .ended o ∈ g.stands := by
  simp only [outcomes, stands, List.mem_filterMap, List.mem_map, Strand.outcome?_eq_some]

theorem exists_outcome {g : Group} (he : g.hasEnded = true) {t : Stand Pass.Point Report}
    (ht : t ∈ g.stands) : ∃ o, t = .ended o := by
  obtain ⟨s, hs, rfl⟩ := List.mem_map.mp ht
  have he : s.stand.hasEnded = true := List.all_eq_true.mp (Bool.and_eq_true_iff.mp he).2 s hs
  cases hp : s.stand with
  | point p => rw [hp] at he; cases he
  | ended o => exact ⟨o, rfl⟩

theorem ended_ok {g : Group} (he : g.hasEnded = true) (ho : ∀ o ∈ g.outcomes, o.isOk = true)
    {t : Stand Pass.Point Report} (ht : t ∈ g.stands) : ∃ r, t = .ended (.ok r) := by
  obtain ⟨o, rfl⟩ := exists_outcome he ht
  have ho := ho o (mem_outcomes.mpr ht)
  cases o with
  | ok r => exact ⟨r, rfl⟩
  | failed e | crashed text => cases ho

theorem length_outcomes {g : Group} (he : g.hasEnded = true) :
    g.outcomes.length = g.stands.length := by
  rw [outcomes, stands, List.length_map, List.length_filterMap_eq_countP, List.countP_eq_length]
  intro s hs
  obtain ⟨o, ho⟩ := exists_outcome he (List.mem_map_of_mem hs)
  simp [Strand.outcome?, Stand.outcome?, ho]

end Group

namespace Execution
variable {x : Execution}

section
variable {α : Type} {l : List (Outcome α)} {e : Failure}

theorem firstCrash?_eq (l : List (Outcome α)) : firstCrash? l = l.findSome? Outcome.crash? := by
  induction l with
  | nil => rfl
  | cons o rest ih => cases o <;> simp [firstCrash?, Outcome.crash?, List.findSome?_cons, ih]

/-- What is kept: a primary failure that is kept already, or else the first one that is met, or else
the failure that is kept, or else the first one that is met. -/
theorem foldl_keep_eq (l : List (Outcome α)) (current : Option Failure) :
    l.foldl (fun current r => match r with
      | .failed e => keepFailure current e
      | _ => current) current =
      (current.filter fun e => !e.isSecondary).or
        ((l.findSome? Outcome.primary?).or (current.or (l.findSome? Outcome.failure?))) := by
  induction l generalizing current with
  | nil =>
    cases current with
    | none => rfl
    | some e => cases he : e.isSecondary <;> simp [Option.filter, he]
  | cons o rest ih =>
    rw [List.foldl_cons, ih]
    cases o with
    | ok v | crashed text => simp [List.findSome?_cons, Outcome.primary?, Outcome.failure?]
    | failed e =>
      cases current with
      | none =>
        cases he : e.isSecondary <;>
          simp [keepFailure, Option.filter, List.findSome?_cons, Outcome.primary?,
            Outcome.failure?, he]
      | some kept =>
        cases hk : kept.isSecondary <;> cases he : e.isSecondary <;>
          simp [keepFailure, Option.filter, List.findSome?_cons, Outcome.primary?,
            Outcome.failure?, hk, he]

theorem decisive?_eq (l : List (Outcome α)) :
    decisive? l = (l.findSome? Outcome.primary?).or (l.findSome? Outcome.failure?) :=
  foldl_keep_eq l none

theorem firstCrash?_eq_none (h : firstCrash? l = none) {text : String} : .crashed text ∉ l := by
  rw [firstCrash?_eq, List.findSome?_eq_none_iff] at h
  intro hm
  cases h _ hm

theorem mem_of_firstCrash? {text : String} (h : firstCrash? l = some text) : .crashed text ∈ l := by
  rw [firstCrash?_eq] at h
  obtain ⟨o, ho, hc⟩ := List.exists_of_findSome?_eq_some h
  exact Outcome.crash?_eq_some.mp hc ▸ ho

theorem decisive?_eq_none (h : decisive? l = none) (e : Failure) : .failed e ∉ l := by
  rw [decisive?_eq, Option.or_eq_none_iff, List.findSome?_eq_none_iff,
    List.findSome?_eq_none_iff] at h
  intro hm
  cases h.2 _ hm

theorem mem_of_decisive? (h : decisive? l = some e) : .failed e ∈ l := by
  rw [decisive?_eq, Option.or_eq_some_iff] at h
  rcases h with h | ⟨_, h⟩
  · obtain ⟨o, ho, hp⟩ := List.exists_of_findSome?_eq_some h
    exact (Outcome.primary?_eq_some.mp hp).1 ▸ ho
  · obtain ⟨o, ho, hf⟩ := List.exists_of_findSome?_eq_some h
    exact Outcome.failure?_eq_some.mp hf ▸ ho

end

/-- What the caller makes of an iteration that has ended. -/
inductive Settled (x : Execution) (w : World) (index : Nat) (g : Group) : World → Prop where
  | crashed {text : String} : Settled x w index g { w with point := clearSite (.crashed text) }
  | secondary {e : Failure} (he : .failed e ∈ g.outcomes) :
      Settled x w index g { w with point := .checkInterrupted g.iteration e }
  | primary {e : Failure} (he : .failed e ∈ g.outcomes) :
      Settled x w index g { w with point := .checkFailed g.iteration e }
  | last {reports : List (List Report)} {s : Summary} (ho : ∀ o ∈ g.outcomes, o.isOk = true)
      (hl : index + 1 = x.trial.iterations) :
      Settled x w index g { w with reports, point := .ended (.ok s) }
  | next {reports : List (List Report)} {mask : UInt32} (ho : ∀ o ∈ g.outcomes, o.isOk = true)
      (hl : index + 1 ≠ x.trial.iterations) :
      Settled x w index g { w with reports, point := .launch (index + 1) mask }

theorem settled (x : Execution) (w : World) (index : Nat) (g : Group) :
    Settled x w index g (x.settle w index g) := by
  unfold settle
  cases hc : firstCrash? g.outcomes with
  | some text => exact .crashed
  | none =>
    cases hd : decisive? g.outcomes with
    | some e =>
      simp only
      split
      · exact .secondary (mem_of_decisive? hd)
      · exact .primary (mem_of_decisive? hd)
    | none =>
      have ho (o : Outcome Report) (hm : o ∈ g.outcomes) : o.isOk = true := by
        cases o with
        | ok r => rfl
        | failed e => exact absurd hm (decisive?_eq_none hd e)
        | crashed text => exact absurd hm (firstCrash?_eq_none hc)
      by_cases hl : index + 1 = x.trial.iterations
      · simp only [if_pos hl]
        exact .last ho hl
      · simp only [if_neg hl]
        exact .next ho hl

/-- While an iteration is running, its group acts until the caller settles it. -/
theorem Changed.of_running {w w' : World} {who : Actor} {es : List Event} {index : Nat} {g : Group}
    (h : Changed x w who es w') (hp : w.point = .running index g) :
    (∃ g', w'.point = .running index g' ∧ g.Acted x w.memory who es w'.memory g') ∨
      who = .caller ∧ es = [] ∧ g.hasEnded = true ∧ Settled x w index g w' := by
  cases h with
  | launch hp' | checkInterrupted hp' | abandon hp' | clean hp' | cleaning hp' | cleaned hp'
  | cleanupCrashed hp' | clearing hp' => cases hp.symm.trans hp'
  | member hp' hi ha =>
    cases hp.symm.trans hp'
    exact .inl ⟨_, rfl, .member hi ha⟩
  | conductor hp' ha =>
    cases hp.symm.trans hp'
    exact .inl ⟨_, rfl, .conductor ha⟩
  | settle hp' he =>
    cases hp.symm.trans hp'
    exact .inr ⟨rfl, rfl, he, settled x w index g⟩

/-- Facts about launches and about running groups along a run. -/
theorem Run.along {m : Memory} {L : Nat → Memory → Prop} {P : Nat → Memory → Group → Prop}
    (start : L 0 m)
    (launch : ∀ {index created : Nat} {m : Memory} {mask : UInt32}, L index m →
      P index { m with signals := m.signals.put (x.iteration index created).number { mask } }
        (x.group (x.iteration index created)))
    (moved : ∀ {index : Nat} {m m' : Memory} {g g' : Group}, g.Moved x m m' g' → P index m g →
      P index m' g')
    (next : ∀ {index : Nat} {m : Memory} {g : Group}, P index m g → g.hasEnded = true →
      (∀ o ∈ g.outcomes, o.isOk = true) → index + 1 ≠ x.trial.iterations → L (index + 1) m)
    {h : List Entry} {w : World} (hr : x.Run m h w) :
    (∀ {index : Nat} {mask : UInt32}, w.point = .launch index mask → L index w.memory) ∧
      ∀ {index : Nat} {g : Group}, w.point = .running index g → P index w.memory g := by
  refine hr.induct (P := fun _ w =>
    (∀ {index : Nat} {mask : UInt32}, w.point = .launch index mask → L index w.memory) ∧
      ∀ {index : Nat} {g : Group}, w.point = .running index g → P index w.memory g) ?_ ?_
  · unfold Execution.start
    constructor
    · intro index mask hp
      split at hp
      · cases hp
        exact start
      · cases hp
    · intro index g hp
      split at hp <;> cases hp
  · intro h w who es w' _ ih hc
    cases hp : w.point with
    | running index g =>
      rcases hc.of_running hp with ⟨g', hp', ha⟩ | ⟨_, _, he, hs⟩
      · rw [hp']
        refine ⟨nofun, ?_⟩
        intro _ _ hg
        cases hg
        exact moved ha.moved (ih.2 hp)
      · cases hs with
        | next ho hl =>
          refine ⟨?_, nofun⟩
          intro _ _ hg
          cases hg
          exact next (ih.2 hp) he ho hl
        | _ => exact ⟨nofun, nofun⟩
    | launch index mask =>
      cases hc with
      | launch hp' =>
        cases hp.symm.trans hp'
        refine ⟨nofun, ?_⟩
        intro _ _ hg
        cases hg
        exact launch (ih.1 hp)
      | member hp' | conductor hp' | settle hp' | checkInterrupted hp' | abandon hp' | clean hp'
      | cleaning hp' | cleaned hp' | cleanupCrashed hp' | clearing hp' => cases hp.symm.trans hp'
    | _ =>
      cases hc with
      | clearing hp' ha =>
        constructor <;> intro _ _ hg <;> simp only at hg <;> split at hg <;> cases hg
      | launch hp' | member hp' | conductor hp' | settle hp' => cases hp.symm.trans hp'
      | _ => exact ⟨nofun, nofun⟩

end Execution
end LoadBench
