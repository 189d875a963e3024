import LoadBench.Proofs.Iterating
import LoadBench.Proofs.Path

/-!
# Journeys

The steps of one operation in their order, each with the memory that it found and the one that it
left. Between two of them the memory may be changed by others, as far as they are allowed to. What
an operation does on its own account is what its legs do; whatever a journey says holds no matter
how many others are at work.

The legs of a part are legs of the whole (`Journey.part`), so what is known of a part can be used
wherever it is one.
-/

namespace LoadBench
variable {σ τ α β : Type}

/-- A step of an operation: what the clock showed, the memory before and after it, where it was
taken and what was seen of it. -/
structure Leg (σ : Type) where
  now : Nat
  before : Memory
  point : σ
  events : List Event
  after : Memory

namespace Leg

def along (embed : σ → τ) (l : Leg σ) : Leg τ := ⟨l.now, l.before, embed l.point, l.events, l.after⟩

def IsStill (l : Leg σ) : Prop := l.after = l.before

end Leg

/-- The legs of an operation since it stood at `s₀` in the memory `m₀`, the memory
now, and where it stands. -/
inductive Journey (move : Nat → Memory → σ → Move Memory σ α) (others : Memory → Memory → Prop)
    (m₀ : Memory) (s₀ : Strand σ α) : List (Leg σ) → Memory → Strand σ α → Prop where
  | start : Journey move others m₀ s₀ [] m₀ s₀
  | step {legs : List (Leg σ)} {now : Nat} {m m' : Memory} {p : σ} {b : Bool} {es : List Event}
      {s : Strand σ α} (hj : Journey move others m₀ s₀ legs m ⟨.point p, b⟩)
      (ha : Strand.Advanced (move now m) m ⟨.point p, b⟩ m' es s) :
      Journey move others m₀ s₀ (legs ++ [⟨now, m, p, es, m'⟩]) m' s
  | others {legs : List (Leg σ)} {m m' : Memory} {s : Strand σ α}
      (hj : Journey move others m₀ s₀ legs m s)
      (ho : others m m') : Journey move others m₀ s₀ legs m' s

/-- A call is made from where the operation stands. -/
theorem Strand.Advanced.at_call {move : σ → Move Memory σ α} {m m' : Memory} {s s' : Strand σ α}
    {es : List Event} (h : s.Advanced move m m' es s') (hc : s'.calling = true) :
    s'.stand.hasEnded = false := by
  cases h with
  | act | reply => cases hc
  | call => rfl

theorem Strand.Advanced.of_act {move : σ → Move Memory σ α} {m m₁ m' : Memory} {p : σ} {b : Bool}
    {notes : List Note} {t : Stand σ α} {es : List Event} {s : Strand σ α}
    (hv : move p = .act m₁ notes t) (h : Advanced move m ⟨.point p, b⟩ m' es s) :
    m' = m₁ ∧ es = notes.map .noted ∧ s = ⟨t, false⟩ := by
  cases h with
  | act hp hv' =>
    cases hp
    cases hv.symm.trans hv'
    exact ⟨rfl, rfl, rfl⟩
  | call hp hv' | reply hp hv' =>
    cases hp
    cases hv.symm.trans hv'

def Strand.fresh (p : σ) : Strand σ α := ⟨.point p, false⟩

namespace Journey
variable {move : Nat → Memory → σ → Move Memory σ α} {others : Memory → Memory → Prop}
  {m₀ m : Memory} {s₀ s : Strand σ α} {legs : List (Leg σ)}

theorem of_ended {r : Outcome α} {b : Bool} (hj : Journey move others m₀ ⟨.ended r, b⟩ legs m s) :
    legs = [] ∧ s = ⟨.ended r, b⟩ := by
  induction hj with
  | start => exact ⟨rfl, rfl⟩
  | step _ _ ih => cases ih.2
  | others _ _ ih => exact ih

/-- An operation that has gone anywhere has a first leg. -/
theorem first (hj : Journey move others m₀ s₀ legs m s) :
    (legs = [] ∧ s = s₀) ∨ ∃ l s₁ rest, legs = l :: rest ∧ s₀.stand = .point l.point ∧
      s₀.Advanced (move l.now l.before) l.before l.after l.events s₁ ∧
        Journey move others l.after s₁ rest m s := by
  induction hj with
  | start => exact .inl ⟨rfl, rfl⟩
  | @step legs now m m' p b es s hj ha ih =>
    rcases ih with ⟨rfl, hs⟩ | ⟨l, s₁, rest, rfl, hp, hl, hrest⟩
    · subst hs
      exact .inr ⟨_, s, [], rfl, rfl, ha, .start⟩
    · exact .inr ⟨l, s₁, rest ++ [⟨now, m, p, es, m'⟩], rfl, hp, hl, hrest.step ha⟩
  | others hj ho ih =>
    rcases ih with ⟨rfl, hs⟩ | ⟨l, s₁, rest, rfl, hp, hl, hrest⟩
    · exact .inl ⟨rfl, hs⟩
    · exact .inr ⟨l, s₁, rest, rfl, hp, hl, hrest.others ho⟩

/-- Takes the steps of an operation one after the other; before each of them
the memory is changed. -/
def travel (move : Nat → Memory → σ → Move Memory σ α) :
    List (Nat × Reply × (Memory → Memory)) → Memory → Strand σ α →
      List (Leg σ) × Memory × Strand σ α
  | [], m, s => ([], m, s)
  | (now, reply, change) :: rest, m, s =>
    match s.stand, s.advance (move now (change m)) (change m) reply with
    | .point p, some (m', es, s') =>
      (⟨now, change m, p, es, m'⟩ :: (travel move rest m' s').1, (travel move rest m' s').2)
    | _, _ => travel move rest m s

theorem travelled (hj : Journey move others m₀ s₀ legs m s)
    {steps : List (Nat × Reply × (Memory → Memory))} (ho : ∀ x ∈ steps, ∀ m, others m (x.2.2 m)) :
    Journey move others m₀ s₀ (legs ++ (travel move steps m s).1) (travel move steps m s).2.1
      (travel move steps m s).2.2 := by
  induction steps generalizing legs m s with
  | nil => simpa [travel] using hj
  | cons x rest ih =>
    obtain ⟨now, reply, change⟩ := x
    have hrest (y : Nat × Reply × (Memory → Memory)) (hy : y ∈ rest) :=
      ho y (List.mem_cons_of_mem _ hy)
    obtain ⟨t, b⟩ := s
    unfold travel
    split
    · rename_i p m' es s' ht ha
      cases (ht : t = .point p)
      have hstep := (hj.others (ho _ List.mem_cons_self m)).step (Strand.advanced_of_advance ha)
      have hj' := ih hstep hrest
      rwa [List.append_assoc] at hj'
    · exact ih hj hrest

theorem travel_journey {steps : List (Nat × Reply × (Memory → Memory))}
    (ho : ∀ x ∈ steps, ∀ m, others m (x.2.2 m)) (m : Memory) (s : Strand σ α) :
    Journey move others m s (travel move steps m s).1 (travel move steps m s).2.1
      (travel move steps m s).2.2 :=
  Journey.start.travelled ho

/-- Some steps at which every call returns; before one of them the memory is changed. -/
def stepsWith (n k : Nat) (change : Memory → Memory) : List (Nat × Reply × (Memory → Memory)) :=
  (List.range n).map fun i => (i, .returned 0, if i = k then change else id)

/-! ### Parts -/

section
variable {outer : Nat → Memory → τ → Move Memory τ β} {inner : Nat → Memory → σ → Move Memory σ α}
  {embed : σ → τ} {onward : Outcome α → Stand τ β} {p₀ : σ} {t : Strand τ β} {legs : List (Leg τ)}

variable (inner embed) in
/-- A step of the whole inside a part is a step of the part. -/
theorem advanced_part {now : Nat} {p : σ} {b : Bool} {m m' : Memory} {es : List Event}
    (h : Strand.Advanced (outer now m) m ⟨.point (embed p), b⟩ m' es t)
    (hw : ∀ now m p, outer now m (embed p) = (inner now m p).andThen embed onward) :
    ∃ u c, Strand.Advanced (inner now m) m ⟨.point p, b⟩ m' es ⟨u, c⟩ ∧
      t = ⟨u.andThen embed onward, c⟩ := by
  have hw := hw now m p
  cases h with
  | act hp hv =>
    cases hp
    rw [hw] at hv
    cases hq : inner now m p with
    | act m₁ notes u =>
      rw [hq] at hv
      cases hv
      exact ⟨u, false, .act rfl hq, rfl⟩
    | ask q k => rw [hq] at hv; cases hv
    | blocked => rw [hq] at hv; cases hv
  | call hp hv hc =>
    cases hp
    rw [hw] at hv
    cases hq : inner now m p with
    | act m₁ notes u => rw [hq] at hv; cases hv
    | ask q k =>
      rw [hq] at hv
      cases hv
      exact ⟨.point p, true, .call rfl hq hc, rfl⟩
    | blocked => rw [hq] at hv; cases hv
  | reply hp hv hc hr =>
    cases hp
    rw [hw] at hv
    cases hq : inner now m p with
    | act m₁ notes u => rw [hq] at hv; cases hv
    | ask q k =>
      rw [hq] at hv
      cases hv
      exact ⟨_, false, .reply rfl hq hc hr, rfl⟩
    | blocked => rw [hq] at hv; cases hv

/-- Since it came into a part, an operation has been on a journey of the part; if that has ended, it
has gone on from there. -/
theorem part (hj : Journey outer others m₀ (.fresh (embed p₀)) legs m t)
    (hw : ∀ now m p, outer now m (embed p) = (inner now m p).andThen embed onward) :
    (∃ own q b, Journey inner others m₀ (.fresh p₀) own m ⟨.point q, b⟩ ∧
      legs = own.map (Leg.along embed) ∧
        t = ⟨.point (embed q), b⟩) ∨
      ∃ own r m₁ rest, Journey inner others m₀ (.fresh p₀) own m₁ ⟨.ended r, false⟩ ∧
        legs = own.map (Leg.along embed) ++ rest ∧
          Journey outer others m₁ ⟨onward r, false⟩ rest m t := by
  induction hj with
  | start => exact .inl ⟨[], p₀, false, .start, rfl, rfl⟩
  | @step legs now m m' p b es t hj ha ih =>
    rcases ih with ⟨own, q, c, hown, rfl, ht⟩ | ⟨own, r, m₁, rest, hown, rfl, hrest⟩
    · cases ht
      obtain ⟨u, c', hu, rfl⟩ := advanced_part inner embed ha hw
      have hown := hown.step hu
      cases u with
      | point q' => exact .inl ⟨_, q', c', hown, by simp [Leg.along], rfl⟩
      | ended r =>
        obtain rfl : c' = false := Bool.eq_false_iff.mpr fun hc => nomatch hu.at_call hc
        exact .inr ⟨_, r, m', [], hown, by simp [Leg.along], .start⟩
    · exact .inr ⟨own, r, m₁, _, hown, List.append_assoc .., hrest.step ha⟩
  | others hj ho ih =>
    rcases ih with ⟨own, q, c, hown, rfl, ht⟩ | ⟨own, r, m₁, rest, hown, rfl, hrest⟩
    · exact .inl ⟨own, q, c, hown.others ho, rfl, ht⟩
    · exact .inr ⟨own, r, m₁, rest, hown, rfl, hrest.others ho⟩

end
end Journey

/-! ### Side by side -/

namespace Pool

/-- The steps taken so far, each with whose it was, and the pool that they have led to. -/
inductive Trace (c : Company σ α) (w₀ : Pool σ α) : List (Nat × Leg σ) → Pool σ α → Prop where
  | start : Trace c w₀ [] w₀
  | step {tr : List (Nat × Leg σ)} {w : Pool σ α} {i now : Nat} {p : σ} {b : Bool} {m : Memory}
      {es : List Event} {s : Strand σ α} (ht : Trace c w₀ tr w)
      (hi : w.strands[i]? = some ⟨.point p, b⟩)
      (ha : Strand.Advanced (c.move i now w.memory) w.memory ⟨.point p, b⟩ m es s) :
      Trace c w₀ (tr ++ [(i, ⟨now, w.memory, p, es, m⟩)]) ⟨m, w.strands.set i s⟩
  | others {tr : List (Nat × Leg σ)} {w : Pool σ α} {m : Memory} (ht : Trace c w₀ tr w)
      (ho : c.others w.memory m) : Trace c w₀ tr ⟨m, w.strands⟩

def legsOf (i : Nat) (tr : List (Nat × Leg σ)) : List (Leg σ) :=
  tr.filterMap fun x => if x.1 = i then some x.2 else none

variable {c : Company σ α} {w w₀ : Pool σ α} {tr : List (Nat × Leg σ)}

theorem legsOf_append (i : Nat) (tr' : List (Nat × Leg σ)) :
    legsOf i (tr ++ tr') = legsOf i tr ++ legsOf i tr' :=
  List.filterMap_append ..

theorem legsOf_self (i : Nat) (l : Leg σ) : legsOf i [(i, l)] = [l] := by
  simp [legsOf]

theorem legsOf_ne {i j : Nat} (l : Leg σ) (h : i ≠ j) : legsOf j [(i, l)] = [] := by
  simp [legsOf, h]

theorem mem_of_legsOf {i : Nat} {l : Leg σ} (h : l ∈ legsOf i tr) : (i, l) ∈ tr := by
  obtain ⟨x, hx, hl⟩ := List.mem_filterMap.mp h
  split at hl
  · rename_i hi
    cases hl
    exact hi ▸ hx
  · cases hl

/-- What an operation does in a pool is a journey of its own; to it, the steps of all others are
changes of the memory. -/
theorem Trace.journey {others : Memory → Memory → Prop}
    (ho : ∀ {w x w'}, Stepped c w x w' → others w.memory w'.memory) (ht : Trace c w₀ tr w) {i : Nat}
    {s : Strand σ α} (hi : w.strands[i]? = some s) :
    ∃ s₀, w₀.strands[i]? = some s₀ ∧
      Journey (c.move i) others w₀.memory s₀ (legsOf i tr) w.memory s := by
  induction ht generalizing s with
  | start => exact ⟨s, hi, .start⟩
  | others ht hm ih =>
    obtain ⟨s₀, h₀, hj⟩ := ih hi
    exact ⟨s₀, h₀, hj.others (ho (.others hm))⟩
  | @step tr w k now p b m es u ht hk ha ih =>
    rw [legsOf_append]
    rcases getElem?_set_eq_some hi with ⟨rfl, rfl⟩ | ⟨hki, hi⟩
    · obtain ⟨s₀, h₀, hj⟩ := ih hk
      refine ⟨s₀, h₀, ?_⟩
      rw [legsOf_self]
      exact hj.step ha
    · obtain ⟨s₀, h₀, hj⟩ := ih hi
      refine ⟨s₀, h₀, ?_⟩
      rw [legsOf_ne _ hki, List.append_nil]
      exact hj.others (ho (.step hk ha))

/-- Lets some operations take a step each, one after the other, and passes over
those that have none. -/
def roam (c : Company σ α) : List (Nat × Nat × Reply) → Pool σ α → List (Nat × Leg σ) × Pool σ α
  | [], w => ([], w)
  | (i, now, reply) :: rest, w =>
    match w.strands[i]? with
    | some ⟨.point p, b⟩ =>
      match Strand.advance ⟨.point p, b⟩ (c.move i now w.memory) w.memory reply with
      | some (m, es, s) =>
        ((i, ⟨now, w.memory, p, es, m⟩) :: (roam c rest ⟨m, w.strands.set i s⟩).1,
          (roam c rest ⟨m, w.strands.set i s⟩).2)
      | none => roam c rest w
    | _ => roam c rest w

theorem Trace.roam (ht : Trace c w₀ tr w) (steps : List (Nat × Nat × Reply)) :
    Trace c w₀ (tr ++ (w.roam c steps).1) (w.roam c steps).2 := by
  induction steps generalizing tr w with
  | nil => simpa [Pool.roam] using ht
  | cons x rest ih =>
    obtain ⟨i, now, reply⟩ := x
    unfold Pool.roam
    split
    · rename_i hi
      split
      · rename_i ha
        have ht' := ih (.step ht hi (Strand.advanced_of_advance ha))
        rwa [List.append_assoc] at ht'
      · exact ih ht
    · exact ih ht

theorem trace_roam (c : Company σ α) (w₀ : Pool σ α) (steps : List (Nat × Nat × Reply)) :
    Trace c w₀ (w₀.roam c steps).1 (w₀.roam c steps).2 := Trace.start.roam steps

end Pool

end LoadBench
