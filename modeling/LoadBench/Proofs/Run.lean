import LoadBench.Proofs.Transition

/-!
# Runs of a trial

A run is any sequence of steps of the caller, the conductor and the members, in any order, for
any clock readings and any replies of the outside. Its history lists what was seen of each
step, by whom, and in which iteration. `Execution.Changed` says once what a step of a trial can
do; facts about runs are inductions whose step is a case analysis on it.
-/

namespace LoadBench

/-- Something seen of a trial: in which iteration, if one was launched or running, and by whom. -/
structure Entry where
  iteration : Option Nat
  who : Execution.Actor
  event : Event

/-- Every entry of a history satisfies a condition on what comes before it. -/
def Throughout (Q : List Entry → Entry → Prop) (h : List Entry) : Prop :=
  ∀ past e rest, h = past ++ e :: rest → Q past e

namespace Throughout
variable {Q : List Entry → Entry → Prop} {h es : List Entry}

theorem nil : Throughout Q [] := by
  intro past e rest hs
  cases past <;> cases hs

theorem append (hh : Throughout Q h) (he : Throughout (fun past e => Q (h ++ past) e) es) :
    Throughout Q (h ++ es) := by
  intro past e rest hs
  rcases List.append_eq_append_iff.mp hs with ⟨past', rfl, hes⟩ | ⟨rest', hh', hes⟩
  · exact he past' e rest hes
  · cases rest' with
    | nil =>
      rw [List.nil_append] at hes
      rw [List.append_nil] at hh'
      subst hh'
      simpa using he [] e rest hes.symm
    | cons e' rest' =>
      cases hes
      exact hh past e rest' hh'

theorem of_forall (he : ∀ e ∈ es, ∀ past, Q past e) : Throughout Q es := by
  intro past e rest hs
  exact he e (hs ▸ List.mem_append_right _ List.mem_cons_self) past

theorem singleton {e : Entry} (he : Q [] e) : Throughout Q [e] := by
  intro past e' rest hs
  cases past with
  | nil =>
    cases hs
    exact he
  | cons e'' past =>
    cases past <;> cases hs

end Throughout

namespace Execution

def Point.index? : Point → Option Nat
  | .launch index _ | .running index _ => some index
  | _ => none

def World.entry (w : World) (who : Actor) (e : Event) : Entry := ⟨w.point.index?, who, e⟩

/-- The runs of a trial from a memory: their histories and the worlds they reach. -/
inductive Run (x : Execution) (m : Memory) : List Entry → World → Prop where
  | start : Run x m [] (x.start m)
  | step {h : List Entry} {w w' : World} {who : Actor} {now : Nat} {reply : Reply} {es : List Event}
      (hr : Run x m h w) (ha : x.advance who now reply w = some (w', es)) :
      Run x m (h ++ es.map (w.entry who)) w'

/-- What one step can do to the world, by whom, and what is seen of it. -/
inductive Changed (x : Execution) (w : World) : Actor → List Event → World → Prop where
  | launch {index now : Nat} {mask : UInt32} (hp : w.point = .launch index mask) :
      Changed x w .caller
        [.noted (.startingIteration x.trial.benchmark.label index (x.isWarmup index))]
        { w with
          memory := { w.memory with
            signals := w.memory.signals.put (x.iteration index now).number { mask } }
          point := .running index (x.group (x.iteration index now)) }
  | member {i index now : Nat} {g : Group} {s s' : Strand Pass.Point Report} {m : Memory}
      {es : List Event} (hp : w.point = .running index g) (hi : g.members[i]? = some s)
      (ha : s.Advanced ((x.pass g.iteration i).step now w.memory) w.memory m es s') :
      Changed x w (.member i) es
        { w with memory := m, point := .running index { g with members := g.members.set i s' } }
  | conductor {index now : Nat} {g : Group} {s' : Strand Conductor.Point Unit} {m : Memory}
      {es : List Event} (hp : w.point = .running index g)
      (ha : g.conductor.Advanced ((x.conductor g.iteration).step now w.memory) w.memory m es s') :
      Changed x w .conductor es
        { w with memory := m, point := .running index { g with conductor := s' } }
  | settle {index : Nat} {g : Group} (hp : w.point = .running index g) (he : g.hasEnded = true) :
      Changed x w .caller [] (x.settle w index g)
  | checkInterrupted {c : Iteration} {e : Failure} (hp : w.point = .checkInterrupted c e) :
      Changed x w .caller []
        { w with point := .checkFailed c (if w.memory.isInterrupted c then .interrupted else e) }
  | abandon {c : Iteration} {e : Failure} (hp : w.point = .checkFailed c e)
      (hf : w.memory.hasFailed c = true) :
      Changed x w .caller [.noted (.trialFailed x.trial.benchmark.label e)]
        { w with point := clearSite (.failed e) }
  | clean {c : Iteration} {e : Failure} (hp : w.point = .checkFailed c e)
      (hf : w.memory.hasFailed c = false) :
      Changed x w .caller [] { w with point := .cleaning c e ⟨.point .look, false⟩ }
  | cleaning {c : Iteration} {e : Failure} {now : Nat} {s s' : Strand Release.Point Unit}
      {m : Memory} {es : List Event} (hp : w.point = .cleaning c e s)
      (ha : s.Advanced ((x.giveBack c).step now w.memory) w.memory m es s')
      (hs : s'.outcome? = none) :
      Changed x w .caller es { w with memory := m, point := .cleaning c e s' }
  | cleaned {c : Iteration} {e e' : Failure} {now : Nat} {s s' : Strand Release.Point Unit}
      {m : Memory} {es : List Event} {r : Outcome Unit} (hp : w.point = .cleaning c e s)
      (ha : s.Advanced ((x.giveBack c).step now w.memory) w.memory m es s')
      (hs : s'.outcome? = some r) (hr : r = .ok () ∧ e' = e ∨ r = .failed e') :
      Changed x w .caller (es ++ [.noted (.trialFailed x.trial.benchmark.label e')])
        { w with memory := m, point := clearSite (.failed e') }
  | cleanupCrashed {c : Iteration} {e : Failure} {now : Nat} {s s' : Strand Release.Point Unit}
      {m : Memory} {es : List Event} {text : String} (hp : w.point = .cleaning c e s)
      (ha : s.Advanced ((x.giveBack c).step now w.memory) w.memory m es s')
      (hs : s'.outcome? = some (.crashed text)) :
      Changed x w .caller es { w with memory := m, point := .ended (.crashed text) }
  | clearing {r : Outcome Summary} {s s' : Strand Clear.Point Unit} {m : Memory} {es : List Event}
      (hp : w.point = .clearing r s)
      (ha : s.Advanced ((Clear.mk x.site).step w.memory) w.memory m es s') :
      Changed x w .caller es
        { w with memory := m, point := if s'.stand.hasEnded then .ended r else .clearing r s' }

section
variable {x : Execution} {w w' : World} {now : Nat} {reply : Reply} {es : List Event}

theorem changed_of_advanceMember {i : Nat} (h : x.advanceMember i now reply w = some (w', es)) :
    Changed x w (.member i) es w' := by
  unfold advanceMember at h
  cases hp : w.point with
  | running index g =>
    cases hi : g.members[i]? with
    | none => simp [hp, hi] at h
    | some s =>
      simp only [hp, hi] at h
      split at h
      · cases h
      · rename_i m es' s' ha
        cases h
        exact .member hp hi (Strand.advanced_of_advance ha)
  | _ => simp [hp] at h

theorem changed_of_advanceConductor (h : x.advanceConductor now reply w = some (w', es)) :
    Changed x w .conductor es w' := by
  unfold advanceConductor at h
  cases hp : w.point with
  | running index g =>
    simp only [hp] at h
    split at h
    · cases h
    · rename_i m es' s' ha
      cases h
      exact .conductor hp (Strand.advanced_of_advance ha)
  | _ => simp [hp] at h

theorem changed_of_advanceCaller (h : x.advanceCaller now reply w = some (w', es)) :
    Changed x w .caller es w' := by
  unfold advanceCaller at h
  cases hp : w.point with
  | launch index mask =>
    simp only [hp] at h
    cases h
    exact .launch hp
  | running index g =>
    simp only [hp] at h
    split at h
    · rename_i he
      cases h
      exact .settle hp he
    · cases h
  | checkInterrupted c e =>
    simp only [hp] at h
    cases h
    exact .checkInterrupted hp
  | checkFailed c e =>
    simp only [hp] at h
    split at h
    · rename_i hf
      cases h
      exact .abandon hp hf
    · rename_i hf
      cases h
      exact .clean hp (by simpa using hf)
  | cleaning c e s =>
    simp only [hp] at h
    split at h
    · cases h
    · rename_i m es' s' ha
      have ha := Strand.advanced_of_advance ha
      split at h
      · rename_i hs
        cases h
        exact .cleaning hp ha hs
      · rename_i hs
        cases h
        exact .cleaned hp ha hs (.inl ⟨rfl, rfl⟩)
      · rename_i hs
        cases h
        exact .cleaned hp ha hs (.inr rfl)
      · rename_i hs
        cases h
        exact .cleanupCrashed hp ha hs
  | clearing r s =>
    simp only [hp] at h
    split at h
    · cases h
    · rename_i m es' s' ha
      cases h
      exact .clearing hp (Strand.advanced_of_advance ha)
  | ended r => simp [hp] at h

theorem changed_of_advance {who : Actor} (h : x.advance who now reply w = some (w', es)) :
    Changed x w who es w' := by
  cases who with
  | caller => exact changed_of_advanceCaller h
  | conductor => exact changed_of_advanceConductor h
  | member i => exact changed_of_advanceMember h

end

theorem start_point (x : Execution) (m : Memory) :
    (x.start m).point = .launch 0 0 ∨ (x.start m).point = .ended (.crashed groupMessage) := by
  unfold start
  by_cases hd : x.threads.val % x.trial.subgroups.val = 0
  · exact .inl (if_pos hd)
  · exact .inr (if_neg hd)

/-- What holds at the start and is kept by every step holds of every run. -/
theorem Run.induct {x : Execution} {m : Memory} {P : List Entry → World → Prop}
    (start : P [] (x.start m))
    (step : ∀ {h w who es w'}, Run x m h w → P h w → Changed x w who es w' →
      P (h ++ es.map (w.entry who)) w')
    {h : List Entry} {w : World} (hr : Run x m h w) : P h w := by
  induction hr with
  | start => exact start
  | step hr ha ih => exact step hr ih (changed_of_advance ha)

/-- The worlds that a run has passed, and the one it has reached, which is the last of them. -/
inductive Trail (x : Execution) (m : Memory) : List World → World → Prop where
  | start : Trail x m [x.start m] (x.start m)
  | step {trail : List World} {w w' : World} {who : Actor} {now : Nat} {reply : Reply}
      {es : List Event} (ht : Trail x m trail w)
      (ha : x.advance who now reply w = some (w', es)) : Trail x m (trail ++ [w']) w'

theorem Trail.induct {x : Execution} {m : Memory} {P : List World → World → Prop}
    (start : P [x.start m] (x.start m))
    (step : ∀ {trail w who es w'}, Trail x m trail w → P trail w → Changed x w who es w' →
      P (trail ++ [w']) w')
    {trail : List World} {w : World} (ht : Trail x m trail w) : P trail w := by
  induction ht with
  | start => exact start
  | step ht ha ih => exact step ht ih (changed_of_advance ha)

theorem Run.trail {x : Execution} {m : Memory} {h : List Entry} {w : World} (hr : x.Run m h w) :
    ∃ trail, x.Trail m trail w := by
  induction hr with
  | start => exact ⟨_, .start⟩
  | step hr ha ih =>
    obtain ⟨trail, ht⟩ := ih
    exact ⟨_, ht.step ha⟩

/-- Lets some actors take a step each, one after the other, and passes over those that have none. -/
def play (x : Execution) : List (Actor × Nat × Reply) → World → List Entry × World
  | [], w => ([], w)
  | (who, now, reply) :: rest, w =>
    match x.advance who now reply w with
    | none => play x rest w
    | some (w', es) => (es.map (w.entry who) ++ (play x rest w').1, (play x rest w').2)

theorem Run.play {x : Execution} {m : Memory} {h : List Entry} {w : World} (hr : x.Run m h w)
    (steps : List (Actor × Nat × Reply)) :
    x.Run m (h ++ (x.play steps w).1) (x.play steps w).2 := by
  induction steps generalizing h w with
  | nil => simpa [Execution.play] using hr
  | cons s rest ih =>
    obtain ⟨who, now, reply⟩ := s
    unfold Execution.play
    split
    · exact ih hr
    · rename_i ha
      rw [← List.append_assoc]
      exact ih (.step hr ha)

theorem run_play (x : Execution) (m : Memory) (steps : List (Actor × Nat × Reply)) :
    x.Run m (x.play steps (x.start m)).1 (x.play steps (x.start m)).2 := Run.start.play steps

def World.running? (w : World) : Option (Nat × Group) :=
  match w.point with
  | .running index g => some (index, g)
  | _ => none

theorem World.point_of_running? {w : World} {index : Nat} {g : Group}
    (h : w.running? = some (index, g)) :
    w.point = .running index g := by
  unfold running? at h
  split at h
  · rename_i hp
    cases h
    exact hp
  · cases h

/-- Two threads and one short measured iteration. -/
def duet : Execution where
  trial := { Trial.standard "bench" "fixture" with
    warmups := 0, measurements := .one, duration := .ofNanos 0 }
  site := ⟨0, "fixture", 0⟩
  threads := ⟨2, by decide, by decide⟩
  flag := 0
  base := 0

/-- In every round the caller, both members and the conductor of a duet take a step; every call
gets the same reply. -/
def rounds (n : Nat) (reply : Reply) : List (Actor × Nat × Reply) :=
  (List.range n).flatMap fun k =>
    [(.caller, k, reply), (.member 0, k, reply), (.member 1, k, reply), (.conductor, k, reply)]

end Execution
end LoadBench
