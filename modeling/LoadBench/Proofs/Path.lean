import LoadBench.Proofs.Pool

/-!
# Runs step by step

The history of a run lists what is seen of hooks, workload and sleeps; most steps leave no entry in
it. A path lists every step: whose it was, from which point it was taken and what was seen of it. So
it tells how many steps an operation has taken, and what it did between two of its calls.
-/

namespace LoadBench

/-- Whatever a step can do, some reply leads to it. -/
theorem Strand.exists_reply {σ α : Type} {s s' : Strand σ α} {move : σ → Move Memory σ α}
    {m m' : Memory} {es : List Event} (h : Advanced move m s m' es s') :
    ∃ reply, s.advance move m reply = some (m', es, s') := by
  cases h with
  | act hp hv => exact ⟨.returned 0, by simp [advance, hp, hv]⟩
  | call hp hv hc => exact ⟨.returned 0, by simp [advance, hp, hv, hc]⟩
  | @reply p q k r hp hv hc hr => exact ⟨r, by simp [advance, hp, hv, hc, hr]⟩

namespace Pool
variable {σ α : Type}

/-- A step of an operation: of which one, from where, and what was seen of it. -/
structure Stride (σ : Type) where
  who : Nat
  point : σ
  events : List Event

def own (i : Nat) (l : List (Stride σ)) : List (Stride σ) := l.filter fun s => s.who = i

def seen (i : Nat) (l : List (Stride σ)) : List Event := (own i l).flatMap Stride.events

/-- The steps taken so far, and the pool that they have led to. -/
inductive Path (c : Company σ α) (w₀ : Pool σ α) : List (Stride σ) → Pool σ α → Prop where
  | start : Path c w₀ [] w₀
  | step {l : List (Stride σ)} {w : Pool σ α} {i now : Nat} {p : σ} {b : Bool}
      {reply : Reply} {m : Memory} {es : List Event} {s : Strand σ α} (hp : Path c w₀ l w)
      (hi : w.strands[i]? = some ⟨.point p, b⟩)
      (ha : Strand.advance ⟨.point p, b⟩ (c.move i now w.memory) w.memory reply = some (m, es, s)) :
      Path c w₀ (l ++ [⟨i, p, es⟩]) ⟨m, w.strands.set i s⟩
  | others {l : List (Stride σ)} {w : Pool σ α} {m : Memory} (hp : Path c w₀ l w)
      (ho : c.others w.memory m) : Path c w₀ l ⟨m, w.strands⟩

inductive Stepped (c : Company σ α) (w : Pool σ α) : List (Stride σ) → Pool σ α → Prop where
  | step {i now : Nat} {p : σ} {b : Bool} {m : Memory} {es : List Event} {s : Strand σ α}
      (hi : w.strands[i]? = some ⟨.point p, b⟩)
      (ha : Strand.Advanced (c.move i now w.memory) w.memory ⟨.point p, b⟩ m es s) :
      Stepped c w [⟨i, p, es⟩] ⟨m, w.strands.set i s⟩
  | others {m : Memory} (ho : c.others w.memory m) : Stepped c w [] ⟨m, w.strands⟩

section
variable {c : Company σ α} {w w₀ w' : Pool σ α} {l l' : List (Stride σ)}

namespace Path

theorem induct {P : List (Stride σ) → Pool σ α → Prop} (start : P [] w₀)
    (step : ∀ {l w x w'}, Path c w₀ l w → P l w → Stepped c w x w' → P (l ++ x) w')
    (hp : Path c w₀ l w) :
    P l w := by
  induction hp with
  | start => exact start
  | step hp hi ha ih => exact step hp ih (.step hi (Strand.advanced_of_advance ha))
  | @others l w m hp ho ih => simpa using step hp ih (.others ho)

theorem trans (hp : Path c w₀ l w) (hp' : Path c w l' w') : Path c w₀ (l ++ l') w' := by
  induction hp' with
  | start => simpa using hp
  | step _ hi ha ih =>
    rw [← List.append_assoc]
    exact .step ih hi ha
  | others _ ho ih => exact .others ih ho

theorem stepped {x : List (Stride σ)} (hp : Path c w₀ l w) (hs : Stepped c w x w') :
    Path c w₀ (l ++ x) w' := by
  cases hs with
  | step hi ha =>
    obtain ⟨reply, hr⟩ := Strand.exists_reply ha
    exact .step hp hi hr
  | others ho =>
    rw [List.append_nil]
    exact .others hp ho

theorem length (hp : Path c w₀ l w) : w.strands.length = w₀.strands.length := by
  refine hp.induct (P := fun _ w => w.strands.length = w₀.strands.length) rfl ?_
  intro l w x w' _ hl hs
  cases hs with
  | step hi ha => simpa using hl
  | others ho => exact hl

end Path

/-- Lets some operations take a step each, one after the other, and passes over
those that have none. -/
def walk (c : Company σ α) : List (Nat × Nat × Reply) → Pool σ α → List (Stride σ) × Pool σ α
  | [], w => ([], w)
  | (i, now, reply) :: rest, w =>
    match w.strands[i]? with
    | some ⟨.point p, b⟩ =>
      match Strand.advance ⟨.point p, b⟩ (c.move i now w.memory) w.memory reply with
      | some (m, es, s) =>
        (⟨i, p, es⟩ :: (walk c rest ⟨m, w.strands.set i s⟩).1,
          (walk c rest ⟨m, w.strands.set i s⟩).2)
      | none => walk c rest w
    | _ => walk c rest w

theorem Path.walk (hp : Path c w₀ l w) (steps : List (Nat × Nat × Reply)) :
    Path c w₀ (l ++ (w.walk c steps).1) (w.walk c steps).2 := by
  induction steps generalizing l w with
  | nil => simpa [Pool.walk] using hp
  | cons x rest ih =>
    obtain ⟨i, now, reply⟩ := x
    unfold Pool.walk
    split
    · rename_i hi
      split
      · rename_i ha
        have := ih (.step hp hi ha)
        rwa [List.append_assoc] at this
      · exact ih hp
    · exact ih hp

theorem path_walk (c : Company σ α) (w₀ : Pool σ α) (steps : List (Nat × Nat × Reply)) :
    Path c w₀ (w₀.walk c steps).1 (w₀.walk c steps).2 := Path.start.walk steps

def stands (w : Pool σ α) : List (Stand σ α) := w.strands.map Strand.stand

theorem stands_gather {n : Nat} {start : Nat → σ} {m : Memory} :
    (gather n start m : Pool σ α).stands = (List.range n).map fun i => .point (start i) := by
  simp [stands, gather]

theorem getElem?_stands {i : Nat} {s : Strand σ α} (hi : w.strands[i]? = some s) :
    w.stands[i]? = some s.stand := by simp [stands, hi]

end
end Pool

def Pass.company (passes : Nat → Pass) (others : Memory → Memory → Prop) :
    Company Pass.Point Report where
  move i now m p := (passes i).step now m p
  others := others

end LoadBench
