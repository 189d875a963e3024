import LoadBench.Proofs.Transition

/-!
# Operations side by side

A pool is any number of operations on one shared memory. They take their steps in any order, and
between two of them somebody else may change the memory, as far as the company of the pool allows.
An operation performed from inside a hook is one more operation of the pool, which takes its steps
while another one waits for the hook to return. `Pool.Changed` says once what a step of a pool
can do; facts about runs are inductions whose step is a case analysis on it.
-/

namespace LoadBench

def Mishap.reply : Mishap → Reply
  | .refused problem => .refused problem
  | .crashed text => .crashed text

@[simp] theorem Mishap.reply_ne_returned (x : Mishap) (v : Nat) : x.reply ≠ .returned v := by
  cases x <;> exact nofun

@[simp] theorem Mishap.reply_inj {x y : Mishap} : x.reply = y.reply ↔ x = y := by
  cases x <;> cases y <;> simp [reply]

theorem Reply.returned_or (r : Reply) : (∃ v, r = .returned v) ∨ ∃ x : Mishap, r = x.reply := by
  cases r with
  | returned v => exact .inl ⟨v, rfl⟩
  | refused problem => exact .inr ⟨.refused problem, rfl⟩
  | crashed text => exact .inr ⟨.crashed text, rfl⟩

/-- The hook that an event is about, and its reply once it has one. -/
def Event.hook? : Event → Option (Hook × Option Reply)
  | .noted _ => none
  | .called q => q.hook?.map (·, none)
  | .answered q r => q.hook?.map (·, some r)

def Move.hook? {μ σ α : Type} (v : Move μ σ α) : Option Hook := v.request?.bind Request.hook?

/-- What the operations of a pool do, each known by its number, and what others may do meanwhile. -/
structure Company (σ α : Type) where
  move : Nat → Nat → Memory → σ → Move Memory σ α
  others : Memory → Memory → Prop

namespace Strand
variable {σ α : Type}

/-- The steps of an operation, sorted by what is seen of hooks: nothing, as it falls asleep or acts,
or else the beginning of a call or its end. -/
inductive Played (move : σ → Move Memory σ α) (m : Memory) (p : σ) (calling : Bool) :
    Memory → List Event → Strand σ α → Prop where
  | rest {q : Request} {k : Reply → Stand σ α} (hv : move p = .ask q k) (hq : q.hook? = none) :
      Played move m p calling m [.called q] ⟨.point p, true⟩
  | act {m' : Memory} {es : List Event} {t : Stand σ α} (hq : (move p).hook? = none)
      (he : ∀ e ∈ es, e.hook? = none)
      (hy : (move p).Yields m m' t) : Played move m p calling m' es ⟨t, false⟩
  | call {q : Request} {k : Reply → Stand σ α} {o : Hook} (hv : move p = .ask q k)
      (hq : q.hook? = some o) (hc : calling = false) :
      Played move m p calling m [.called q] ⟨.point p, true⟩
  | reply {q : Request} {k : Reply → Stand σ α} {o : Hook} {r : Reply} (hv : move p = .ask q k)
      (hq : q.hook? = some o) (hc : calling = true) :
      Played move m p calling m [.answered q r] ⟨k r, false⟩

theorem played_of_advanced {move : σ → Move Memory σ α} {m m' : Memory} {p : σ} {b : Bool}
    {es : List Event} {s' : Strand σ α} (h : Advanced move m ⟨.point p, b⟩ m' es s') :
    Played move m p b m' es s' := by
  cases h with
  | act hp hv =>
    cases hp
    refine .act (by rw [hv]; rfl) (fun e he => ?_) (by rw [hv]; exact ⟨rfl, rfl⟩)
    obtain ⟨n, _, rfl⟩ := List.mem_map.mp he
    rfl
  | @call _ q _ hp hv hc =>
    cases hp
    cases hq : q.hook? with
    | some o => exact .call hv hq hc
    | none => exact .rest hv hq
  | @reply _ q _ _ hp hv hc hr =>
    cases hp
    cases hq : q.hook? with
    | some o => exact .reply hv hq hc
    | none =>
      refine .act (by rw [hv]; exact hq) (fun e he => ?_) (by rw [hv]; exact ⟨rfl, _, hr, rfl⟩)
      cases List.mem_singleton.mp he
      simp [Event.hook?, hq]

/-- How many steps an operation has before it at most, if those from point to point go down `r`:
every point takes two, one for the beginning of a call. -/
def rank (r : σ → Nat) (s : Strand σ α) : Nat :=
  match s.stand with
  | .point p => 2 * r p + 2 - s.calling.toNat
  | .ended _ => 0

theorem admits_returned (q : Request) (v : Nat) : q.Admits (.returned v) := by
  cases q <;> trivial

/-- A step lowers the rank of an operation whose steps all go down. -/
theorem Advanced.rank_lt {move : σ → Move Memory σ α} {m m' : Memory} {s s' : Strand σ α}
    {es : List Event} {r : σ → Nat} (h : s.Advanced move m m' es s')
    (hr : ∀ p m' q, s.stand = .point p → (move p).Yields m m' (.point q) → r q < r p) :
    s'.rank r < s.rank r := by
  -- where a step leads, unless it begins a call, the rank is lower by two
  have down {p : σ} {m' : Memory} {t : Stand σ α} (hp : s.stand = .point p)
      (ht : (move p).Yields m m' t) :
      Strand.rank r ⟨t, false⟩ < s.rank r := by
    have hs : 2 * r p + 1 ≤ s.rank r := by
      have := s.calling.toNat_le
      simp only [rank, hp]
      omega
    cases t with
    | ended o => exact Nat.lt_of_lt_of_le (Nat.succ_pos _) hs
    | point q =>
      have hq := hr p m' q hp ht
      change 2 * r q + 2 - 0 < _
      omega
  cases h with
  | act hp hv => exact down hp (by rw [hv]; exact ⟨rfl, rfl⟩)
  | @call p q k hp hv hc =>
    simp only [rank, hp, hc, Bool.toNat_true, Bool.toNat_false]
    omega
  | reply hp hv hc ha => exact down hp (by rw [hv]; exact ⟨rfl, _, ha, rfl⟩)

/-- An operation that is not blocked has a step, with a reply that its call can have. -/
theorem exists_advance_of_admits {move : σ → Move Memory σ α} (m : Memory) {s : Strand σ α} {p : σ}
    (hp : s.stand = .point p) (hb : move p ≠ .blocked) {r : Reply}
    (hr : ∀ q k, move p = .ask q k → q.Admits r) :
    ∃ m' es s', s.advance move m r = some (m', es, s') := by
  cases hv : move p with
  | blocked => exact absurd hv hb
  | act m' notes t => exact ⟨m', notes.map .noted, ⟨t, false⟩, by simp [advance, hp, hv]⟩
  | ask q k =>
    cases hc : s.calling with
    | false => exact ⟨m, [.called q], { s with calling := true }, by simp [advance, hp, hv, hc]⟩
    | true => exact ⟨m, [.answered q r], ⟨k r, false⟩, by simp [advance, hp, hv, hc, hr q k hv]⟩

theorem exists_advance {move : σ → Move Memory σ α} (m : Memory) {s : Strand σ α} {p : σ}
    (hp : s.stand = .point p) (hb : move p ≠ .blocked) (v : Nat) :
    ∃ m' es s', s.advance move m (.returned v) = some (m', es, s') :=
  exists_advance_of_admits m hp hb fun q _ _ => admits_returned q v

end Strand

structure Pool (σ α : Type) where
  memory : Memory
  strands : List (Strand σ α)

namespace Pool
variable {σ α : Type}

structure Entry (σ : Type) where
  who : Nat
  point : σ
  event : Event

def gather (n : Nat) (start : Nat → σ) (m : Memory) : Pool σ α :=
  ⟨m, (List.range n).map fun i => ⟨.point (start i), false⟩⟩

def outcome? (w : Pool σ α) (i : Nat) : Option (Outcome α) := w.strands[i]?.bind Strand.outcome?

def hasEnded (w : Pool σ α) : Bool := w.strands.all fun s => s.stand.hasEnded

def hooks (h : List (Entry σ)) : List (Nat × Hook × Option Reply) :=
  h.filterMap fun e => e.event.hook?.map fun x => (e.who, x)

def advance (c : Company σ α) (i now : Nat) (reply : Reply) (w : Pool σ α) :
    Option (Pool σ α × List (Entry σ)) :=
  match w.strands[i]? with
  | none | some ⟨.ended _, _⟩ => none
  | some ⟨.point p, b⟩ =>
    match Strand.advance ⟨.point p, b⟩ (c.move i now w.memory) w.memory reply with
    | none => none
    | some (m, es, s) => some (⟨m, w.strands.set i s⟩, es.map fun e => ⟨i, p, e⟩)

/-- The histories and states that a pool can reach. -/
inductive Run (c : Company σ α) (w₀ : Pool σ α) : List (Entry σ) → Pool σ α → Prop where
  | start : Run c w₀ [] w₀
  | step {h : List (Entry σ)} {w w' : Pool σ α} {i now : Nat} {reply : Reply} {es : List (Entry σ)}
      (hr : Run c w₀ h w) (ha : w.advance c i now reply = some (w', es)) : Run c w₀ (h ++ es) w'
  | others {h : List (Entry σ)} {w : Pool σ α} {m : Memory} (hr : Run c w₀ h w)
      (ho : c.others w.memory m) : Run c w₀ h ⟨m, w.strands⟩

/-- What one step can do to a pool, and what is seen of it. -/
inductive Changed (c : Company σ α) (w : Pool σ α) : List (Entry σ) → Pool σ α → Prop where
  | step {i now : Nat} {p : σ} {b : Bool} {m : Memory} {es : List Event} {s : Strand σ α}
      (hi : w.strands[i]? = some ⟨.point p, b⟩)
      (ha : Strand.Played (c.move i now w.memory) w.memory p b m es s) :
      Changed c w (es.map fun e => ⟨i, p, e⟩) ⟨m, w.strands.set i s⟩
  | others {m : Memory} (ho : c.others w.memory m) : Changed c w [] ⟨m, w.strands⟩

section
variable {c : Company σ α} {w w₀ w' : Pool σ α} {h es : List (Entry σ)} {i now : Nat}
  {reply : Reply}

theorem changed_of_advance (ha : w.advance c i now reply = some (w', es)) : Changed c w es w' := by
  unfold advance at ha
  split at ha
  · cases ha
  · cases ha
  · rename_i p b hi
    split at ha
    · cases ha
    · rename_i m events s hs
      cases ha
      exact .step hi (Strand.played_of_advanced (Strand.advanced_of_advance hs))

theorem Run.induct {P : List (Entry σ) → Pool σ α → Prop} (start : P [] w₀)
    (step : ∀ {h w es w'}, Run c w₀ h w → P h w → Changed c w es w' → P (h ++ es) w')
    (hr : Run c w₀ h w) : P h w := by
  induction hr with
  | start => exact start
  | step hr ha ih => exact step hr ih (changed_of_advance ha)
  | @others h w m hr ho ih => simpa using step hr ih (.others ho)

theorem Run.length (hr : Run c w₀ h w) : w.strands.length = w₀.strands.length := by
  refine hr.induct (P := fun _ w => w.strands.length = w₀.strands.length) rfl ?_
  intro h w es w' _ hl hc
  cases hc with
  | step hi ha => simpa using hl
  | others ho => exact hl

/-- Lets some operations take a step each, one after the other, and passes over
those that have none. -/
def play (c : Company σ α) : List (Nat × Nat × Reply) → Pool σ α → List (Entry σ) × Pool σ α
  | [], w => ([], w)
  | (i, now, reply) :: rest, w =>
    match w.advance c i now reply with
    | none => play c rest w
    | some (w', es) => (es ++ (play c rest w').1, (play c rest w').2)

theorem Run.play (hr : Run c w₀ h w) (steps : List (Nat × Nat × Reply)) :
    Run c w₀ (h ++ (w.play c steps).1) (w.play c steps).2 := by
  induction steps generalizing h w with
  | nil => simpa [Pool.play] using hr
  | cons s rest ih =>
    obtain ⟨i, now, reply⟩ := s
    unfold Pool.play
    split
    · exact ih hr
    · rename_i ha
      rw [← List.append_assoc]
      exact ih (.step hr ha)

theorem run_play (c : Company σ α) (w₀ : Pool σ α) (steps : List (Nat × Nat × Reply)) :
    Run c w₀ (w₀.play c steps).1 (w₀.play c steps).2 := Run.start.play steps

/-- Two operations take `n` steps each in turn, and every call gets the same reply. -/
def inTurn (n : Nat) (reply : Reply) : List (Nat × Nat × Reply) :=
  (List.range n).flatMap fun k => [(0, k, reply), (1, k, reply)]

@[simp] theorem hooks_nil : hooks ([] : List (Entry σ)) = [] := rfl

@[simp] theorem hooks_append (h es : List (Entry σ)) : hooks (h ++ es) = hooks h ++ hooks es :=
  List.filterMap_append ..

theorem hooks_eq_nil {es : List Event} {p : σ} (he : ∀ e ∈ es, e.hook? = none) :
    hooks (es.map fun e => (⟨i, p, e⟩ : Entry σ)) = [] := by
  refine List.filterMap_eq_nil_iff.mpr ?_
  intro e he'
  obtain ⟨e, hm, rfl⟩ := List.mem_map.mp he'
  simp [he e hm]

theorem hooks_called {q : Request} {o : Hook} (p : σ) (hq : q.hook? = some o) :
    hooks [(⟨i, p, .called q⟩ : Entry σ)] = [(i, o, none)] := by
  simp [hooks, Event.hook?, hq]

theorem hooks_answered {q : Request} {o : Hook} (p : σ) (r : Reply) (hq : q.hook? = some o) :
    hooks [(⟨i, p, .answered q r⟩ : Entry σ)] = [(i, o, some r)] := by
  simp [hooks, Event.hook?, hq]

theorem Run.lt_of_mem (hr : Run c w₀ h w) {x : Hook × Option Reply} (hx : (i, x) ∈ hooks h) :
    i < w.strands.length := by
  refine hr.induct (P := fun h w => (i, x) ∈ hooks h → i < w.strands.length) nofun ?_ hx
  intro h w es w' _ ih hc hx
  rw [hooks_append, List.mem_append] at hx
  cases hc with
  | others ho => exact ih (hx.resolve_right nofun)
  | @step k now p b m es s hi ha =>
    rw [List.length_set]
    rcases hx with hx | hx
    · exact ih hx
    · obtain ⟨e, he, hx⟩ := List.mem_filterMap.mp hx
      obtain ⟨e, _, rfl⟩ := List.mem_map.mp he
      obtain ⟨y, _, hy⟩ := Option.map_eq_some_iff.mp hx
      cases hy
      exact (List.getElem?_eq_some_iff.mp hi).1

theorem length_gather {n : Nat} {start : Nat → σ} {m : Memory} :
    (gather n start m : Pool σ α).strands.length = n := by simp [gather]

theorem getElem?_gather {n : Nat} {start : Nat → σ} {m : Memory} {j : Nat} {s : Strand σ α}
    (hj : (gather n start m).strands[j]? = some s) : s = ⟨.point (start j), false⟩ := by
  obtain ⟨hlt, hs⟩ := List.getElem?_eq_some_iff.mp hj
  simpa [gather] using hs.symm

theorem outcome?_eq_some {o : Outcome α} :
    w.outcome? i = some o ↔ ∃ b, w.strands[i]? = some ⟨.ended o, b⟩ := by
  unfold outcome?
  constructor
  · intro h
    obtain ⟨⟨t, b⟩, hi, ht⟩ := Option.bind_eq_some_iff.mp h
    cases t with
    | point p => cases ht
    | ended o' =>
      cases ht
      exact ⟨b, hi⟩
  · rintro ⟨b, hi⟩
    rw [hi]
    rfl

theorem exists_outcome (he : w.hasEnded = true) (hi : i < w.strands.length) :
    ∃ o, w.outcome? i = some o := by
  have hs := List.all_eq_true.mp he w.strands[i] (List.getElem_mem hi)
  simp only [outcome?, List.getElem?_eq_getElem hi, Option.bind_some, Strand.outcome?]
  cases ht : w.strands[i].stand with
  | point p => rw [ht] at hs; cases hs
  | ended o => exact ⟨o, rfl⟩

theorem not_ended {p : σ} {b : Bool} (hi : w.strands[i]? = some ⟨.point p, b⟩) :
    w.hasEnded = false :=
  List.all_eq_false.mpr ⟨_, List.mem_of_getElem? hi, nofun⟩

theorem exists_point (he : w.hasEnded = false) :
    ∃ (i : Nat) (p : σ) (b : Bool), w.strands[i]? = some ⟨.point p, b⟩ := by
  obtain ⟨⟨t, b⟩, hs, ht⟩ := List.all_eq_false.mp he
  obtain ⟨i, hi⟩ := List.mem_iff_getElem?.mp hs
  cases t with
  | point p => exact ⟨i, p, b, hi⟩
  | ended o => exact absurd rfl ht

def rank (r : σ → Nat) (l : List (Strand σ α)) : Nat := l.foldr (fun s n => s.rank r + n) 0

theorem rank_eq_zero {r : σ → Nat} {l : List (Strand σ α)} (h : ∀ s ∈ l, s.stand.hasEnded = true) :
    rank r l = 0 := by
  induction l with
  | nil => rfl
  | cons s rest ih =>
    have hs : s.rank r = 0 := by
      unfold Strand.rank
      cases hp : s.stand with
      | ended o => rfl
      | point p =>
        have he := h s List.mem_cons_self
        rw [hp] at he
        cases he
    change s.rank r + rank r rest = 0
    rw [hs, ih fun t ht => h t (List.mem_cons_of_mem _ ht)]

theorem rank_set_lt {r : σ → Nat} {l : List (Strand σ α)} {s s' : Strand σ α} (hi : l[i]? = some s)
    (hs : s'.rank r < s.rank r) : rank r (l.set i s') < rank r l := by
  induction l generalizing i with
  | nil => cases hi
  | cons x rest ih =>
    cases i with
    | zero =>
      cases hi
      exact Nat.add_lt_add_right hs _
    | succ i => exact Nat.add_lt_add_left (ih hi) _

/-- A pool can be brought to its end if, as long as it has not ended, there is an operation that is
not blocked and whose steps all go down. -/
theorem Run.finish (r : σ → Nat)
    (onward : ∀ {h w}, Run c w₀ h w → w.hasEnded = false →
      ∃ i p b, w.strands[i]? = some ⟨.point p, b⟩ ∧ c.move i 0 w.memory p ≠ .blocked ∧
        ∀ m q, (c.move i 0 w.memory p).Yields w.memory m (.point q) → r q < r p)
    (hr : Run c w₀ h w) : ∃ steps, (w.play c steps).2.hasEnded = true := by
  -- the induction is on the ranks together, which that operation lowers
  induction hn : rank r w.strands using Nat.strongRecOn generalizing h w with
  | ind n ih =>
    cases he : w.hasEnded with
    | true => exact ⟨[], he⟩
    | false =>
      obtain ⟨i, p, b, hi, hb, hd⟩ := onward hr he
      obtain ⟨m, es, s, hs⟩ := Strand.exists_advance (s := ⟨.point p, b⟩) w.memory rfl hb 0
      have hlt : s.rank r < Strand.rank r ⟨.point p, b⟩ := (Strand.advanced_of_advance hs).rank_lt
        fun p' m q hp => by
          cases hp
          exact hd m q
      have ha : w.advance c i 0 (.returned 0) =
          some (⟨m, w.strands.set i s⟩, es.map fun e => ⟨i, p, e⟩) := by
        simp only [advance, hi, hs]
      obtain ⟨steps, hsteps⟩ := ih _ (hn ▸ rank_set_lt hi hlt) (.step hr ha) rfl
      refine ⟨(i, 0, .returned 0) :: steps, ?_⟩
      unfold Pool.play
      rw [ha]
      exact hsteps

end

theorem two_le_countP {β : Type} {p : β → Bool} {l : List β} {i j : Nat} {a b : β}
    (hi : l[i]? = some a) (ha : p a = true) (hj : l[j]? = some b) (hb : p b = true) (hij : i ≠ j) :
    2 ≤ l.countP p := by
  induction l generalizing i j with
  | nil => cases hi
  | cons x rest ih =>
    cases i with
    | zero =>
      cases j with
      | zero => exact absurd rfl hij
      | succ j =>
        cases hi
        have : 0 < rest.countP p := List.countP_pos_iff.mpr ⟨b, List.mem_of_getElem? hj, hb⟩
        rw [List.countP_cons_of_pos ha]
        omega
    | succ i =>
      cases j with
      | zero =>
        cases hj
        have : 0 < rest.countP p := List.countP_pos_iff.mpr ⟨a, List.mem_of_getElem? hi, ha⟩
        rw [List.countP_cons_of_pos hb]
        omega
      | succ j =>
        have := ih hi hj (by omega)
        have := List.countP_cons (p := p) (a := x) (l := rest)
        omega

/-- A lock is taken by as many operations as hold it: by one, or by none. -/
def Kept (taken : Bool) (holds : Stand σ α → Bool) (l : List (Strand σ α)) : Prop :=
  l.countP (fun s => holds s.stand) = taken.toNat

namespace Kept
variable {taken taken' : Bool} {holds : Stand σ α → Bool} {l : List (Strand σ α)} {i j : Nat}
  {s s' u : Strand σ α}

theorem of_none (h : ∀ s ∈ l, holds s.stand = false) : Kept false holds l :=
  List.countP_eq_zero.mpr fun s hs => by simp [h s hs]

theorem set (hk : Kept taken holds l) (hi : l[i]? = some s)
    (h : taken'.toNat + (holds s.stand).toNat = taken.toNat + (holds s'.stand).toNat) :
    Kept taken' holds (l.set i s') := by
  obtain ⟨hlt, rfl⟩ := List.getElem?_eq_some_iff.mp hi
  have hpos : (holds l[i].stand).toNat ≤ l.countP fun s => holds s.stand := by
    cases hh : holds l[i].stand with
    | false => exact Nat.zero_le _
    | true => exact List.countP_pos_iff.mpr ⟨l[i], List.getElem_mem hlt, hh⟩
  unfold Kept at hk ⊢
  rw [List.countP_set hlt]
  cases ha : holds l[i].stand <;> cases hb : holds s'.stand <;>
    simp only [ha, hb, Bool.toNat_true, Bool.toNat_false, if_true, if_false,
      Bool.false_eq_true] at h hpos ⊢ <;>
    omega

theorem still (hk : Kept taken holds l) (hi : l[i]? = some s) (h : holds s'.stand = holds s.stand) :
    Kept taken holds (l.set i s') := hk.set hi (by rw [h])

theorem taken_of (hk : Kept taken holds l) (hi : l[i]? = some s) (hs : holds s.stand = true) :
    taken = true := by
  have hpos : 0 < l.countP fun s => holds s.stand :=
    List.countP_pos_iff.mpr ⟨s, List.mem_of_getElem? hi, hs⟩
  cases taken with
  | true => rfl
  | false =>
    rw [hk] at hpos
    cases hpos

theorem exists_holder (hk : Kept true holds l) :
    ∃ (i : Nat) (s : Strand σ α), l[i]? = some s ∧ holds s.stand = true := by
  obtain ⟨s, hs, hh⟩ := List.countP_pos_iff.mp (Nat.lt_of_lt_of_eq Nat.one_pos hk.symm)
  obtain ⟨i, hi⟩ := List.mem_iff_getElem?.mp hs
  exact ⟨i, s, hi, hh⟩

theorem unique (hk : Kept taken holds l) (hi : l[i]? = some s) (hs : holds s.stand = true)
    (hj : l[j]? = some u) (hu : holds u.stand = true) : i = j := by
  by_cases hij : i = j
  · exact hij
  · have htwo := two_le_countP (p := fun s => holds s.stand) hi hs hj hu hij
    rw [hk] at htwo
    exact absurd taken.toNat_le (Nat.not_le.mpr htwo)

end Kept
end Pool
end LoadBench
