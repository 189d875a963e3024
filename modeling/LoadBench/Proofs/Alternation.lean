import LoadBench.Proofs.Errand

/-!
# One ready flag behind two gates

The two stages of a level have different gates, yet their hooks never run at the same time and take
turns in succeeding. No lock gives this. Whoever is past the look at the ready flag found that its
stage is due, and owns its gate; the flag can only be turned by an owner whose own stage is due, and
of two opposite stages only one is due at a time.
-/

namespace LoadBench

def Direction.opposite : Direction → Direction
  | setUp => tearDown
  | tearDown => setUp

/-- Each direction is followed by the other one, and the first is `d`. -/
def Alternates (d : Direction) : List Direction → Prop
  | [] => True
  | e :: rest => e = d ∧ Alternates d.opposite rest

/-- The direction that comes next after some in alternation, of which `d` was the first. -/
def upNext (d : Direction) : List Direction → Direction
  | [] => d
  | _ :: rest => upNext d.opposite rest

theorem upNext_append (d e : Direction) (l : List Direction) :
    upNext d (l ++ [e]) = (upNext d l).opposite := by
  induction l generalizing d with
  | nil => rfl
  | cons x rest ih => exact ih d.opposite

theorem Alternates.append {d e : Direction} {l : List Direction} (h : Alternates d l)
    (he : e = upNext d l) :
    Alternates d (l ++ [e]) := by
  induction l generalizing d with
  | nil => exact ⟨he, trivial⟩
  | cons x rest ih => exact ⟨h.1, ih h.2 he⟩

/-- Where only one direction occurs, it occurs at most once. -/
theorem Alternates.length_le_one {d e : Direction} {l : List Direction} (h : Alternates d l)
    (he : ∀ x ∈ l, x = e) : l.length ≤ 1 := by
  match l, h with
  | [], _ => exact Nat.zero_le 1
  | [_], _ => exact Nat.le_refl 1
  | x :: y :: _, ⟨hx, hy, _⟩ =>
    have hxy : x = y := (he x (by simp)).trans (he y (by simp)).symm
    subst hy hx
    cases x <;> cases hxy

namespace Memory

/-- The direction in which a level of a fixture can go. -/
def due (m : Memory) (f : Nat) (l : Level) : Direction :=
  bif m.isReady f ⟨l, .setUp⟩ then .tearDown else .setUp

theorem due_iff {m : Memory} {f : Nat} {s : Stage} :
    m.isReady f s ≠ s.isSetUp ↔ s.direction = m.due f s.level := by
  obtain ⟨l, d⟩ := s
  rw [due, show m.isReady f ⟨l, d⟩ = m.isReady f ⟨l, .setUp⟩ from rfl, Stage.isSetUp]
  cases m.isReady f ⟨l, .setUp⟩ <;> cases d <;> simp

theorem due_setReady (m : Memory) (f : Nat) (s : Stage) (l : Level) :
    (m.setReady f s s.isSetUp).due f l = if l = s.level then s.direction.opposite
      else m.due f l := by
  obtain ⟨k, d⟩ := s
  rw [due, isReady_setReady]
  by_cases hl : l = k
  · cases d <;> simp [hl, Stage.isSetUp, Direction.opposite]
  · simp [hl, due]

theorem due_congr {m m' : Memory} {f : Nat} (h : ∀ s, m'.isReady f s = m.isReady f s) (l : Level) :
    m'.due f l = m.due f l := by rw [due, h, due]

end Memory

namespace Errand
open Pool

/-- Past the look at the ready flag, which showed that the stage is due. -/
def isPastLook : Turn.Point → Bool
  | .hook | .condemn _ | .commit => true
  | _ => false

theorem isOwner_of_isPastLook {q : Turn.Point} (h : isPastLook q = true) : q.isOwner = true := by
  cases q <;> first | rfl | cases h

/-- Gates are taken by their owners, and whoever is past the look at the flag of a fixture
has a stage that is due. -/
structure Sound (f : Nat) (m : Memory) (l : List (Strand Point Unit)) : Prop where
  kept : ∀ s, Kept (m.gate f s).isActive (owns f s) l
  due : ∀ {i : Nat} {u : Strand Point Unit} {t q}, l[i]? = some u → turn? u.stand = some (t, q) →
    t.fixture = f → isPastLook q = true →
    t.stage.direction = m.due f t.stage.level
  once : ∀ {i : Nat} {u : Strand Point Unit} {t q}, l[i]? = some u → turn? u.stand = some (t, q) →
    t.fixture = f → t.stage ≠ ⟨.trial, .setUp⟩

section
variable {f i j : Nat} {m m' : Memory} {l : List (Strand Point Unit)}
  {u v : Strand Point Unit} {t t' : Turn} {q q' : Turn.Point}

/-- At each level, one at most is past the look. -/
theorem Sound.unique (h : Sound f m l) (hi : l[i]? = some u) (hu : turn? u.stand = some (t, q))
    (hq : isPastLook q = true) (hj : l[j]? = some v) (hv : turn? v.stand = some (t', q'))
    (hq' : isPastLook q' = true) (hf : t.fixture = f) (hf' : t'.fixture = f)
    (hl : t.stage.level = t'.stage.level) : i = j := by
  have hd : t.stage.direction = t'.stage.direction :=
    (h.due hi hu hf hq).trans (hl ▸ (h.due hj hv hf' hq').symm)
  have hs : t.stage = t'.stage := by
    obtain ⟨_, _, _, ⟨_, _⟩⟩ := t
    obtain ⟨_, _, _, ⟨_, _⟩⟩ := t'
    simp_all
  refine (h.kept t.stage).unique hi ?_ hj ?_
  · rw [owns_of_turn hu, Turn.owns, isOwner_of_isPastLook hq]
    simp [hf]
  · rw [owns_of_turn hv, Turn.owns, isOwner_of_isPastLook hq']
    simp [hf', hs]

theorem Sound.set (h : Sound f m l) (hi : l[i]? = some u)
    (hk : ∀ s, (m'.gate f s).isActive.toNat + (owns f s u.stand).toNat =
      (m.gate f s).isActive.toNat + (owns f s v.stand).toNat)
    (hd : ∀ {j : Nat} {u : Strand Point Unit} {t q}, i ≠ j → l[j]? = some u →
      turn? u.stand = some (t, q) →
      t.fixture = f → isPastLook q = true → m'.due f t.stage.level = m.due f t.stage.level)
    (hv : ∀ {t q}, turn? v.stand = some (t, q) → t.fixture = f →
      (isPastLook q = true → t.stage.direction = m'.due f t.stage.level) ∧
        t.stage ≠ ⟨.trial, .setUp⟩) :
    Sound f m' (l.set i v) where
  kept s := (h.kept s).set hi (hk s)
  due := by
    intro j x t q hj hx hf hq
    rcases getElem?_set_eq_some hj with ⟨rfl, rfl⟩ | ⟨hij, hj⟩
    · exact (hv hx hf).1 hq
    · exact (h.due hj hx hf hq).trans (hd hij hj hx hf hq).symm
  once := by
    intro j x t q hj hx hf
    rcases getElem?_set_eq_some hj with ⟨rfl, rfl⟩ | ⟨hij, hj⟩
    · exact (hv hx hf).2
    · exact h.once hj hx hf

/-- Within a turn, only the look at the flag leads past it. -/
theorem due_of_step {x : Stand Turn.Point Unit} (h : t.Step m q m' x) {q' : Turn.Point}
    (hx : x = .point q') (hq' : isPastLook q' = true) (hq : q ≠ .hook) :
    t.stage.direction = m'.due t.fixture t.stage.level := by
  subst hx
  cases h with
  | due hs => exact Memory.due_iff.mp hs
  | returned | mishap => exact absurd rfl hq
  | _ => cases hq'

theorem Sound.turn (h : Sound f m l) (hi : l[i]? = some u) (hu : turn? u.stand = some (t, q))
    (hq : q ≠ .hook) {x : Stand Turn.Point Unit} (ht : t.Step m q m' x)
    (hv : turn? v.stand = inTurnAt t x) :
    Sound f m' (l.set i v) := by
  refine h.set hi (fun s => ?_) ?_ ?_
  · have hx : owns f s v.stand = x.isAt (t.owns f s) := by
      cases x with
      | point q' => exact owns_of_turn hv f s
      | ended r => exact owns_of_none hv f s
    have ho := owns_of_turn hu f s
    rw [hx, ho]
    exact ht.gate f s fun e => (h.kept s).taken_of hi (ho.trans e)
  · intro j y t' q' hij hj hy hf' hq'
    by_cases hc : q = .commit
    · -- the only one past the look at this level commits, so the other one is at another level
      subst hc
      cases ht
      by_cases hf : t.fixture = f
      · subst hf
        rw [Memory.due_setReady, if_neg]
        exact fun hl => hij (h.unique hi hu rfl hj hy hq' rfl hf' hl.symm)
      · unfold Memory.due Memory.isReady
        rw [Memory.fixture_setReady_ne _ _ _ (Ne.symm hf)]
    · exact Memory.due_congr (ht.isReady hc f) _
  · intro t' q' hv' hf'
    cases x with
    | ended r => cases hv.symm.trans hv'
    | point x =>
      cases hv.symm.trans hv'
      subst hf'
      exact ⟨fun hq' => due_of_step ht rfl hq' hq, h.once hi hu rfl⟩

theorem Sound.stay (h : Sound f m l) (hi : l[i]? = some u) (hu : turn? u.stand = some (t, q))
    (hv : turn? v.stand = some (t, q')) (ho : q'.isOwner = q.isOwner)
    (hp : isPastLook q' = true → isPastLook q = true) : Sound f m (l.set i v) := by
  refine h.set hi (fun s => ?_) (fun _ _ _ _ _ => rfl) ?_
  · rw [owns_of_turn hu, owns_of_turn hv, Turn.owns, Turn.owns, ho]
  · intro t'' q'' hv' hf
    cases hv.symm.trans hv'
    exact ⟨fun hq => h.due hi hu hf (hp hq), h.once hi hu hf⟩

theorem Sound.aside (h : Sound f m l) (hi : l[i]? = some u) (hu : turn? u.stand = none)
    (hm : m'.fixtures = m.fixtures)
    (hv : turn? v.stand = none ∨ ∃ t, t.stage = ⟨.trial, .tearDown⟩ ∧
      turn? v.stand = some (t, .enter)) :
    Sound f m' (l.set i v) := by
  have hx : m'.fixture f = m.fixture f := by rw [Memory.fixture, hm]; rfl
  have hd : ∀ k, m'.due f k = m.due f k := fun k => by rw [Memory.due, Memory.isReady, hx]; rfl
  refine h.set hi (fun s => ?_) (fun _ _ _ _ _ => hd _) ?_
  · have hv : owns f s v.stand = false := by
      rcases hv with hv | ⟨t, _, hv⟩
      · exact owns_of_none hv f s
      · rw [owns_of_turn hv, Turn.owns]
        simp [Turn.Point.isOwner]
    rw [owns_of_none hu, hv, Memory.gate, hx]
    rfl
  · intro t q hv' hf
    rcases hv with hv | ⟨t', ht', hv⟩
    · cases hv.symm.trans hv'
    · cases hv.symm.trans hv'
      exact ⟨by rintro ⟨⟩, by rw [ht']; rintro ⟨⟩⟩

def IsCommitting (f : Nat) (k : Level) (u : Stand Point Unit) : Prop :=
  ∃ t, turn? u = some (t, .commit) ∧ t.fixture = f ∧ t.stage.level = k

/-- The directions in which a level has gone so far alternate; the next one is the one that is due,
or the other one while the flag is behind. -/
structure Recorded (f : Nat) (k : Level) (d : Direction) (tally : List Direction) (m : Memory)
    (l : List (Strand Point Unit)) : Prop where
  alternates : Alternates d tally
  behind : ∀ {i : Nat} {u : Strand Point Unit}, l[i]? = some u → IsCommitting f k u.stand →
    upNext d tally = (m.due f k).opposite
  current : (∀ {i : Nat} {u : Strand Point Unit}, l[i]? = some u → ¬ IsCommitting f k u.stand) →
    upNext d tally = m.due f k

variable {k : Level} {d : Direction} {tally : List Direction}

theorem not_committing {w : Stand Point Unit} (hw : turn? w = some (t, q)) (hq : q ≠ .commit) :
    ¬ IsCommitting f k w := by
  rintro ⟨t', ht', _⟩
  cases hw.symm.trans ht'
  exact hq rfl

theorem not_committing_of_none {w : Stand Point Unit} (hw : turn? w = none) :
    ¬ IsCommitting f k w := by
  rintro ⟨t', ht', _⟩
  cases hw.symm.trans ht'

theorem Recorded.still (h : Recorded f k d tally m l) (hi : l[i]? = some u)
    (hu : ¬ IsCommitting f k u.stand) (hv : ¬ IsCommitting f k v.stand)
    (hd : m'.due f k = m.due f k) : Recorded f k d tally m' (l.set i v) where
  alternates := h.alternates
  behind := by
    intro j x hj hx
    rcases getElem?_set_eq_some hj with ⟨rfl, rfl⟩ | ⟨_, hj⟩
    · exact absurd hx hv
    · rw [hd]
      exact h.behind hj hx
  current hn := by
    rw [hd]
    refine h.current fun {j x} hj hx => ?_
    have hij : i ≠ j := by
      rintro rfl
      cases hi.symm.trans hj
      exact hu hx
    exact hn (by rw [List.getElem?_set_ne hij]; exact hj) hx

theorem Recorded.returned (h : Recorded f k d tally m l) (hs : Sound f m l) (hi : l[i]? = some u)
    (hu : turn? u.stand = some (t, .hook)) (hv : turn? v.stand = some (t, .commit))
    (hf : t.fixture = f) (hk : t.stage.level = k) :
    Recorded f k d (tally ++ [t.stage.direction]) m (l.set i v) := by
  have hdue : t.stage.direction = m.due f k := hk ▸ hs.due hi hu hf rfl
  have hnext : upNext d tally = m.due f k := by
    refine h.current fun {j x} hj hx => ?_
    obtain ⟨t', ht', hf', hk'⟩ := hx
    cases hs.unique hi hu rfl hj ht' rfl hf hf' (hk.trans hk'.symm)
    cases hi.symm.trans hj
    cases hu.symm.trans ht'
  have hlt : i < l.length := (List.getElem?_eq_some_iff.mp hi).1
  refine ⟨h.alternates.append (hdue.trans hnext.symm), fun _ _ => ?_, fun hn => ?_⟩
  · rw [upNext_append, hnext]
  · exact absurd ⟨t, hv, hf, hk⟩ (hn (List.getElem?_set_self hlt))

theorem Recorded.commit (h : Recorded f k d tally m l) (hs : Sound f m l) (hi : l[i]? = some u)
    (hu : turn? u.stand = some (t, .commit)) (hv : turn? v.stand = some (t, .leave (.ok ()))) :
    Recorded f k d tally (m.setReady t.fixture t.stage t.stage.isSetUp) (l.set i v) := by
  have hvc : ¬ IsCommitting f k v.stand := not_committing hv nofun
  by_cases hc : t.fixture = f ∧ t.stage.level = k
  · obtain ⟨rfl, rfl⟩ := hc
    have hnext := h.behind hi ⟨t, hu, rfl, rfl⟩
    refine ⟨h.alternates, fun {j x} hj hx => ?_, fun _ => ?_⟩
    · -- nobody else is past the look at this level
      rcases getElem?_set_eq_some hj with ⟨rfl, rfl⟩ | ⟨hij, hj⟩
      · exact absurd hx hvc
      · obtain ⟨t', ht', hf', hk'⟩ := hx
        exact absurd (hs.unique hi hu rfl hj ht' rfl rfl hf' hk'.symm) hij
    · rw [Memory.due_setReady, if_pos rfl, hnext, hs.due hi hu rfl rfl]
  · refine h.still hi ?_ hvc ?_
    · rintro ⟨t', ht', hf', hk'⟩
      cases hu.symm.trans ht'
      exact hc ⟨hf', hk'⟩
    · by_cases hf : t.fixture = f
      · subst hf
        rw [Memory.due_setReady, if_neg fun e => hc ⟨rfl, e.symm⟩]
      · unfold Memory.due Memory.isReady
        rw [Memory.fixture_setReady_ne _ _ _ (Ne.symm hf)]

end

/-! ### Runs -/

def success? (f : Nat) (k : Level) (e : Pool.Entry Point) : Option Direction :=
  match e.point.turn?, e.event with
  | some (t, .hook), .answered _ (.returned _) =>
    if t.fixture = f ∧ t.stage.level = k then some t.stage.direction else none
  | _, _ => none

/-- The directions of the successful hooks of a level, in order. -/
def successes (f : Nat) (k : Level) (h : List (Pool.Entry Point)) : List Direction :=
  h.filterMap (success? f k)

/-- A hook of a level is running: it was called and has not answered yet. -/
def InProgress (f : Nat) (k : Level) (w : Pool Point Unit) (i : Nat) : Prop :=
  ∃ p t, w.strands[i]? = some ⟨.point p, true⟩ ∧ p.turn? = some (t, .hook) ∧ t.fixture = f ∧
    t.stage.level = k

section
variable {f n : Nat} {m₀ : Memory} {others : Memory → Memory → Prop}
  {h es : List (Pool.Entry Point)} {w w' : Pool Point Unit} {k : Level} {d : Direction}
  {tally : List Direction}

theorem successes_of_not_hook {p : Point} (hp : ∀ t, p.turn? ≠ some (t, .hook)) (i : Nat)
    (es : List Event) :
    successes f k (es.map fun e => ⟨i, p, e⟩) = [] := by
  refine List.filterMap_eq_nil_iff.mpr ?_
  intro e he
  obtain ⟨e, _, rfl⟩ := List.mem_map.mp he
  unfold success?
  split
  · rename_i t _ _ ht _
    exact absurd ht (hp t)
  · rfl

theorem successes_returned {p : Point} {t : Turn} (hp : p.turn? = some (t, .hook)) (i : Nat)
    (q : Request) (v : Nat) :
    successes f k [⟨i, p, .answered q (.returned v)⟩] =
      if t.fixture = f ∧ t.stage.level = k then [t.stage.direction] else [] := by
  by_cases hc : t.fixture = f ∧ t.stage.level = k <;> simp [successes, success?, hp, hc]

theorem successes_called {p : Point} {t : Turn} (hp : p.turn? = some (t, .hook)) (i : Nat)
    (q : Request) :
    successes f k [⟨i, p, .called q⟩] = [] := by simp [successes, success?, hp]

theorem successes_mishap {p : Point} {t : Turn} (hp : p.turn? = some (t, .hook)) (i : Nat)
    (q : Request) {r : Reply} (hr : ∀ v, r ≠ .returned v) :
    successes f k [⟨i, p, .answered q r⟩] = [] := by
  cases r with
  | returned v => exact absurd rfl (hr v)
  | refused problem | crashed text => simp [successes, success?, hp]

theorem tearDown_of_trial {s : Stage} (hl : s.level = .trial) (hs : s ≠ ⟨.trial, .setUp⟩) :
    s.direction = .tearDown := by
  obtain ⟨l, d⟩ := s
  cases hl
  cases d with
  | setUp => exact absurd rfl hs
  | tearDown => rfl

/-- What a step keeps of a fixture, and what it adds to the record. -/
structure Carried (f : Nat) (m m' : Memory) (l l' : List (Strand Point Unit))
    (es : List (Pool.Entry Point)) :
    Prop where
  sound : Sound f m' l'
  trial : ∀ x ∈ successes f .trial es, x = .tearDown
  recorded : ∀ {k d tally}, Recorded f k d tally m l →
    Recorded f k d (tally ++ successes f k es) m' l'

theorem carried_of_still {i : Nat} {m m' : Memory} {l : List (Strand Point Unit)}
    {u v : Strand Point Unit} (hs : Sound f m' (l.set i v)) (hi : l[i]? = some u)
    (hn : ∀ k, successes f k es = []) (hu : ∀ k, ¬ IsCommitting f k u.stand)
    (hv : ∀ k, ¬ IsCommitting f k v.stand) (hd : ∀ k, m'.due f k = m.due f k) :
    Carried f m m' l (l.set i v) es where
  sound := hs
  trial := by rw [hn]; exact nofun
  recorded hr := by
    rw [hn, List.append_nil]
    exact hr.still hi (hu _) (hv _) (hd _)

theorem Sound.step (ho : ∀ m m', others m m' → m'.fixture f = m.fixture f)
    (hs : Sound f w.memory w.strands) (hc : Changed (company others) w es w') :
    Carried f w.memory w'.memory w.strands w'.strands es := by
  cases hc with
  | @others m hm =>
    have hx := ho _ _ hm
    have hd : ∀ k, m.due f k = w.memory.due f k := fun k => by
      rw [Memory.due, Memory.isReady, hx]; rfl
    refine ⟨⟨fun s => ?_, fun hi hu hf hq => (hs.due hi hu hf hq).trans (hd _).symm,
      hs.once⟩, by rintro _ ⟨⟩,
      fun {k d tally} hr => ?_⟩
    · rw [Memory.gate, hx]
      exact hs.kept s
    · rw [show successes f k [] = [] from rfl, List.append_nil]
      exact ⟨hr.alternates, fun hi hc => (hd k).symm ▸ hr.behind hi hc,
        fun hn => (hd k).symm ▸ hr.current hn⟩
  | @step i now p b m es s hi ha =>
    cases ha with
    | @rest q k hv hq =>
      rcases step_eq_ask hv with ⟨t, _, hq', _⟩ | ⟨⟨t, p', hp⟩, _⟩
      · cases hq.symm.trans hq'
      · refine carried_of_still (hs.stay hi hp hp rfl id) hi (fun k => ?_)
          (fun k => not_committing hp (by simp)) (fun k => not_committing hp (by simp)) fun _ => rfl
        exact successes_of_not_hook (fun t' ht' => by cases hp.symm.trans ht') _ _
    | act hq he hy =>
      have hp : ∀ t, p.turn? ≠ some (t, .hook) := fun t ht => by
        cases hq.symm.trans (hook?_of_turn ht)
      have hn : ∀ k, successes f k (es.map fun e => ⟨i, p, e⟩) = [] :=
        fun k => successes_of_not_hook hp _ _
      rcases (step_of_yields hy).view with ⟨t, q, x, ht, hx, hv⟩ | ⟨ht, hm, hv⟩
      · have hqh : q ≠ .hook := by
          rintro rfl
          exact hp t ht
        by_cases hqc : q = .commit
        · subst hqc
          refine ⟨hs.turn hi ht hqh hx hv, by rw [hn]; simp, fun hr => ?_⟩
          rw [hn, List.append_nil]
          cases hx
          exact hr.commit hs hi ht hv
        · refine carried_of_still (hs.turn hi ht hqh hx hv) hi hn
            (fun k => not_committing ht hqc) (fun k => ?_) (Memory.due_congr (hx.isReady hqc f))
          cases x with
          | ended r => exact not_committing_of_none hv
          | point q' =>
            refine not_committing hv ?_
            rintro rfl
            cases hx
            exact hqh rfl
      · refine carried_of_still (hs.aside hi ht hm hv) hi hn
          (fun k => not_committing_of_none ht) (fun k => ?_)
          fun k => by rw [Memory.due, Memory.isReady, Memory.fixture, hm]; rfl
        rcases hv with hv | ⟨t, _, hv⟩
        · exact not_committing_of_none hv
        · exact not_committing hv (by simp)
    | @call q k o hv hq hb =>
      rcases step_eq_ask hv with ⟨t, hp, _⟩ | ⟨_, hq'⟩
      · exact carried_of_still (hs.stay hi hp hp rfl id) hi (fun k => successes_called hp _ _)
          (fun k => not_committing hp (by simp)) (fun k => not_committing hp (by simp)) fun _ => rfl
      · cases hq.symm.trans hq'
    | @reply q k o r hv hq hb =>
      rcases step_eq_ask hv with ⟨t, hp, _, rfl⟩ | ⟨_, hq'⟩
      · have hp' := turn?_goTo (r := Turn.afterHook r) hp
        have hsound :
            Sound f w.memory (w.strands.set i ⟨.point (p.goTo (Turn.afterHook r)), false⟩) :=
          hs.stay hi hp hp' (by cases r <;> rfl) fun _ => rfl
        cases r with
        | returned v =>
          refine ⟨hsound, fun x hx => ?_, fun {k d tally} hr => ?_⟩
          · rw [List.map_singleton, successes_returned hp] at hx
            split at hx
            · rename_i hc
              cases List.mem_singleton.mp hx
              exact tearDown_of_trial hc.2 (hs.once hi hp hc.1)
            · cases hx
          · rw [List.map_singleton, successes_returned hp]
            split
            · rename_i hc
              exact hr.returned hs hi hp hp' hc.1 hc.2
            · rename_i hc
              rw [List.append_nil]
              refine hr.still hi (not_committing hp (by simp)) ?_ rfl
              rintro ⟨t', ht', hf, hk⟩
              cases hp'.symm.trans ht'
              exact hc ⟨hf, hk⟩
        | refused problem | crashed text =>
          exact carried_of_still hsound hi (fun k => successes_mishap hp _ _ (by simp))
            (fun k => not_committing hp (by simp))
            (fun k => not_committing hp' (by rintro ⟨⟩)) fun _ => rfl
      · cases hq.symm.trans hq'

theorem start_of_gather {errands : Nat → Errand} {i : Nat} {u : Strand Point Unit} {t : Turn}
    {q : Turn.Point} (hi : (gather n (fun i => (errands i).start) m₀).strands[i]? = some u)
    (hu : turn? u.stand = some (t, q)) :
    errands i = .turn t ∧ q = .enter := by
  cases getElem?_gather hi
  cases he : errands i with
  | turn t' =>
    simp only [he, start] at hu
    cases hu
    exact ⟨rfl, rfl⟩
  | release a =>
    simp only [he, start] at hu
    cases hu

theorem Sound.of_gather {errands : Nat → Errand} (hg : ∀ s, m₀.gate f s = .idle)
    (hs : ∀ i t, errands i = .turn t → t.fixture = f → t.stage ≠ ⟨.trial, .setUp⟩) :
    Sound f m₀ (gather n (fun i => (errands i).start) m₀).strands := by
  refine ⟨fun s => ?_, fun hi hu _ hq => ?_, fun hi hu hf => hs _ _ (start_of_gather hi hu).1 hf⟩
  · rw [hg]
    refine .of_none fun u hu => ?_
    obtain ⟨i, hi⟩ := List.mem_iff_getElem?.mp hu
    cases hx : turn? u.stand with
    | none => exact owns_of_none hx f s
    | some x =>
      obtain ⟨t, q⟩ := x
      rw [owns_of_turn hx, (start_of_gather hi hx).2]
      simp [Turn.owns, Turn.Point.isOwner]
  · rw [(start_of_gather hi hu).2] at hq
    cases hq

/-- What the errands of a pool keep to at a fixture. -/
structure Discipline (f : Nat) (m₀ : Memory) (h : List (Pool.Entry Point)) (w : Pool Point Unit) :
    Prop where
  /-- At each level, one hook at most is running. -/
  exclusive : ∀ {k i j}, InProgress f k w i → InProgress f k w j → i = j
  /-- The successful hooks of a level alternate, beginning with the one that
  was due at the start. -/
  alternates : ∀ k, Alternates (m₀.due f k) (successes f k h)
  /-- The cleanup succeeds at most once. -/
  cleanedOnce : (successes f .trial h).length ≤ 1

theorem hooks_alternate {errands : Nat → Errand} (hg : ∀ s, m₀.gate f s = .idle)
    (hs : ∀ i t, errands i = .turn t → t.fixture = f → t.stage ≠ ⟨.trial, .setUp⟩)
    (ho : ∀ m m', others m m' → m'.fixture f = m.fixture f)
    (hr : Run (company others) (gather n (fun i => (errands i).start) m₀) h w) :
    Discipline f m₀ h w := by
  have key : Sound f w.memory w.strands ∧ (∀ x ∈ successes f .trial h, x = .tearDown) ∧
      ∀ k, Recorded f k (m₀.due f k) (successes f k h) w.memory w.strands := by
    refine hr.induct (P := fun h w => Sound f w.memory w.strands ∧
      (∀ x ∈ successes f .trial h, x = .tearDown) ∧
      ∀ k, Recorded f k (m₀.due f k) (successes f k h) w.memory w.strands) ?_ ?_
    · refine ⟨.of_gather hg hs, nofun, fun k => ⟨trivial, fun {i u} hi hc => ?_, fun _ => rfl⟩⟩
      obtain ⟨t, ht, _⟩ := hc
      cases (start_of_gather hi ht).2
    · intro h w es w' _ ⟨hsound, htrial, hrec⟩ hc
      have hk := hsound.step ho hc
      refine ⟨hk.sound, fun x hx => ?_, fun k => ?_⟩
      · rw [successes, List.filterMap_append, List.mem_append] at hx
        exact hx.elim (htrial x) (hk.trial x)
      · rw [successes, List.filterMap_append]
        exact hk.recorded (hrec k)
  obtain ⟨hsound, htrial, hrec⟩ := key
  refine ⟨?_, fun k => (hrec k).alternates, (hrec .trial).alternates.length_le_one htrial⟩
  rintro k i j ⟨p, t, hi, hp, hf, hk⟩ ⟨p', t', hj, hp', hf', hk'⟩
  exact hsound.unique hi hp rfl hj hp' rfl hf hf' (hk.trans hk'.symm)

/-- The iteration level of the duet's first fixture is set up, and taken down again. -/
def thereAndBack (i : Nat) : Errand :=
  .turn ⟨Execution.duet.iteration 0 0, Execution.duet.site, 0,
    if i = 0 then ⟨.iteration, .setUp⟩ else ⟨.iteration, .tearDown⟩⟩

theorem hooks_alternate_twice :
    let m₀ := ({} : Memory).publish Execution.duet.site 5
    let run := (gather 2 (fun i => (thereAndBack i).start) m₀).play (company fun m m' => m' = m)
      ((List.range 14).map fun k => (k / 7, k, .returned 0))
    successes 0 .iteration run.1 = [.setUp, .tearDown] ∧ Discipline 0 m₀ run.1 run.2 := by
  intro m₀ run
  have hs : ∀ i t, thereAndBack i = .turn t → t.fixture = 0 → t.stage ≠ ⟨.trial, .setUp⟩ := by
    intro i t hi _
    cases hi
    split <;> exact nofun
  refine ⟨by decide +kernel, hooks_alternate ?_ hs ?_ (run_play ..)⟩
  · intro s
    rcases s with ⟨_ | _ | _, _ | _⟩ <;> rfl
  · rintro m _ rfl
    rfl

end
end Errand
end LoadBench
