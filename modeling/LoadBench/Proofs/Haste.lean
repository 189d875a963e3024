import LoadBench.Proofs.Operation

/-!
# Giving up

What is left of an operation that begins when its trial is failing already. A `Haste` says where
such an operation can stand, how it may end, and how many steps and sleeps it has before it at most;
`Haste.Keeps` that a move stays within that: nothing is called but a sleep, and nothing becomes
ready or unready. The haste of a whole is put together from that of its parts.
-/

namespace LoadBench

def Event.isSleep : Event → Bool
  | .called (.sleep _) => true
  | _ => false

structure Haste (σ α : Type) where
  stands : σ → Prop
  ends : Outcome α → Prop
  steps : σ → Nat
  naps : σ → Nat
  /-- The operation sleeps next. -/
  dozes : σ → Bool

namespace Haste
variable {σ τ α β : Type} {m : Memory} {p : σ}

structure Keeps (h : Haste σ α) (m : Memory) (p : σ) (v : Move Memory σ α) : Prop where
  quiet : ∀ q k, v = .ask q k → ∃ d, q = .sleep d
  dozes : v.request?.isSome = h.dozes p
  awake : (h.dozes p).toNat ≤ h.naps p
  ready : ∀ {m' t}, v.Yields m m' t → ∀ f s, m'.isReady f s = m.isReady f s
  onward : ∀ {m' t}, v.Yields m m' t →
    t.Meets (fun q => h.stands q ∧ h.steps q < h.steps p ∧
      h.naps q + (h.dozes p).toNat ≤ h.naps p) h.ends

theorem request?_andThen {v : Move Memory σ α} {embed : σ → τ} {onward : Outcome α → Stand τ β} :
    (v.andThen embed onward).request? = v.request? := by
  cases v <;> rfl

theorem Keeps.act {h : Haste σ α} {m' : Memory} {notes : List Note} {t : Stand σ α}
    (hd : h.dozes p = false) (hr : ∀ f s, m'.isReady f s = m.isReady f s)
    (ht : t.Meets (fun q => h.stands q ∧ h.steps q < h.steps p ∧ h.naps q ≤ h.naps p) h.ends) :
    h.Keeps m p (.act m' notes t) where
  quiet := nofun
  dozes := hd.symm
  awake := by simp [hd]
  ready := by
    rintro m' t ⟨rfl, rfl⟩
    exact hr
  onward := by
    rintro m' t ⟨rfl, rfl⟩
    simpa [hd] using ht

theorem Keeps.blocked {h : Haste σ α} (hd : h.dozes p = false) : h.Keeps m p .blocked where
  quiet := nofun
  dozes := hd.symm
  awake := by simp [hd]
  ready := False.elim
  onward := False.elim

theorem Keeps.andThen {h : Haste σ α} {h' : Haste τ β} {v : Move Memory σ α} (hk : h.Keeps m p v)
    {embed : σ → τ} {onward : Outcome α → Stand τ β} {n : Nat}
    (hstands : ∀ q, h.stands q → h'.stands (embed q)) (hsteps : ∀ q, h.steps q < h.steps p →
      h'.steps (embed q) < h'.steps (embed p))
    (hnaps : ∀ q, h'.naps (embed q) = n + h.naps q) (hdozes : h'.dozes (embed p) = h.dozes p)
    (hends : ∀ o, h.ends o →
      (onward o).Meets (fun q => h'.stands q ∧ h'.steps q < h'.steps (embed p) ∧
        h'.naps q ≤ n) h'.ends) :
    h'.Keeps m (embed p) (v.andThen embed onward) where
  quiet := by
    intro q k hq
    obtain ⟨k', hv, -⟩ := Move.andThen_eq_ask hq
    exact hk.quiet q k' hv
  dozes := by rw [request?_andThen, hdozes, hk.dozes]
  awake := by
    have hawake := hk.awake
    rw [hdozes, hnaps]
    omega
  ready := by
    intro m' t ht
    obtain ⟨u, hu, -⟩ := Move.yields_andThen.mp ht
    exact hk.ready hu
  onward := by
    intro m' t ht
    obtain ⟨u, hu, rfl⟩ := Move.yields_andThen.mp ht
    have hu := hk.onward hu
    have hawake := hk.awake
    rw [hdozes, hnaps]
    cases u with
    | point q =>
      obtain ⟨hq, hs, hn⟩ := hu
      refine ⟨hstands q hq, hsteps q hs, ?_⟩
      rw [hnaps]
      omega
    | ended o =>
      have ho := hends o hu
      rw [Stand.andThen_ended]
      cases ht : onward o with
      | point q =>
        rw [ht] at ho
        obtain ⟨hq, hs, hn⟩ := ho
        exact ⟨hq, hs, by omega⟩
      | ended o' =>
        rw [ht] at ho
        exact ho

/-! ### Along the steps of an operation -/

variable {h : Haste σ α} {move : σ → Move Memory σ α} {m' : Memory} {b : Bool} {es : List Event}
  {t : Stand σ α} {s : Strand σ α} {p₀ : σ} {k n : Nat}

/-- How many sleeps an operation has before it at most, apart from the one that it is in. -/
def napsLeft (h : Haste σ α) (s : Strand σ α) : Nat :=
  match s.stand with
  | .point p => h.naps p - s.calling.toNat
  | .ended _ => 0

/-- An operation that has taken `k` steps from `p₀` and has slept `n` times. -/
structure Hurries (h : Haste σ α) (p₀ : σ) (k n : Nat) (s : Strand σ α) : Prop where
  meets : s.stand.Meets h.stands h.ends
  asleep : s.calling = true → s.stand.isAt h.dozes = true
  steps : k + s.rank h.steps ≤ 2 * h.steps p₀ + 2
  naps : n + h.napsLeft s ≤ h.naps p₀

theorem hurries_start (hp : h.stands p) : h.Hurries p 0 0 ⟨.point p, false⟩ where
  meets := hp
  asleep := nofun
  steps := by simp [Strand.rank]
  naps := by simp [napsLeft]

/-- Where a step leads that does not begin a sleep, there is less before the operation. -/
theorem Hurries.onward (hs : h.Hurries p₀ k n ⟨.point p, b⟩) (hk : h.Keeps m p (move p))
    (hb : b = h.dozes p) (ht : (move p).Yields m m' t) : h.Hurries p₀ (k + 1) n ⟨t, false⟩ := by
  have hsteps : k + (2 * h.steps p + 2 - b.toNat) ≤ 2 * h.steps p₀ + 2 := hs.steps
  have hnaps : n + (h.naps p - b.toNat) ≤ h.naps p₀ := hs.naps
  have hle := b.toNat_le
  have ht := hk.onward ht
  cases t with
  | point q =>
    obtain ⟨hq, hlt, hn⟩ := ht
    rw [← hb] at hn
    refine ⟨hq, nofun, ?_, ?_⟩
    · change k + 1 + (2 * h.steps q + 2 - 0) ≤ _
      omega
    · change n + (h.naps q - 0) ≤ _
      omega
  | ended o =>
    refine ⟨ht, nofun, ?_, ?_⟩
    · change k + 1 + 0 ≤ _
      omega
    · change n + 0 ≤ _
      omega

theorem Hurries.advanced (hs : h.Hurries p₀ k n ⟨.point p, b⟩) (hk : h.Keeps m p (move p))
    (ha : Strand.Advanced move m ⟨.point p, b⟩ m' es s) :
    h.Hurries p₀ (k + 1) (n + es.countP Event.isSleep) s := by
  have hd := hk.dozes
  cases ha with
  | @act p m' notes t hp hv =>
    cases hp
    have hes : (notes.map Event.noted).countP Event.isSleep = 0 := by
      simp [List.countP_eq_zero, Event.isSleep]
    rw [hes]
    refine hs.onward hk ?_ (by rw [hv]; exact ⟨rfl, rfl⟩)
    -- whoever acts is not asleep
    rw [hv] at hd
    cases b with
    | false => exact hd
    | true => exact (hs.asleep rfl).symm
  | @call p q r hp hv hc =>
    cases hp
    cases hc
    obtain ⟨d, rfl⟩ := hk.quiet q r hv
    rw [hv] at hd
    -- the sleep that begins is counted now, and no longer among those to come
    have hsteps : k + (2 * h.steps p + 2 - 0) ≤ 2 * h.steps p₀ + 2 := hs.steps
    have hnaps : n + (h.naps p - 0) ≤ h.naps p₀ := hs.naps
    have hawake := hk.awake
    rw [← hd] at hawake
    refine ⟨hs.meets, fun _ => hd.symm, ?_, ?_⟩
    · change k + 1 + (2 * h.steps p + 2 - 1) ≤ _
      omega
    · change n + 1 + (h.naps p - 1) ≤ _
      have : 1 ≤ h.naps p := hawake
      omega
  | @reply p q r reply hp hv hc hr =>
    cases hp
    cases hc
    rw [hv] at hd
    exact hs.onward hk hd (by rw [hv]; exact ⟨rfl, _, hr, rfl⟩)

theorem Keeps.isQuiet (hk : h.Keeps m p (move p))
    (ha : Strand.Advanced move m ⟨.point p, b⟩ m' es s) :
    ∀ e ∈ es, e.isQuiet = true := by
  intro e he
  cases ha with
  | act =>
    obtain ⟨x, -, rfl⟩ := List.mem_map.mp he
    rfl
  | call hp hv | reply hp hv =>
    cases hp
    cases List.mem_singleton.mp he
    obtain ⟨d, rfl⟩ := hk.quiet _ _ hv
    rfl

theorem Keeps.isReady (hk : h.Keeps m p (move p))
    (ha : Strand.Advanced move m ⟨.point p, b⟩ m' es s) (f : Nat) (r : Stage) :
    m'.isReady f r = m.isReady f r := by
  rcases ha.yields with ⟨rfl, -⟩ | ⟨q, hq, hy⟩
  · rfl
  · cases hq
    exact hk.ready hy f r

end Haste

/-! ### The parts -/

variable {now : Nat} {m : Memory}

def Wait.haste : Haste Wait.Point Unit where
  stands
    | .checkInterrupted .. => False
    | _ => True
  ends o := o = .ok () ∨ o = .failed .aborted
  steps
    | .poll .. => 3
    | .doze .. => 2
    | .checkFailed .. => 1
    | .checkInterrupted .. => 0
  naps
    | .poll .. | .doze .. => 1
    | _ => 0
  dozes
    | .doze .. => true
    | _ => false

theorem Wait.hasty {w : Wait} {p : Wait.Point} (hf : m.hasFailed w.iteration = true)
    (hp : haste.stands p) :
    haste.Keeps m p (w.step now m p) := by
  cases p with
  | poll n d =>
    simp only [step]
    split
    · exact .act rfl (fun _ _ => rfl) ⟨trivial, by simp [haste], by simp [haste]⟩
    · exact .act rfl (fun _ _ => rfl) (.inl rfl)
  | doze n d =>
    refine ⟨fun q k hq => ?_, rfl, by simp [haste], ?_, ?_⟩
    · cases hq
      exact ⟨d, rfl⟩
    · rintro m' t ⟨rfl, -⟩
      exact fun _ _ => rfl
    · rintro m' t ⟨rfl, r, -, rfl⟩
      exact ⟨trivial, by simp [haste], by simp [haste]⟩
  | checkFailed n d =>
    simp only [step, hf, if_true]
    exact .act rfl (fun _ _ => rfl) (.inr rfl)
  | checkInterrupted => exact hp.elim

def Idling.haste : Haste Idling.Point Unit where
  stands
    | .waiting p => Wait.haste.stands p
    | .checkFailed => True
  ends o := o = .failed .aborted
  steps
    | .waiting p => Wait.haste.steps p + 1
    | .checkFailed => 0
  naps
    | .waiting p => Wait.haste.naps p
    | .checkFailed => 0
  dozes
    | .waiting p => Wait.haste.dozes p
    | .checkFailed => false

theorem Idling.hasty {i : Idling} {p : Idling.Point} (hf : m.hasFailed i.iteration = true)
    (hp : haste.stands p) :
    haste.Keeps m p (i.step now m p) := by
  cases p with
  | waiting p =>
    refine (Wait.hasty (w := i.wait) hf hp).andThen (n := 0) (fun _ => id)
      (fun _ => Nat.succ_lt_succ) (fun _ => (Nat.zero_add _).symm) rfl fun o ho => ?_
    rcases ho with rfl | rfl
    · exact ⟨trivial, Nat.succ_pos _, Nat.le_refl 0⟩
    · rfl
  | checkFailed =>
    simp only [step, hf, if_true]
    exact .act rfl (fun _ _ => rfl) rfl

def Turn.haste : Haste Turn.Point Unit where
  stands
    | .enter | .checkFailed => True
    | .queued p => Idling.haste.stands p
    | .leave r => r = .failed .aborted
    | _ => False
  ends o := o = .failed .aborted
  steps
    | .enter => 5
    | .queued p => Idling.haste.steps p
    | .checkFailed => 1
    | _ => 0
  naps
    | .enter => 1
    | .queued p => Idling.haste.naps p
    | _ => 0
  dozes
    | .queued p => Idling.haste.dozes p
    | _ => false

theorem Turn.hasty {t : Turn} {p : Turn.Point} (hf : m.hasFailed t.iteration = true)
    (hp : haste.stands p) :
    haste.Keeps m p (t.step now m p) := by
  cases p with
  | enter =>
    cases hg : m.gate t.fixture t.stage with
    | idle =>
      simp only [step, hg, Gate.enter?]
      exact .act rfl (fun _ _ => Memory.isReady_setGate ..) ⟨trivial, by decide, by decide⟩
    | active =>
      simp only [step, hg, Gate.enter?]
      exact .act rfl (fun _ _ => rfl) ⟨trivial, Nat.lt_succ_self 4, Nat.le_refl 1⟩
  | queued p =>
    refine (Idling.hasty (i := t.idling) hf hp).andThen (n := 0) (fun _ => id) (fun _ => id)
      (fun _ => (Nat.zero_add _).symm) rfl fun o ho => ?_
    exact ho
  | checkFailed =>
    simp only [step, hf, if_true]
    exact .act rfl (fun _ _ => rfl) ⟨rfl, by decide, by decide⟩
  | leave r => exact .act rfl (fun _ _ => Memory.isReady_setGate ..) hp
  | checkReady | hook | condemn | commit => exact hp.elim

/-- Whoever wants a fixture gets the one that is live, or nothing. -/
def Acquire.haste : Haste Acquire.Point Nat where
  stands
    | .look | .enter | .recheck | .checkFailed => True
    | .leave r => r = .failed .aborted ∨ ∃ f, r = .ok f
    | _ => False
  ends o := o = .failed .aborted ∨ ∃ f, o = .ok f
  steps
    | .look => 4
    | .enter => 3
    | .recheck => 2
    | .checkFailed => 1
    | _ => 0
  naps _ := 0
  dozes _ := false

theorem Acquire.hasty {a : Acquire} {p : Acquire.Point} (hf : m.hasFailed a.iteration = true)
    (hp : haste.stands p) : haste.Keeps m p (a.step m p) := by
  cases p with
  | look =>
    cases hl : m.live? a.site with
    | some f =>
      simp only [step, hl]
      exact .act rfl (fun _ _ => rfl) (.inr ⟨f, rfl⟩)
    | none =>
      simp only [step, hl]
      exact .act rfl (fun _ _ => rfl) ⟨trivial, by decide, by decide⟩
  | enter =>
    simp only [step]
    split
    · exact .blocked rfl
    · exact .act rfl (fun _ _ => rfl) ⟨trivial, by decide, by decide⟩
  | recheck =>
    cases hl : m.live? a.site with
    | some f =>
      simp only [step, hl]
      exact .act rfl (fun _ _ => rfl) ⟨.inr ⟨f, rfl⟩, by simp [haste], by simp [haste]⟩
    | none =>
      simp only [step, hl]
      exact .act rfl (fun _ _ => rfl) ⟨trivial, by decide, by decide⟩
  | checkFailed =>
    simp only [step, hf, if_true]
    exact .act rfl (fun _ _ => rfl) ⟨.inl rfl, by decide, by decide⟩
  | leave r => exact .act rfl (fun _ _ => rfl) hp
  | construct | setUp | publish | condemn => exact hp.elim

def Clear.haste : Haste Clear.Point Unit where
  stands _ := True
  ends o := o = .ok ()
  steps
    | .enter => 2
    | .store => 1
    | .leave => 0
  naps _ := 0
  dozes _ := false

theorem Clear.hasty {c : Clear} {p : Clear.Point} : haste.Keeps m p (c.step m p) := by
  cases p with
  | enter =>
    simp only [step]
    split
    · exact .blocked rfl
    · exact .act rfl (fun _ _ => rfl) ⟨trivial, by decide, by decide⟩
  | store => exact .act rfl (fun _ _ => rfl) ⟨trivial, by decide, by decide⟩
  | leave => exact .act rfl (fun _ _ => rfl) rfl

def Release.haste : Haste Release.Point Unit where
  stands
    | .look | .checkFailed => True
    | .cleaning _ p => Turn.haste.stands p
    | .clearing r _ => r = .failed .aborted
  ends o := o = .failed .aborted
  steps
    | .look => 9
    | .cleaning _ p => 3 + Turn.haste.steps p
    | .checkFailed => 3
    | .clearing _ p => Clear.haste.steps p
  naps
    | .look => 1
    | .cleaning _ p => Turn.haste.naps p
    | _ => 0
  dozes
    | .cleaning _ p => Turn.haste.dozes p
    | _ => false

theorem Release.hasty {a : Release} {p : Release.Point} (hf : m.hasFailed a.iteration = true)
    (hp : haste.stands p) : haste.Keeps m p (a.step now m p) := by
  cases p with
  | look =>
    cases hl : m.live? a.site with
    | some f =>
      simp only [step, hl]
      exact .act rfl (fun _ _ => rfl)
        ⟨trivial, by simp [haste, Turn.haste], by simp [haste, Turn.haste]⟩
    | none =>
      simp only [step, hl]
      exact .act rfl (fun _ _ => rfl) ⟨trivial, by decide, by decide⟩
  | cleaning f p =>
    refine (Turn.hasty (t := a.turn f) hf hp).andThen (n := 0) (fun _ => id)
      (fun _ h => Nat.add_lt_add_left h 3) (fun _ => (Nat.zero_add _).symm) rfl fun o ho => ?_
    obtain rfl := ho
    exact ⟨rfl, Nat.lt_add_right _ (by decide : 2 < 3), Nat.le_refl 0⟩
  | checkFailed =>
    simp only [step, hf, if_true]
    exact .act rfl (fun _ _ => rfl) ⟨rfl, by decide, by decide⟩
  | clearing r p =>
    have hr : r = .failed .aborted := hp
    refine Clear.hasty.andThen (n := 0) (fun _ _ => hr) (fun _ => id)
      (fun _ => rfl) rfl fun o ho => ?_
    exact hr

def Arrival.haste : Haste Arrival.Point Unit where
  stands
    | .announce => True
    | .waiting p => Wait.haste.stands p
  ends o := o = .ok () ∨ o = .failed .aborted
  steps
    | .announce => 4
    | .waiting p => Wait.haste.steps p
  naps
    | .announce => 1
    | .waiting p => Wait.haste.naps p
  dozes
    | .announce => false
    | .waiting p => Wait.haste.dozes p

theorem Arrival.hasty {a : Arrival} {p : Arrival.Point} (hf : m.hasFailed a.iteration = true)
    (hp : haste.stands p) : haste.Keeps m p (a.step now m p) := by
  cases p with
  | announce => exact .act rfl (fun _ _ => rfl) ⟨trivial, Nat.lt_succ_self 3, Nat.le_refl 1⟩
  | waiting p =>
    refine (Wait.hasty (w := a.wait) hf hp).andThen (n := 0) (fun _ => id) (fun _ => id)
      (fun _ => (Nat.zero_add _).symm) rfl fun o ho => ?_
    exact ho

/-- Why a pass does not go on in a trial that is failing. -/
def Pass.refusal (a : Pass) : Failure :=
  if a.seat.subgroup = 0 then .aborted else .subgroupWithoutRole a.seat.subgroup

def Pass.haste (a : Pass) : Haste Pass.Point Report where
  stands
    | .begin => True
    | .reject => a.seat.subgroup ≠ 0
    | .acquire p => a.seat.subgroup = 0 ∧ Acquire.haste.stands p
    | .arrive _ p => a.seat.subgroup = 0 ∧ Arrival.haste.stands p
    | .setUp _ p => a.seat.subgroup = 0 ∧ Turn.haste.stands p
    | .fail _ e => e = a.refusal
    | _ => False
  ends o := o = .failed a.refusal
  steps
    | .begin => 17
    | .reject => 1
    | .acquire p => 12 + Acquire.haste.steps p
    | .arrive _ p => 7 + Arrival.haste.steps p
    | .setUp _ p => 1 + Turn.haste.steps p
    | _ => 0
  naps
    | .begin | .acquire _ => 2
    | .arrive _ p => 1 + Arrival.haste.naps p
    | .setUp _ p => Turn.haste.naps p
    | _ => 0
  dozes
    | .arrive _ p => Arrival.haste.dozes p
    | .setUp _ p => Turn.haste.dozes p
    | _ => false

theorem Pass.hasty {a : Pass} {p : Pass.Point} (hf : m.hasFailed a.iteration = true)
    (hp : a.haste.stands p) :
    a.haste.Keeps m p (a.step now m p) := by
  have aborted (hs : a.seat.subgroup = 0) : Failure.aborted = a.refusal := (if_pos hs).symm
  cases p with
  | begin =>
    simp only [step]
    split
    · exact .act rfl (fun _ _ => rfl)
        ⟨⟨‹_›, trivial⟩, by simp [haste, Acquire.haste], by simp [haste]⟩
    · exact .act rfl (fun _ _ => rfl) ⟨‹_›, by simp [haste], by simp [haste]⟩
  | reject => exact .act rfl (fun _ _ => rfl) ⟨(if_neg hp).symm, Nat.one_pos, Nat.le_refl 0⟩
  | acquire p =>
    obtain ⟨hs, hp⟩ := hp
    refine (Acquire.hasty (a := a.acquisition) hf hp).andThen (n := 2) (fun _ h => ⟨hs, h⟩)
      (fun _ h => Nat.add_lt_add_left h 12) (fun _ => rfl) rfl fun o ho => ?_
    rcases ho with rfl | ⟨f, rfl⟩
    · exact ⟨aborted hs, Nat.lt_add_right _ (by decide : 0 < 12), by simp [haste]⟩
    · exact ⟨⟨hs, trivial⟩,
        Nat.lt_add_right _ (by decide : 11 < 12), by simp [haste, Arrival.haste]⟩
  | arrive f p =>
    obtain ⟨hs, hp⟩ := hp
    refine (Arrival.hasty (a := a.arrival .setUp) hf hp).andThen (n := 1) (fun _ h => ⟨hs, h⟩)
      (fun _ h => Nat.add_lt_add_left h 7) (fun _ => rfl) rfl fun o ho => ?_
    rcases ho with rfl | rfl
    · exact ⟨⟨hs, trivial⟩, Nat.lt_add_right _ (by decide : 6 < 7), by simp [haste, Turn.haste]⟩
    · exact ⟨aborted hs, Nat.lt_add_right _ (by decide : 0 < 7), by simp [haste]⟩
  | setUp f p =>
    obtain ⟨hs, hp⟩ := hp
    refine (Turn.hasty (t := a.turn f ⟨.iteration, .setUp⟩) hf hp).andThen (n := 0)
      (fun _ h => ⟨hs, h⟩)
      (fun _ h => Nat.add_lt_add_left h 1) (fun _ => (Nat.zero_add _).symm) rfl fun o ho => ?_
    obtain rfl := ho
    exact ⟨aborted hs, Nat.lt_add_right _ Nat.one_pos, Nat.le_refl 0⟩
  | fail phase e =>
    have he : e = a.refusal := hp
    subst he
    exact .act rfl (fun _ _ => rfl) rfl
  | _ => exact hp.elim

end LoadBench
