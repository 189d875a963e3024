import LoadBench.Proofs.Errand
import LoadBench.Proofs.Journey

/-!
# Tenures

What a turn does from the moment when it enters its gate until it leaves it. Whatever the hook
replies, the gate is left, and last of all; the ready flag of the level is turned exactly if the
hook has returned; after a mishap the trial was marked failing before the gate was left; and nothing
else is touched (`Turn.tended_of_journey`). Others may do anything meanwhile but take back the
failure flag. That the flag is turned and not just written again needs that the stage is still due,
which is not up to the turn alone.
-/

namespace LoadBench

namespace Memory
variable {m : Memory} {f k : Nat} {s r : Stage}

theorem gate_setGate_ne {g : Gate} (h : ¬ (k = f ∧ r = s)) :
    (m.setGate f s g).gate k r = m.gate k r := by
  by_cases hk : k = f
  · subst hk
    rw [gate_setGate, if_neg fun hr => h ⟨rfl, hr⟩]
  · rw [gate, fixture_setGate_ne _ _ _ hk]
    rfl

theorem isReady_setReady_ne {b : Bool} (h : ¬ (k = f ∧ r.level = s.level)) :
    (m.setReady f s b).isReady k r = m.isReady k r := by
  by_cases hk : k = f
  · subst hk
    rw [isReady_setReady, if_neg fun hr => h ⟨rfl, hr⟩]
  · rw [isReady, fixture_setReady_ne _ _ _ hk]
    rfl

end Memory

namespace Turn

def reply? (l : Leg Point) : Option Reply :=
  match l.point, l.events with
  | .hook, [.answered _ r] => some r
  | _, _ => none

def replies (legs : List (Leg Point)) : List Reply := legs.filterMap reply?

def flips (t : Turn) (l : Leg Point) : Bool :=
  l.after.isReady t.fixture t.stage != l.before.isReady t.fixture t.stage

def Won (t : Turn) (legs : List (Leg Point)) : Prop :=
  ∃ l ∈ legs, l.point = .enter ∧ l.before.gate t.fixture t.stage = .idle

/-- Only the gate of the stage and the ready flag of its level are touched. -/
structure Apart (t : Turn) (l : Leg Point) : Prop where
  gate : ∀ f s, ¬ (f = t.fixture ∧ s = t.stage) → l.after.gate f s = l.before.gate f s
  isReady : ∀ f s, ¬ (f = t.fixture ∧ s.level = t.stage.level) →
    l.after.isReady f s = l.before.isReady f s

/-- How the replies of the hook, the turns of the flag and the failure flag belong together. -/
def Settles (t : Turn) (legs : List (Leg Point)) (m : Memory) : Prop :=
  replies legs = [] ∧ legs.countP t.flips = 0 ∨
    (∃ v, replies legs = [.returned v]) ∧ legs.countP t.flips = 1 ∨
      (∃ x : Mishap, replies legs = [x.reply]) ∧ legs.countP t.flips = 0 ∧
        m.hasFailed t.iteration = true

/-- A gate that was entered has been left, in good order. -/
structure Discharged (t : Turn) (legs : List (Leg Point)) : Prop where
  left : ∃ l r, legs.getLast? = some l ∧ l.point = .leave r ∧
    l.after.gate t.fixture t.stage = .idle ∧ t.Settles legs l.before

variable {t : Turn} {now : Nat} {m m' : Memory} {p : Point} {b : Bool} {es : List Event}
  {s : Strand Point Unit} {legs : List (Leg Point)} {l : Leg Point}

/-- A step begins a call, ends that of the hook, or is a transition from another point. -/
theorem leg_cases (h : Strand.Advanced (t.step now m) m ⟨.point p, b⟩ m' es s) :
    (m' = m ∧ s = ⟨.point p, true⟩ ∧ (∃ q, es = [.called q]) ∧ (p = .hook ∨ ∃ p', p = .queued p')) ∨
      (p = .hook ∧ m' = m ∧ ∃ q r, es = [.answered q r] ∧ s = ⟨.point (afterHook r), false⟩) ∨
        p ≠ .hook ∧ t.Step m p m' s.stand := by
  cases h with
  | act hp hv =>
    cases hp
    refine .inr (.inr ⟨?_, step_of_yields (by rw [hv]; exact ⟨rfl, rfl⟩)⟩)
    rintro rfl
    cases hv
  | call hp hv hc =>
    cases hp
    exact .inl ⟨rfl, rfl, ⟨_, rfl⟩, (step_eq_ask hv).imp And.left And.left⟩
  | reply hp hv hc hr =>
    cases hp
    rcases step_eq_ask hv with ⟨rfl, rfl, rfl⟩ | ⟨⟨p', rfl⟩, d, rfl⟩
    · exact .inr (.inl ⟨rfl, rfl, _, _, rfl, rfl⟩)
    · exact .inr (.inr ⟨nofun, step_of_yields (by rw [hv]; exact ⟨rfl, _, hr, rfl⟩)⟩)

theorem reply?_of_ne_hook (h : l.point ≠ .hook) : reply? l = none := by
  unfold reply?
  split
  · rename_i hp _
    exact absurd hp h
  · rfl

theorem replies_append : replies (legs ++ [l]) = replies legs ++ (reply? l).toList := by
  cases h : reply? l <;> simp [replies, h]

/-! ### What a step touches -/

theorem Apart.of_eq {p : Point} : t.Apart ⟨now, m, p, es, m⟩ := ⟨fun _ _ _ => rfl, fun _ _ _ => rfl⟩

theorem Step.apart {u : Stand Point Unit} (h : t.Step m p m' u) : t.Apart ⟨now, m, p, es, m'⟩ := by
  cases h with
  | enter | leave =>
    exact ⟨fun _ _ => Memory.gate_setGate_ne, fun _ _ _ => Memory.isReady_setGate ..⟩
  | commit => exact ⟨fun _ _ _ => Memory.gate_setReady .., fun _ _ => Memory.isReady_setReady_ne⟩
  | condemn => exact ⟨fun _ _ _ => rfl, fun _ _ _ => rfl⟩
  | _ => exact .of_eq

theorem apart_of_advanced (h : Strand.Advanced (t.step now m) m ⟨.point p, b⟩ m' es s) :
    t.Apart ⟨now, m, p, es, m'⟩ := by
  rcases leg_cases h with ⟨rfl, -, -⟩ | ⟨-, rfl, -⟩ | ⟨-, hs⟩
  · exact .of_eq
  · exact .of_eq
  · exact hs.apart

/-! ### Along a journey -/

/-- What is known of a turn where it stands, or has ended. -/
def Tended (t : Turn) (legs : List (Leg Point)) (m : Memory) : Stand Point Unit → Prop
  | .point .enter => legs = []
  | .point (.queued _) => ¬ t.Won legs
  | .point .checkFailed | .point .checkReady | .point .hook =>
    replies legs = [] ∧ legs.countP t.flips = 0
  | .point (.condemn _) => (∃ x : Mishap, replies legs = [x.reply]) ∧ legs.countP t.flips = 0
  | .point .commit => (∃ v, replies legs = [.returned v]) ∧ legs.countP t.flips = 0
  | .point (.leave _) => t.Settles legs m
  | .ended _ => t.Won legs → t.Discharged legs

theorem Settles.mono (h : t.Settles legs m) (hf : m.hasFailed t.iteration = true →
    m'.hasFailed t.iteration = true) :
    t.Settles legs m' :=
  h.imp_right fun h => h.imp_right fun h => ⟨h.1, h.2.1, hf h.2.2⟩

theorem Tended.mono {u : Stand Point Unit} (h : t.Tended legs m u)
    (hf : m.hasFailed t.iteration = true → m'.hasFailed t.iteration = true) :
    t.Tended legs m' u := by
  cases u with
  | ended r => exact h
  | point p =>
    cases p with
    | leave r => exact Settles.mono h hf
    | _ => exact h

theorem plain_append (hr : reply? l = none) (hf : t.flips l = false) :
    replies (legs ++ [l]) = replies legs ∧ (legs ++ [l]).countP t.flips = legs.countP t.flips := by
  rw [replies_append, hr, List.countP_append, List.countP_singleton, hf]
  simp

theorem not_won_append (h : ¬ t.Won legs) (hl : l.point = .enter →
    l.before.gate t.fixture t.stage = .active) :
    ¬ t.Won (legs ++ [l]) := by
  rintro ⟨l', hl', hp, hg⟩
  rcases List.mem_append.mp hl' with hl' | hl'
  · exact h ⟨l', hl', hp, hg⟩
  · cases List.mem_singleton.mp hl'
    rw [hl hp] at hg
    cases hg

theorem flips_of_isReady
    (h : l.after.isReady t.fixture t.stage = l.before.isReady t.fixture t.stage) :
    t.flips l = false := by
  simp [flips, h]

theorem settles_congr {legs' : List (Leg Point)}
    (h : replies legs' = replies legs ∧ legs'.countP t.flips = legs.countP t.flips)
    (hs : t.Settles legs m) :
    t.Settles legs' m := by
  unfold Settles
  rw [h.1, h.2]
  exact hs

theorem Tended.step (h : t.Tended legs m (.point p)) (hp : p ≠ .hook) {u : Stand Point Unit}
    (hs : t.Step m p m' u) (hdue : p = .commit → m.isReady t.fixture t.stage ≠ t.stage.isSetUp) :
    t.Tended (legs ++ [⟨now, m, p, es, m'⟩]) m' u := by
  have hr : reply? ⟨now, m, p, es, m'⟩ = none := reply?_of_ne_hook hp
  have plain (hc : p ≠ .commit) : replies (legs ++ [⟨now, m, p, es, m'⟩]) = replies legs ∧
      (legs ++ [(⟨now, m, p, es, m'⟩ : Leg Point)]).countP t.flips = legs.countP t.flips :=
    plain_append hr (flips_of_isReady (hs.isReady hc _ _))
  cases hs with
  | enter hg =>
    cases (h : legs = [])
    have hpl := plain nofun
    exact ⟨hpl.1, hpl.2⟩
  | queue hg =>
    cases (h : legs = [])
    exact not_won_append (fun ⟨_, hl, _⟩ => nomatch hl) fun _ => hg
  | wait | foundIdle => exact not_won_append h nofun
  | giveUp | join | foundFailed => exact fun hw => absurd hw (not_won_append h nofun)
  | abort | settled => exact .inl ⟨(plain nofun).1.trans h.1, (plain nofun).2.trans h.2⟩
  | proceed | due => exact ⟨(plain nofun).1.trans h.1, (plain nofun).2.trans h.2⟩
  | returned | mishap => exact absurd rfl hp
  | condemn =>
    obtain ⟨⟨x, hx⟩, hf⟩ := h
    exact .inr (.inr ⟨⟨x, (plain nofun).1.trans hx⟩, (plain nofun).2.trans hf,
      Memory.hasFailed_setFailed_self _ _⟩)
  | commit =>
    obtain ⟨⟨v, hv⟩, hf⟩ := h
    refine .inr (.inl ⟨⟨v, ?_⟩, ?_⟩)
    · rw [replies_append, hr, hv]
      rfl
    · have hflip :
          t.flips ⟨now, m, .commit, es, m.setReady t.fixture t.stage t.stage.isSetUp⟩ = true := by
        simp only [flips, Memory.isReady_setReady, if_true, bne_iff_ne, ne_eq]
        exact fun e => hdue rfl e.symm
      rw [List.countP_append, List.countP_singleton, hflip, hf]
      rfl
  | leave =>
    intro _
    refine ⟨_, _, List.getLast?_concat, rfl, ?_, settles_congr (plain nofun) h⟩
    rw [Memory.gate_setGate, if_pos rfl]

theorem Tended.answered {q : Request} {r : Reply} (h : t.Tended legs m (.point .hook)) :
    t.Tended (legs ++ [⟨now, m, .hook, [.answered q r], m⟩]) m (.point (afterHook r)) := by
  have hr : replies (legs ++ [⟨now, m, .hook, [.answered q r], m⟩]) = [r] := by
    rw [replies_append, h.1]
    rfl
  have hf : (legs ++ [(⟨now, m, .hook, [.answered q r], m⟩ : Leg Point)]).countP t.flips = 0 := by
    rw [List.countP_append, List.countP_singleton, flips_of_isReady rfl, h.2]
    rfl
  cases r with
  | returned v => exact ⟨⟨v, hr⟩, hf⟩
  | refused problem => exact ⟨⟨.refused problem, hr⟩, hf⟩
  | crashed text => exact ⟨⟨.crashed text, hr⟩, hf⟩

theorem Tended.called {q : Request} (h : t.Tended legs m (.point p))
    (hp : p = .hook ∨ ∃ p', p = .queued p') :
    t.Tended (legs ++ [⟨now, m, p, [.called q], m⟩]) m (.point p) := by
  rcases hp with rfl | ⟨p', rfl⟩
  · let l : Leg Point := ⟨now, m, .hook, [.called q], m⟩
    have hpl : replies (legs ++ [l]) = replies legs ∧
        (legs ++ [l]).countP t.flips = legs.countP t.flips :=
      plain_append rfl (flips_of_isReady rfl)
    exact ⟨hpl.1.trans h.1, hpl.2.trans h.2⟩
  · exact not_won_append h nofun

theorem apart_of_journey {others : Memory → Memory → Prop} {m₀ : Memory} {s₀ : Strand Point Unit}
    (hj : Journey t.step others m₀ s₀ legs m s) : ∀ l ∈ legs, t.Apart l := by
  induction hj with
  | start => exact List.forall_mem_nil _
  | others _ _ ih => exact ih
  | step _ ha ih =>
    exact List.forall_mem_append.mpr ⟨ih, List.forall_mem_singleton.mpr (apart_of_advanced ha)⟩

/-- Whatever others do, as long as nobody takes the failure flag back. -/
theorem tended_of_journey {others : Memory → Memory → Prop} {m₀ : Memory}
    (ho : ∀ m m', others m m' → m.hasFailed t.iteration = true → m'.hasFailed t.iteration = true)
    (hj : Journey t.step others m₀ (.fresh .enter) legs m s)
    (hdue : ∀ l ∈ legs, l.point = .commit → l.before.isReady t.fixture t.stage ≠ t.stage.isSetUp) :
    t.Tended legs m s.stand := by
  induction hj with
  | start => rfl
  | others hj hm ih => exact (ih hdue).mono (ho _ _ hm)
  | @step legs now m m' p b es s hj ha ih =>
    have ih := ih fun l hl => hdue l (List.mem_append_left _ hl)
    rcases leg_cases ha with ⟨rfl, rfl, ⟨q, rfl⟩, hp⟩ | ⟨rfl, rfl, q, r, rfl, rfl⟩ | ⟨hp, hs⟩
    · exact ih.called hp
    · exact ih.answered
    · exact ih.step hp hs (hdue _ (List.mem_append_right _ List.mem_cons_self))

end Turn
end LoadBench
