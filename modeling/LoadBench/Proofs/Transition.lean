import LoadBench.Trial

/-!
# Transitions

What one step does to an operation, apart from what is noted or called on the way. `Move.Yields`
says which shared state and which stand a move can lead to; it commutes with the embedding of
a part into a whole, so the transitions of a composite operation are those of its parts.
`Strand.Advanced` is the same for an operation in progress, where a call takes two steps.
-/

namespace LoadBench

namespace Outcome
variable {α : Type}

@[simp] theorem isOk_ok (a : α) : (ok a).isOk = true := rfl

@[simp] theorem isOk_failed (e : Failure) : (failed e : Outcome α).isOk = false := rfl

@[simp] theorem isOk_crashed (text : String) : (crashed text : Outcome α).isOk = false := rfl

end Outcome

namespace Move
variable {μ σ τ α β : Type}

/-- An action leads where it says; a call leads on from any reply that it can have. -/
def Yields (v : Move μ σ α) (m m' : μ) (s : Stand σ α) : Prop :=
  match v with
  | act m₁ _ t => m' = m₁ ∧ s = t
  | ask q k => m' = m ∧ ∃ r, q.Admits r ∧ s = k r
  | blocked => False

/-- The whole goes where its part goes. -/
@[simp] theorem yields_andThen {v : Move μ σ α} {embed : σ → τ} {onward : Outcome α → Stand τ β}
    {m m' : μ} {t : Stand τ β} :
    (v.andThen embed onward).Yields m m' t ↔
      ∃ s, v.Yields m m' s ∧ t = s.andThen embed onward := by
  cases v with
  | act m₁ notes s =>
    constructor
    · rintro ⟨hm, ht⟩
      exact ⟨s, ⟨hm, rfl⟩, ht⟩
    · rintro ⟨_, ⟨hm, rfl⟩, ht⟩
      exact ⟨hm, ht⟩
  | ask q k =>
    constructor
    · rintro ⟨hm, r, hr, ht⟩
      exact ⟨k r, ⟨hm, r, hr, rfl⟩, ht⟩
    · rintro ⟨_, ⟨hm, r, hr, rfl⟩, ht⟩
      exact ⟨hm, r, hr, ht⟩
  | blocked =>
    constructor
    · exact False.elim
    · rintro ⟨_, h, _⟩
      exact h.elim

end Move

namespace Strand
variable {σ α : Type}

/-- What one step does to an operation in progress: an action, the beginning
of a call, or its end. -/
inductive Advanced (move : σ → Move Memory σ α) (m : Memory) (s : Strand σ α) :
    Memory → List Event → Strand σ α → Prop where
  | act {p m' notes t} (hp : s.stand = .point p) (hv : move p = .act m' notes t) :
      Advanced move m s m' (notes.map .noted) ⟨t, false⟩
  | call {p q k} (hp : s.stand = .point p) (hv : move p = .ask q k) (hc : s.calling = false) :
      Advanced move m s m [.called q] ⟨.point p, true⟩
  | reply {p q k r} (hp : s.stand = .point p) (hv : move p = .ask q k) (hc : s.calling = true)
      (hr : q.Admits r) : Advanced move m s m [.answered q r] ⟨k r, false⟩

theorem advanced_of_advance {s s' : Strand σ α} {move : σ → Move Memory σ α} {m m' : Memory}
    {reply : Reply} {es : List Event} (h : s.advance move m reply = some (m', es, s')) :
    Advanced move m s m' es s' := by
  unfold advance at h
  cases hs : s.stand with
  | ended r => simp [hs] at h
  | point p =>
    cases hv : move p with
    | blocked => simp [hs, hv] at h
    | act m₁ notes t =>
      simp only [hs, hv, Option.some.injEq, Prod.mk.injEq] at h
      obtain ⟨rfl, rfl, rfl⟩ := h
      exact .act hs hv
    | ask q k =>
      cases hc : s.calling with
      | false =>
        simp only [hs, hv, hc, Bool.false_eq_true, if_false, Option.some.injEq, Prod.mk.injEq] at h
        obtain ⟨rfl, rfl, rfl⟩ := h
        exact .call hs hv hc
      | true =>
        by_cases hr : q.Admits reply
        · simp only [hs, hv, hc, hr, if_true, Option.some.injEq, Prod.mk.injEq] at h
          obtain ⟨rfl, rfl, rfl⟩ := h
          exact .reply hs hv hc hr
        · simp [hs, hv, hc, hr] at h

/-- With calls in progress forgotten, a step either changes nothing or is a transition. -/
theorem Advanced.yields {move : σ → Move Memory σ α} {m m' : Memory} {s s' : Strand σ α}
    {es : List Event} (h : Advanced move m s m' es s') :
    (m' = m ∧ s'.stand = s.stand) ∨
      ∃ p, s.stand = .point p ∧ (move p).Yields m m' s'.stand := by
  cases h with
  | act hp hv => exact .inr ⟨_, hp, by rw [hv]; exact ⟨rfl, rfl⟩⟩
  | call hp hv hc => exact .inl ⟨rfl, hp.symm⟩
  | reply hp hv hc hr => exact .inr ⟨_, hp, by rw [hv]; exact ⟨rfl, _, hr, rfl⟩⟩

end Strand
end LoadBench
