import LoadBench.Proofs.Duty

/-!
# Levels and what was returned

The ready flag of a level changes only after the hook has returned (`Pass.commit_of_reply`). So the
levels of a fixture tell which hooks of an iteration have returned: the iteration is set up only if
its set-up has returned, and whoever has come past the set-up finds the iteration set up, or its
teardown has returned as well (`Staged`).
-/

namespace LoadBench

namespace Pass
variable {a : Pass} {m m' : Memory} {p : Point} {t : Stand Point Report} {isLast : Bool} {f : Nat}
  {marks : List Nat} {v v' : View}

def Point.isPast : Point → Bool
  | .begin | .reject | .acquire _ | .arrive .. | .setUp .. | .fail .. | .condemn .. => false
  | _ => true

/-- A pass that is behind the set-up of the iteration, or has ended with a result. -/
def isPast : Stand Point Report → Bool
  | .point p => p.isPast
  | .ended r => r.isOk

theorem isEquipped_of_isPast (h : isPast t = true) : isEquipped t = true := by
  cases t with
  | ended o => exact h
  | point p => cases p <;> first | rfl | cases h

theorem isPast_onward {α : Type} {phase : Phase} {next : α → Point} {o : Outcome α}
    (h : isPast (onward phase next o) = true) : ∃ v, o = .ok v ∧ (next v).isPast = true := by
  cases o with
  | ok v => exact ⟨v, rfl, h⟩
  | failed e | crashed text => cases h

/-- Nobody comes past the set-up of an iteration but through a turn that leaves
the iteration set up. -/
theorem Step.isPast (h : a.Step m p m' t)
    (hv : p.Vouched isLast (m.view a.iteration a.site f) f marks) (ht : Pass.isPast t = true) :
    p.isPast = true ∨
      p.isEquipped = true ∧ (m'.view a.iteration a.site f).Settled ⟨.iteration, .setUp⟩ := by
  cases h with
  | setUpDone h =>
    obtain ⟨rfl, hs⟩ := hv
    obtain ⟨o, rfl, _⟩ := isPast_onward ht
    exact .inr ⟨rfl, h.sound hs rfl⟩
  | acquired | arrived =>
    obtain ⟨o, rfl, hn⟩ := isPast_onward ht
    cases hn
  | enrol | misplaced | reject | acquire | arrive | setUp | fail | condemn => cases ht
  | _ => exact .inl rfl

/-! ### Commits -/

theorem onward_ne_commit {α : Type} {phase : Phase} {next : α → Point} {o : Outcome α} {s : Stage}
    (hn : ∀ v, (next v).turn? ≠ some (s, .commit)) {q : Point}
    (hq : onward phase next o = .point q) :
    q.turn? ≠ some (s, .commit) := by
  cases o with
  | ok v =>
    cases hq
    exact hn v
  | failed e | crashed text =>
    cases hq
    exact nofun

theorem afterSetUp_ne_commit (s : Stage) : (a.afterSetUp f).turn? ≠ some (s, .commit) := by
  unfold afterSetUp
  split <;> exact nofun

theorem afterTearDown_ne_commit (r : Tally) (s : Stage) :
    (a.afterTearDown r).turn? ≠ some (s, .commit) := by
  unfold afterTearDown
  split <;> exact nofun

theorem afterMeasured_ne_commit (n ops : Nat) (r : Tally) (s : Stage) :
    (a.afterMeasured n ops r).turn? ≠ some (s, .commit) := by
  unfold afterMeasured
  split <;> exact nofun

theorem Step.commit {q : Point} {s : Stage} (h : a.Step m p m' (.point q))
    (hq : q.turn? = some (s, .commit)) :
    p.turn? = some (s, .hook) := by
  generalize ht : Stand.point q = t at h
  cases h with
  | setUp h | tearDown h =>
    cases ht
    cases hq
    cases h
    rfl
  | release h =>
    cases ht
    cases h with
    | cleaning h =>
      cases hq
      cases h
      rfl
    | _ => cases hq
  | acquired | measured | released | arrived =>
    exact absurd hq (onward_ne_commit (fun _ hc => by cases hc) ht.symm)
  | setUpDone => exact absurd hq (onward_ne_commit (fun _ => afterSetUp_ne_commit s) ht.symm)
  | tearDownDone =>
    exact absurd hq (onward_ne_commit (fun _ => afterTearDown_ne_commit _ s) ht.symm)
  | noteStop =>
    cases ht
    exact absurd hq (afterMeasured_ne_commit _ _ _ s)
  | _ =>
    cases ht
    try cases hq

theorem call?_of_hook {s : Stage} (hp : p.turn? = some (s, .hook)) :
    ∃ value, a.call? m p = some (.stage a.site value s) := by
  cases p with
  | setUp f q | tearDown f r q =>
    cases hp
    exact ⟨_, rfl⟩
  | release r q =>
    cases q <;> cases hp
    exact ⟨_, rfl⟩
  | _ => cases hp

theorem commit_of_reply {now : Nat} {q : Request} {r : Reply} {k : Reply → Stand Point Report}
    {p' : Point} {s : Stage} (hk : a.step now m p = .ask q k) (ht : a.Step m p m (k r))
    (hp' : k r = .point p') (hc : p'.turn? = some (s, .commit)) : q.hook? = some (.stage s) ∧
      ∃ v, r = .returned v := by
  have hp := Step.commit (hp' ▸ ht) hc
  cases p with
  | setUp f p | tearDown f o p =>
    cases hp
    cases hk
    cases r <;> cases hp' <;> cases hc
    exact ⟨rfl, _, rfl⟩
  | release o p =>
    cases p <;> cases hp
    cases hk
    cases r <;> cases hp' <;> cases hc
    exact ⟨rfl, _, rfl⟩
  | _ => cases hp

/-! ### Deeds at the level of the iteration -/

/-- A level is set up by the commit of its set-up only. -/
theorem Deed.settled_setUp (h : Deed f p t v v') (hp : ∀ value, p ≠ .acquire (.publish value))
    (hv : v'.Settled ⟨.iteration, .setUp⟩) :
    v.Settled ⟨.iteration, .setUp⟩ ∨ p.turn? = some (⟨.iteration, .setUp⟩, .commit) := by
  cases h with
  | commit hc =>
    rcases Point.turn?_stage hc with rfl | rfl | rfl
    · exact .inr hc
    · exact Bool.noConfusion hv
    · exact .inl ((v.settled_setReady_ne _ (by decide)).mp hv)
  | publish hc => exact absurd hc (hp _)
  | _ => exact .inl hv

/-- The set-up of a level is undone by the commit of its teardown only. -/
theorem Deed.keeps_setUp {l : Level} (h : Deed f p t v v')
    (hp : ∀ value, p ≠ .acquire (.publish value)) (hv : v.Settled ⟨l, .setUp⟩) :
    v'.Settled ⟨l, .setUp⟩ ∨ p.turn? = some (⟨l, .tearDown⟩, .commit) := by
  cases h with
  | @commit s hc =>
    by_cases hl : s.level = l
    · subst hl
      rcases Point.turn?_stage hc with rfl | rfl | rfl
      · exact .inl (v.settled_setReady _)
      · exact .inr hc
      · exact .inr hc
    · exact .inl ((v.settled_setReady_ne _ fun e => hl e.symm).mpr hv)
  | publish hc => exact absurd hc (hp _)
  | _ => exact .inl hv

theorem Step.publishes_fresh {value : Nat} (h : a.Step m (.acquire (.publish value)) m' t)
    (hf : m.published = f) : ¬ (m'.view a.iteration a.site f).Settled ⟨.iteration, .setUp⟩ := by
  cases h with
  | acquire h =>
    cases h with
    | publish =>
      rw [acquisition_site, Memory.view_publish _ _ hf]
      exact Bool.false_ne_true
  | acquired h => cases h

end Pass

/-! ### Stages of an iteration -/

/-- What is certain of a group from what was called (`began`) and what has returned (`returned`), as
far as the present iteration is concerned. -/
structure Staged (began : Hook → Prop) (returned : Stage → Prop) (v : View) (marks : List Nat)
    (l : List (Stand Pass.Point Report)) : Prop where
  /-- Either there is no fixture yet, or it is set up for the iteration only after
  the hook has returned. -/
  furnished : (v.live = none ∧ (∀ t ∈ l, Pass.isEquipped t = false) ∧
      ∀ s, s ≠ ⟨.trial, .setUp⟩ → ¬ began (.stage s)) ∨
    Hook.construct.Closed v marks ∧ (v.Settled ⟨.iteration, .setUp⟩ → returned ⟨.iteration, .setUp⟩)
  committed : ∀ {p : Pass.Point} {s : Stage}, .point p ∈ l →
    p.turn? = some (s, .commit) → returned s
  past : ∀ {t : Stand Pass.Point Report}, t ∈ l → Pass.isPast t = true →
    returned ⟨.iteration, .setUp⟩ ∧
      (v.Settled ⟨.iteration, .setUp⟩ ∨ returned ⟨.iteration, .tearDown⟩)

namespace Staged
variable {began began' : Hook → Prop} {returned returned' : Stage → Prop} {v v' : View}
  {marks marks' : List Nat} {l : List (Stand Pass.Point Report)}

theorem mono (h : Staged began returned v marks l) (hb : ∀ s, s ≠ ⟨.trial, .setUp⟩ →
    began' (.stage s) →
      began (.stage s) ∨ ∃ t ∈ l, Pass.isEquipped t = true) (hr : ∀ s, returned s → returned' s) :
    Staged began' returned' v marks l := by
  refine ⟨?_, fun hp hc => hr _ (h.committed hp hc), ?_⟩
  · refine h.furnished.imp (fun ⟨hl, hu, hn⟩ => ⟨hl, hu, fun s hs hb' => ?_⟩) fun ⟨hc, hs⟩ =>
      ⟨hc, fun hv => hr _ (hs hv)⟩
    rcases hb s hs hb' with hb' | ⟨t, ht, he⟩
    · exact hn s hs hb'
    · exact Bool.noConfusion (he.symm.trans (hu t ht))
  · intro t ht hp
    obtain ⟨hs, ht⟩ := h.past ht hp
    exact ⟨hr _ hs, ht.imp_right (hr _)⟩

theorem step {isLast : Bool} {a : Pass} {f i r r' : Nat} {m m' : Memory} {p : Pass.Point}
    {t : Stand Pass.Point Report} (h : Staged began returned (m.view a.iteration a.site f) marks l)
    (hA : Accord isLast (m.view a.iteration a.site f) f l marks) (hi : l[i]? = some (.point p))
    (ht : a.Step m p m' t) (hr : marks[i]? = some r) (hp : p.Passed r) (hle : r ≤ r')
    (hd : Pass.Deed f p t (m.view a.iteration a.site f) (m'.view a.iteration a.site f))
    (hw : m.isInterrupted a.iteration = true → ∀ n ∈ marks, 2 ≤ n)
    (hc : ∀ q s, t = .point q → q.turn? = some (s, .commit) → returned s) :
    Staged began returned (m'.view a.iteration a.site f) (marks.set i r') (l.set i t) := by
  have hmem := List.mem_of_getElem? hi
  have hv : p.Vouched isLast (m.view a.iteration a.site f) f marks := hA.vouched hi
  have hcommitted {q : Pass.Point} {s : Stage} (hq : .point q ∈ l.set i t)
      (hs : q.turn? = some (s, .commit)) :
      returned s := by
    rcases List.mem_or_eq_of_mem_set hq with hq | hq
    · exact h.committed hq hs
    · exact hc q s hq.symm hs
  rcases p.publishes_or with ⟨value, rfl⟩ | hpub
  · -- the fixture is published: nobody has used any so far
    obtain ⟨hf, hu⟩ := hA.vacant_of_publish hi hr hp
    refine ⟨.inr ⟨.inl ?_, fun hs => absurd hs (ht.publishes_fresh hf)⟩, hcommitted, ?_⟩
    · change m'.live? a.site ≠ none
      rw [ht.publishes hf]
      exact nofun
    · intro u hu' hpast
      have he := Pass.isEquipped_of_isPast hpast
      rcases List.mem_or_eq_of_mem_set hu' with hu' | rfl
      · exact Bool.noConfusion (he.symm.trans (hu u hu'))
      · rcases ht.isPast hv hpast with hp | ⟨hp, _⟩ <;> cases hp
  · have hfurnished : (m'.live? a.site = none ∧ (∀ u ∈ l.set i t, Pass.isEquipped u = false) ∧
        ∀ s, s ≠ ⟨.trial, .setUp⟩ → ¬ began (.stage s)) ∨
        Hook.construct.Closed (m'.view a.iteration a.site f) (marks.set i r') ∧
          ((m'.view a.iteration a.site f).Settled ⟨.iteration, .setUp⟩ →
            returned ⟨.iteration, .setUp⟩) := by
      refine h.furnished.imp (fun ⟨hl, hu, hn⟩ => ⟨hd.live hpub hl, ?_, hn⟩)
        fun ⟨hclosed, hs⟩ => ⟨?_, ?_⟩
      · intro u hu'
        rcases List.mem_or_eq_of_mem_set hu' with hu' | rfl
        · exact hu u hu'
        · exact ht.unequipped (hu _ hmem) hl hpub
      · exact (hclosed.deed hd hv hw nofun nofun).imp_right fun hm =>
          ⟨hm.1, Accord.le_of_mem_raised hr hle hm.2⟩
      · intro hs'
        rcases hd.settled_setUp hpub hs' with hs' | hs'
        · exact hs hs'
        · exact h.committed hmem hs'
    refine ⟨hfurnished, hcommitted, ?_⟩
    intro u hu hpast
    have keep {u : Stand Pass.Point Report} (hu : u ∈ l) (hpast : Pass.isPast u = true) :
        returned ⟨.iteration, .setUp⟩ ∧
          ((m'.view a.iteration a.site f).Settled ⟨.iteration, .setUp⟩ ∨
            returned ⟨.iteration, .tearDown⟩) := by
      obtain ⟨hs, hs' | hs'⟩ := h.past hu hpast
      · exact ⟨hs, (hd.keeps_setUp hpub hs').imp_right fun hc => h.committed hmem hc⟩
      · exact ⟨hs, .inr hs'⟩
    rcases List.mem_or_eq_of_mem_set hu with hu' | rfl
    · exact keep hu' hpast
    · rcases ht.isPast hv hpast with hp' | ⟨_, hs⟩
      · exact keep hmem hp'
      · rcases hfurnished with ⟨_, hno, _⟩ | ⟨_, hret⟩
        · exact Bool.noConfusion ((Pass.isEquipped_of_isPast hpast).symm.trans (hno _ hu))
        · exact ⟨hret hs, .inl hs⟩

end Staged
end LoadBench
