import LoadBench.Proofs.Accord
import LoadBench.Proofs.Iterating
import LoadBench.Proofs.Period
import Mathlib.Data.UInt

/-!
# The masks of a trial

A mask starts with no bits and only ever gets one more, so it always selects the lowest bits of a
draw. Whoever ends a measurement publishes the mask it has reached. No mask that was reached is
lost: it is published already, or somebody is still measuring with one as wide, or the iteration
fails and there is no other one. So each iteration starts from the widest mask of all iterations
before it (`Execution.Trail.samples_periodically`).
-/

namespace LoadBench

/-- A mask that selects the lowest bits of a draw. -/
def Contiguous (mask : UInt32) : Prop := ∃ k ≤ 32, mask.toNat + 1 = 2 ^ k

theorem Contiguous.zero : Contiguous 0 := ⟨0, by decide, rfl⟩

theorem Contiguous.widen {mask : UInt32} (h : Contiguous mask) :
    Contiguous (Sampler.widen mask) ∧ mask ≤ Sampler.widen mask := by
  obtain ⟨k, hk, hmask⟩ := h
  rw [UInt32.le_iff_toNat_le]
  rcases Nat.lt_or_eq_of_le hk with hlt | rfl
  · have hwiden := Sampler.toNat_widen hmask hlt
    refine ⟨⟨k + 1, hlt, hwiden⟩, ?_⟩
    rw [pow_succ] at hwiden
    omega
  · -- all bits are selected, and remain so
    have hwiden := Sampler.toNat_widen_eq mask
    refine ⟨⟨32, le_refl 32, ?_⟩, ?_⟩ <;> omega

theorem Sampler.mask_add (r : Sampler) (x : Nat) : (r.add x).mask = r.mask ∨
    (r.add x).mask = widen r.mask := by
  cases hr : r.thins with
  | true => exact .inr (by rw [add_of_thins hr])
  | false => exact .inl (by rw [add_of_not_thins hr])

section
variable {a b c : UInt32}

theorem max_eq_or_mask : max a b = a ∨ max a b = b := by
  rcases Nat.le_total a.toNat b.toNat with h | h
  · exact .inr (UInt32.toNat_inj.mp (by rw [UInt32.toNat_max, max_eq_right h]))
  · exact .inl (UInt32.toNat_inj.mp (by rw [UInt32.toNat_max, max_eq_left h]))

theorem le_max_mask (h : a ≤ b ∨ a ≤ c) : a ≤ max b c := by
  rw [UInt32.le_iff_toNat_le, UInt32.toNat_max]
  exact h.elim (fun h => Nat.le_trans h (Nat.le_max_left ..)) fun h =>
    Nat.le_trans h (Nat.le_max_right ..)

end

variable {m m' : Memory} {now : Nat} {μ μ' : UInt32}

theorem Memory.mask_signal {c : Iteration} {f : Signals → Signals} (hf : ∀ s, (f s).mask = s.mask) :
    ((m.signal c f).signalsOf c).mask = (m.signalsOf c).mask := by
  rw [signalsOf_signal_self, hf]

namespace Measurement
variable {s : Measurement} {l : Loop} {p : Point} {t : Stand Point Tally}

/-- What a step does to the mask of a measurement, and to the one published. -/
inductive Masked (μ : UInt32) : Point → Stand Point Tally → UInt32 → Prop where
  | begins {l : Loop} (hl : l.sampler.mask = μ) : Masked μ .start (.point (.beginBatch l)) μ
  | goesOn {p q : Point} {l l' : Loop} (hl : p.loop? = some l) (hl' : q.loop? = some l')
      (hm : l'.sampler.mask = l.sampler.mask ∨ l'.sampler.mask = Sampler.widen l.sampler.mask) :
      Masked μ p (.point q) μ
  | crashes {p : Point} {l : Loop} {text : String} (hl : p.loop? = some l) :
      Masked μ p (.ended (.crashed text)) μ
  | publishes {p : Point} {l : Loop} {r : Tally} (hl : p.loop? = some l) :
      Masked μ p (.ended (.ok r)) (max μ l.sampler.mask)

theorem mask_completed : (l.completed s now).sampler.mask = l.sampler.mask ∨
    (l.completed s now).sampler.mask = Sampler.widen l.sampler.mask := by
  unfold Loop.completed
  split
  · exact Sampler.mask_add ..
  · exact .inl rfl

theorem masked_of_yields (hm : s.mode = .sampleTime) (h : (s.step now m p).Yields m m' t) :
    Masked (m.signalsOf s.iteration).mask p t (m'.signalsOf s.iteration).mask := by
  cases p with
  | start =>
    obtain ⟨rfl, rfl⟩ := h
    exact .begins rfl
  | beginBatch l =>
    obtain ⟨rfl, rfl⟩ := h
    exact .goesOn rfl rfl (.inl (by rw [sampler_nextBatch]))
  | checkSpoiled l left =>
    simp only [step] at h
    split at h <;> obtain ⟨rfl, rfl⟩ := h <;> exact .goesOn rfl rfl (.inl rfl)
  | work l left =>
    obtain ⟨rfl, r, hr, rfl⟩ := h
    cases r with
    | crashed text => exact .crashes rfl
    | refused problem => exact hr.elim
    | returned v => exact .goesOn rfl (by split <;> rfl) (.inl rfl)
  | endBatch l =>
    obtain ⟨rfl, rfl⟩ := h
    exact .goesOn rfl (by split <;> rfl) mask_completed
  | checkDone l =>
    obtain ⟨rfl, rfl⟩ := h
    exact .goesOn rfl (by split <;> rfl) (.inl rfl)
  | stop l spoiled =>
    simp only [step, hm, if_true] at h
    obtain ⟨rfl, rfl⟩ := h
    exact .goesOn rfl rfl (.inl rfl)
  | widenMask l r =>
    obtain ⟨rfl, rfl⟩ := h
    rw [Memory.signalsOf_signal_self]
    exact .publishes rfl

end Measurement

namespace Pass
variable {a : Pass} {p : Point} {t : Stand Point Report} {l : List (Stand Point Report)}

def mask? : Stand Point Report → Option UInt32
  | .point (.measure _ _ p) => p.loop?.map fun l => l.sampler.mask
  | _ => none

def Ahead : Stand Point Report → Prop
  | .point (.noteStart ..) | .point (.measure _ _ .start) => True
  | .point p => p.phase = .init ∨ p.phase = .warmup
  | .ended _ => False

inductive Masked (μ : UInt32) (t t' : Stand Point Report) : UInt32 → Prop where
  | aside (ht : mask? t = none) (ht' : mask? t' = none) (ha : Ahead t → Ahead t' ∨ Doomed t') :
      Masked μ t t' μ
  | begins (ht : mask? t = none) (ht' : mask? t' = some μ) : Masked μ t t' μ
  | goesOn {k k' : UInt32} (ht : mask? t = some k) (ht' : mask? t' = some k')
      (hk : k' = k ∨ k' = Sampler.widen k) : Masked μ t t' μ
  | crashes {k : UInt32} (ht : mask? t = some k) (ht' : mask? t' = none) (hd : Doomed t') :
      Masked μ t t' μ
  | publishes {k : UInt32} (ht : mask? t = some k) (ht' : mask? t' = none) : Masked μ t t' (max μ k)

theorem mask_arrive (v : Rendezvous) (s : Signals) : (v.arrive s).mask = s.mask := by
  cases v <;> rfl

theorem mask?_onward {α : Type} {phase : Phase} {next : α → Point} {o : Outcome α}
    (hn : ∀ v, mask? (.point (next v)) = none) : mask? (onward phase next o) = none := by
  cases o with
  | ok v => exact hn v
  | failed e | crashed text => rfl

theorem ahead_onward {α : Type} {phase : Phase} {next : α → Point} {o : Outcome α}
    (hn : ∀ v, Ahead (.point (next v))) : Ahead (onward phase next o) ∨
      Doomed (onward phase next o) := by
  cases o with
  | ok v => exact .inl (hn v)
  | failed e | crashed text => exact .inr trivial

/-- Outside of the measured loop there is no mask, and none is published. -/
theorem Step.aside (h : a.Step m p m' t) (hp : ∀ f ops q, p ≠ .measure f ops q) :
    (m'.signalsOf a.iteration).mask = (m.signalsOf a.iteration).mask ∧ mask? t = none ∧
      (Ahead (.point p) → Ahead t ∨ Doomed t) := by
  have same {c : Iteration} (hs : m'.signalsOf c = m.signalsOf c) :
      (m'.signalsOf c).mask = (m.signalsOf c).mask := by
    rw [hs]
  cases h with
  | enrol | misplaced => exact ⟨rfl, rfl, fun _ => .inl (.inl rfl)⟩
  | stayWarmup | warmupWorked => exact ⟨rfl, rfl, fun _ => .inl (.inr rfl)⟩
  | leaveWarmup => exact ⟨rfl, rfl, fun _ => .inl trivial⟩
  | reject | warmupCrashed | fail | condemn => exact ⟨rfl, rfl, fun _ => .inr trivial⟩
  | acquire h | setUp h => exact ⟨same (h.signalsOf _), rfl, fun _ => .inl (.inl rfl)⟩
  | acquired h =>
    exact ⟨same (h.signalsOf _), mask?_onward fun _ => rfl, fun _ => ahead_onward fun _ => .inl rfl⟩
  | arrive h =>
    cases h with
    | announce => exact ⟨Memory.mask_signal (mask_arrive _), rfl, fun _ => .inl (.inl rfl)⟩
    | wait => exact ⟨rfl, rfl, fun _ => .inl (.inl rfl)⟩
  | arrived h =>
    cases h <;> exact ⟨rfl, mask?_onward fun _ => rfl, fun _ => ahead_onward fun _ => .inl rfl⟩
  | @setUpDone f q _ o h =>
    have hnext : mask? (.point (a.afterSetUp f)) = none ∧ Ahead (.point (a.afterSetUp f)) := by
      unfold afterSetUp
      split
      · exact ⟨rfl, .inr rfl⟩
      · exact ⟨rfl, trivial⟩
    exact ⟨same (h.signalsOf _), mask?_onward fun _ => hnext.1,
      fun _ => ahead_onward fun _ => hnext.2⟩
  | enterWarmup => exact ⟨Memory.mask_signal fun _ => rfl, rfl, fun _ => .inl (.inr rfl)⟩
  | noteStart => exact ⟨Memory.mask_signal fun _ => rfl, rfl, fun _ => .inl trivial⟩
  | measure | measured => exact absurd rfl (hp _ _ _)
  | noteStop =>
    refine ⟨Memory.mask_signal fun _ => rfl, ?_, fun h => h.elim nofun nofun⟩
    unfold afterMeasured
    split <;> rfl
  | enterWarmdown | force =>
    exact ⟨Memory.mask_signal fun _ => rfl, rfl, fun h => h.elim nofun nofun⟩
  | depart h =>
    cases h with
    | announce => exact ⟨Memory.mask_signal (mask_arrive _), rfl, fun h => h.elim nofun nofun⟩
    | wait => exact ⟨rfl, rfl, fun h => h.elim nofun nofun⟩
  | met h | notMet h =>
    cases h
    exact ⟨rfl, rfl, fun h => h.elim nofun nofun⟩
  | tearDown h | release h => exact ⟨same (h.signalsOf _), rfl, fun h => h.elim nofun nofun⟩
  | @tearDownDone f r q _ o h =>
    refine ⟨same (h.signalsOf _), mask?_onward fun _ => ?_, fun h => h.elim nofun nofun⟩
    unfold afterTearDown
    split <;> rfl
  | released h =>
    exact ⟨same (h.signalsOf _), mask?_onward fun _ => rfl, fun h => h.elim nofun nofun⟩
  | stayWarmdown | leaveWarmdown | warmdownWorked | warmdownCrashed | interrupted | notInterrupted
  | abort | proceed | enterRelease | void | finish => exact ⟨rfl, rfl, fun h => h.elim nofun nofun⟩

theorem masked_of_yields (hm : a.mode = .sampleTime) (h : (a.step now m p).Yields m m' t) :
    Masked (m.signalsOf a.iteration).mask (.point p) t (m'.signalsOf a.iteration).mask := by
  by_cases hp : ∃ f ops q, p = .measure f ops q
  · obtain ⟨f, ops, q, rfl⟩ := hp
    obtain ⟨u, hu, rfl⟩ := Move.yields_andThen.mp h
    have hu :
        Measurement.Masked (m.signalsOf a.iteration).mask q u (m'.signalsOf a.iteration).mask :=
      Measurement.masked_of_yields (s := a.measurement) hm hu
    have working {l : Measurement.Loop} (hl : q.loop? = some l) :
        mask? (.point (.measure f ops q)) = some l.sampler.mask := congrArg (Option.map _) hl
    generalize (m'.signalsOf a.iteration).mask = μ' at hu ⊢
    cases hu with
    | begins hl => exact .begins rfl (congrArg some hl)
    | goesOn hl hl' hk => exact .goesOn (working hl) (congrArg (Option.map _) hl') hk
    | crashes hl => exact .crashes (working hl) rfl trivial
    | publishes hl => exact .publishes (working hl) rfl
  · have haside := (step_of_yields h).aside fun f ops q hq => hp ⟨f, ops, q, hq⟩
    obtain ⟨hmask, ht, ha⟩ := haside
    rw [hmask]
    refine .aside ?_ ht ha
    cases p with
    | measure f ops q => exact absurd ⟨f, ops, q, rfl⟩ hp
    | _ => rfl

/-- The mask that an iteration was launched with, those reached in it since, and the
one published by now. -/
structure Charted (base : UInt32) (Reached : UInt32 → Prop) (μ : UInt32)
    (l : List (Stand Point Report)) :
    Prop where
  contiguous : Contiguous base
  floor : base ≤ μ
  reached : ∀ {k}, Reached k → Contiguous k ∧ base ≤ k
  working : ∀ {t k}, t ∈ l → mask? t = some k → Reached k
  topped : ∀ {k}, Reached k → k ≤ μ ∨ ∃ t ∈ l, Doomed t ∨ ∃ k', mask? t = some k' ∧ k ≤ k'
  attained : μ = base ∨ Reached μ
  begun : ∀ {t}, t ∈ l → Ahead t ∨ Doomed t ∨ ∃ k, Reached k

namespace Charted
variable {base : UInt32} {Reached : UInt32 → Prop} {t' : Stand Point Report} {i : Nat}

theorem opening (hb : Contiguous base) (hn : ∀ k, ¬ Reached k) (hl : ∀ t ∈ l, t = Pass.start) :
    Charted base Reached base l where
  contiguous := hb
  floor := UInt32.le_refl base
  reached hk := absurd hk (hn _)
  working ht hk := by rw [hl _ ht] at hk; cases hk
  topped hk := absurd hk (hn _)
  attained := .inl rfl
  begun ht := by rw [hl _ ht]; exact .inl (.inl rfl)

theorem step (h : Charted base Reached μ l) (hi : l[i]? = some t) (hm : Masked μ t t' μ')
    (hd : Doomed t → Doomed t') :
    Charted base (fun k => Reached k ∨ mask? t' = some k) μ' (l.set i t') := by
  obtain ⟨hlt, _⟩ := List.getElem?_eq_some_iff.mp hi
  have hmem : t' ∈ l.set i t' := List.mem_set hlt _
  have hpublished : Contiguous μ := by
    rcases h.attained with rfl | hr
    · exact h.contiguous
    · exact (h.reached hr).1
  have hgrows : μ ≤ μ' := by
    cases hm with
    | publishes => exact le_max_mask (.inl (UInt32.le_refl μ))
    | _ => exact UInt32.le_refl μ
  have hnew {k : UInt32} (hk : mask? t' = some k) : Contiguous k ∧ base ≤ k := by
    cases hm with
    | begins ht ht' =>
      cases hk.symm.trans ht'
      exact ⟨hpublished, h.floor⟩
    | goesOn ht ht' hor =>
      cases hk.symm.trans ht'
      obtain ⟨hcontiguous, hbase⟩ := h.reached (h.working (List.mem_of_getElem? hi) ht)
      rcases hor with rfl | rfl
      · exact ⟨hcontiguous, hbase⟩
      · exact ⟨hcontiguous.widen.1, UInt32.le_trans hbase hcontiguous.widen.2⟩
    | aside _ ht' | crashes _ ht' | publishes _ ht' => cases hk.symm.trans ht'
  -- whoever worked with a mask as wide works with one now, has published it, or is unwinding
  have hkept {k k' : UInt32} (ht : mask? t = some k') (hk : k ≤ k') :
      k ≤ μ' ∨ Doomed t' ∨ ∃ k'', mask? t' = some k'' ∧ k ≤ k'' := by
    cases hm with
    | aside hn | begins hn => cases ht.symm.trans hn
    | crashes _ _ hd => exact .inr (.inl hd)
    | publishes hn =>
      cases ht.symm.trans hn
      exact .inl (le_max_mask (.inr hk))
    | goesOn hn ht' hor =>
      cases ht.symm.trans hn
      refine .inr (.inr ⟨_, ht', ?_⟩)
      rcases hor with rfl | rfl
      · exact hk
      · exact UInt32.le_trans hk (h.reached (h.working (List.mem_of_getElem? hi) ht)).1.widen.2
  refine ⟨h.contiguous, UInt32.le_trans h.floor hgrows, ?_, ?_, ?_, ?_, ?_⟩
  · rintro k (hr | hk)
    · exact h.reached hr
    · exact hnew hk
  · intro u k hu hk
    rcases List.mem_or_eq_of_mem_set hu with hu | rfl
    · exact .inl (h.working hu hk)
    · exact .inr hk
  · rintro k (hr | hk)
    · rcases h.topped hr with hle | ⟨u, hu, hor⟩
      · exact .inl (UInt32.le_trans hle hgrows)
      · rcases eq_or_mem_set hi hu with rfl | hu
        · rcases hor with hdu | ⟨k', ht, hle⟩
          · exact .inr ⟨t', hmem, .inl (hd hdu)⟩
          · exact (hkept ht hle).imp id fun hor => ⟨t', hmem, hor⟩
        · exact .inr ⟨u, hu, hor⟩
    · exact .inr ⟨t', hmem, .inr ⟨k, hk, UInt32.le_refl k⟩⟩
  · cases hm with
    | @publishes k ht =>
      rcases max_eq_or_mask (a := μ) (b := k) with he | he
      · rw [he]
        exact h.attained.imp id .inl
      · rw [he]
        exact .inr (.inl (h.working (List.mem_of_getElem? hi) ht))
    | _ => exact h.attained.imp id .inl
  · intro u hu
    rcases List.mem_or_eq_of_mem_set hu with hu | rfl
    · exact (h.begun hu).imp id (Or.imp id fun ⟨k, hr⟩ => ⟨k, .inl hr⟩)
    · rcases h.begun (List.mem_of_getElem? hi) with ha | hdu | ⟨k, hr⟩
      · cases hm with
        | aside _ _ hkeep => exact (hkeep ha).imp id .inl
        | begins _ ht' => exact .inr (.inr ⟨_, .inr ht'⟩)
        | goesOn ht | crashes ht | publishes ht =>
          exact .inr (.inr ⟨_, .inl (h.working (List.mem_of_getElem? hi) ht)⟩)
      · exact .inr (.inl (hd hdu))
      · exact .inr (.inr ⟨k, .inl hr⟩)

/-- Where everybody has ended well, the mask published is the widest one reached. -/
theorem settled (h : Charted base Reached μ l) (hne : l ≠ [])
    (ho : ∀ t ∈ l, ∃ r, t = .ended (.ok r)) :
    Reached μ ∧ ∀ k, Reached k → k ≤ μ := by
  have htop {k : UInt32} (hk : Reached k) : k ≤ μ := by
    rcases h.topped hk with hle | ⟨t, ht, hor⟩
    · exact hle
    · obtain ⟨r, rfl⟩ := ho t ht
      rcases hor with hd | ⟨k', hm, _⟩
      · exact hd.elim
      · cases hm
  refine ⟨?_, fun k => htop⟩
  obtain ⟨t, ht⟩ := List.exists_mem_of_ne_nil l hne
  obtain ⟨r, rfl⟩ := ho t ht
  rcases h.begun ht with ha | hd | ⟨k, hk⟩
  · exact ha.elim
  · exact hd.elim
  · rcases h.attained with rfl | hr
    · rwa [UInt32.le_antisymm (h.reached hk).2 (htop hk)]
    · exact hr

end Charted
end Pass

theorem Conductor.Step.mask {c : Conductor} {p : Conductor.Point} {t : Stand Conductor.Point Unit}
    (h : c.Step m p m' t) : (m'.signalsOf c.iteration).mask = (m.signalsOf c.iteration).mask := by
  cases h with
  | openWindow | close | interrupt | spoilWarmup | spoilWindow | spoil | spoilWarmdown
  | freeWarmdown | freeWarmup | freeWindow => exact Memory.mask_signal fun _ => rfl
  | _ => rfl

def Group.Works (g : Group) (mask : UInt32) : Prop := ∃ t ∈ g.stands, Pass.mask? t = some mask

namespace Pass.Charted
variable {base : UInt32} {Reached Reached' : UInt32 → Prop} {l : List (Stand Point Report)}

theorem of_iff (h : Charted base Reached μ l) (hr : ∀ k, Reached' k ↔ Reached k) :
    Charted base Reached' μ l := by
  obtain rfl : Reached' = Reached := funext fun k => propext (hr k)
  exact h

theorem acted {x : Execution} {g g' : Group} {who : Execution.Actor} {es : List Event}
    (h : Charted base Reached (m.signalsOf g.iteration).mask g.stands)
    (hm : x.trial.benchmark.mode = .sampleTime) (ha : g.Acted x m who es m' g') :
    Charted base (fun k => Reached k ∨ g'.Works k) (m'.signalsOf g'.iteration).mask g'.stands := by
  have rest (hs : g'.stands = g.stands)
      (hmask : (m'.signalsOf g'.iteration).mask = (m.signalsOf g.iteration).mask) :
      Charted base (fun k => Reached k ∨
        g'.Works k) (m'.signalsOf g'.iteration).mask g'.stands := by
    rw [hmask, hs]
    refine h.of_iff fun k => or_iff_left_of_imp ?_
    rintro ⟨t, ht, hk⟩
    exact h.working (hs ▸ ht) hk
  cases ha with
  | @member i now s s' _ _ hi ha =>
    rcases ha.yields with ⟨rfl, hs⟩ | ⟨p, hs, hy⟩
    · exact rest (Group.stands_set_self hi hs) rfl
    · have hmem : g.stands[i]? = some (.point p) := hs ▸ Group.getElem?_stands hi
      obtain ⟨hlt, _⟩ := List.getElem?_eq_some_iff.mp hmem
      have hmasked : Masked (m.signalsOf g.iteration).mask (.point p) s'.stand
          (m'.signalsOf g.iteration).mask :=
        masked_of_yields (a := x.pass g.iteration i) hm hy
      have hstep := h.step hmem hmasked (step_of_yields hy).doomed
      rw [Group.stands_set]
      refine hstep.of_iff fun k => or_congr_right' fun hk => ?_
      rw [Group.Works, Group.stands_set]
      constructor
      · rintro ⟨t, ht, hk'⟩
        rcases List.mem_or_eq_of_mem_set ht with ht | rfl
        · exact absurd (h.working ht hk') hk
        · exact hk'
      · exact fun hk' => ⟨_, List.mem_set hlt _, hk'⟩
  | conductor ha =>
    refine rest rfl ?_
    rcases ha.yields with ⟨rfl, hs⟩ | ⟨p, hs, hy⟩
    · rfl
    · exact (Conductor.step_of_yields hy).mask

end Pass.Charted

namespace Execution
variable {x : Execution} {trail : List World} {w w' : World} {index : Nat} {g : Group}
  {mask : UInt32}

/-- Some member is measuring with a mask in an iteration. -/
def World.Works (w : World) (index : Nat) (mask : UInt32) : Prop :=
  ∃ g, w.point = .running index g ∧ g.Works mask

def Reached (trail : List World) (index : Nat) (mask : UInt32) : Prop :=
  ∃ w ∈ trail, w.Works index mask

/-- The widest mask that was reached in the iterations before one; before the
first one there is none. -/
structure Widest (trail : List World) (index : Nat) (mask : UInt32) : Prop where
  le : ∀ {i k}, i < index → Reached trail i k → k ≤ mask
  attained : index = 0 ∧ mask = 0 ∨ ∃ i < index, Reached trail i mask

theorem reached_append {i : Nat} {k : UInt32} :
    Reached (trail ++ [w']) i k ↔ Reached trail i k ∨ w'.Works i k := by
  simp [Reached, or_and_right, exists_or]

theorem Widest.unique {mask' : UInt32} (h : Widest trail index mask)
    (h' : Widest trail index mask') :
    mask = mask' := by
  have le {a b : UInt32} (ha : Widest trail index a) (hb : Widest trail index b) : a ≤ b := by
    rcases ha.attained with ⟨-, rfl⟩ | ⟨i, hi, hr⟩
    · exact UInt32.le_iff_toNat_le.mpr (Nat.zero_le _)
    · exact hb.le hi hr
  exact UInt32.le_antisymm (le h h') (le h' h)

/-- What is reached in an iteration says nothing of the iterations before. -/
theorem widest_append {i : Nat} (hw : ∀ {j k}, w'.Works j k → i ≤ j) :
    Widest (trail ++ [w']) i mask ↔ Widest trail i mask := by
  have hbefore {j : Nat} {k : UInt32} (hj : j < i) : Reached (trail ++ [w']) j k ↔
      Reached trail j k :=
    reached_append.trans (or_iff_left fun hk => absurd (hw hk) (Nat.not_le_of_lt hj))
  constructor
  · intro h
    exact ⟨fun hj hr => h.le hj ((hbefore hj).mpr hr),
      h.attained.imp id fun ⟨j, hj, hr⟩ => ⟨j, hj, (hbefore hj).mp hr⟩⟩
  · intro h
    exact ⟨fun hj hr => h.le hj ((hbefore hj).mp hr),
      h.attained.imp id fun ⟨j, hj, hr⟩ => ⟨j, hj, (hbefore hj).mpr hr⟩⟩

theorem launch_of_settle {index' : Nat} (h : (x.settle w index g).point = .launch index' mask) :
    index' = index + 1 ∧ mask = (w.memory.signalsOf g.iteration).mask ∧
      ∀ o ∈ g.outcomes, o.isOk = true := by
  have hok : ∀ o ∈ g.outcomes, o.isOk = true := by
    have hs := settled x w index g
    generalize x.settle w index g = w' at h hs
    cases hs with
    | next ho => exact ho
    | _ => cases h
  unfold settle at h
  cases hc : firstCrash? g.outcomes with
  | some text => simp [hc, clearSite] at h
  | none =>
    cases hd : decisive? g.outcomes with
    | some e =>
      simp only [hc, hd] at h
      split at h <;> cases h
    | none =>
      simp only [hc, hd] at h
      split at h
      · cases h
      · cases h
        exact ⟨rfl, rfl, hok⟩

/-- What is known of the masks all along a trail. -/
structure Plotted (trail : List World) (w : World) : Prop where
  reached : ∀ {i k}, Reached trail i k → Contiguous k ∧ ∀ {base}, Widest trail i base → base ≤ k
  launch : ∀ {index mask}, w.point = .launch index mask →
    Contiguous mask ∧ Widest trail index mask ∧ ∀ {i k}, Reached trail i k → i < index
  running : ∀ {index g}, w.point = .running index g →
    g.stands ≠ [] ∧ (∀ {i k}, Reached trail i k → i ≤ index) ∧ ∃ base, Widest trail index base ∧
      Pass.Charted base (Reached trail index) (w.memory.signalsOf g.iteration).mask g.stands

theorem not_works_of_settle {i : Nat} {k : UInt32} : ¬ (x.settle w index g).Works i k := by
  rintro ⟨g', hp, _⟩
  have hs := settled x w index g
  generalize x.settle w index g = w' at hp hs
  cases hs <;> cases hp

theorem not_works_of_index? (hw : w'.point.index? = none) {i : Nat} {k : UInt32} :
    ¬ w'.Works i k := by
  rintro ⟨g, hp, _⟩
  rw [hp] at hw
  cases hw

namespace Plotted

/-- Nothing is reached where nobody measures. -/
theorem idle (h : Plotted trail w) (hw : ∀ {i k}, ¬ w'.Works i k)
    (hlaunch : ∀ {index mask}, w'.point = .launch index mask →
      Contiguous mask ∧ Widest trail index mask ∧ ∀ {i k}, Reached trail i k → i < index)
    (hrunning : ∀ {index g}, w'.point = .running index g →
      g.stands ≠ [] ∧ (∀ {i k}, Reached trail i k → i ≤ index) ∧ ∃ base, Widest trail index base ∧
        Pass.Charted base (Reached trail index) (w'.memory.signalsOf g.iteration).mask g.stands) :
    Plotted (trail ++ [w']) w' := by
  have hreached {i : Nat} {k : UInt32} : Reached (trail ++ [w']) i k ↔ Reached trail i k :=
    reached_append.trans (or_iff_left hw)
  have hwidest {i : Nat} {b : UInt32} : Widest (trail ++ [w']) i b ↔ Widest trail i b :=
    widest_append fun hk => absurd hk hw
  refine ⟨fun hr => ?_, fun hp => ?_, fun hp => ?_⟩
  · obtain ⟨hcontiguous, hbase⟩ := h.reached (hreached.mp hr)
    exact ⟨hcontiguous, fun hb => hbase (hwidest.mp hb)⟩
  · obtain ⟨hcontiguous, hb, hlt⟩ := hlaunch hp
    exact ⟨hcontiguous, hwidest.mpr hb, fun hr => hlt (hreached.mp hr)⟩
  · obtain ⟨hne, hle, base, hb, hcharted⟩ := hrunning hp
    exact ⟨hne, fun hr => hle (hreached.mp hr), base, hwidest.mpr hb,
      hcharted.of_iff fun _ => hreached⟩

theorem acted {who : Actor} {es : List Event} {g' : Group} (h : Plotted trail w)
    (hm : x.trial.benchmark.mode = .sampleTime) (hp : w.point = .running index g)
    (ha : g.Acted x w.memory who es w'.memory g') (hp' : w'.point = .running index g') :
    Plotted (trail ++ [w']) w' := by
  obtain ⟨hne, hle, base, hbase, hcharted⟩ := h.running hp
  have hworks {i : Nat} {k : UInt32} : w'.Works i k ↔ i = index ∧ g'.Works k := by
    constructor
    · rintro ⟨g'', hp'', hk⟩
      cases hp'.symm.trans hp''
      exact ⟨rfl, hk⟩
    · rintro ⟨rfl, hk⟩
      exact ⟨g', hp', hk⟩
  have hwidest {i : Nat} {b : UInt32} (hi : i ≤ index) : Widest (trail ++ [w']) i b ↔
      Widest trail i b :=
    widest_append fun hk => (hworks.mp hk).1 ▸ hi
  have hcharted' := hcharted.acted hm ha
  have hlength : g'.stands.length = g.stands.length := by
    cases ha with
    | member => simp [Group.stands_set]
    | conductor => rfl
  refine ⟨fun {i k} hr => ?_, fun hl => ?_, fun hr => ?_⟩
  · rcases reached_append.mp hr with hr | hk
    · obtain ⟨hcontiguous, hmin⟩ := h.reached hr
      exact ⟨hcontiguous, fun hb => hmin ((hwidest (hle hr)).mp hb)⟩
    · obtain ⟨rfl, hk⟩ := hworks.mp hk
      obtain ⟨hcontiguous, hmin⟩ := hcharted'.reached (.inr hk)
      refine ⟨hcontiguous, fun hb => ?_⟩
      rwa [((hwidest (Nat.le_refl _)).mp hb).unique hbase]
  · cases hp'.symm.trans hl
  · cases hp'.symm.trans hr
    refine ⟨fun hnil => hne ?_, fun hr => ?_, base, (hwidest (Nat.le_refl _)).mpr hbase,
      hcharted'.of_iff fun k => ?_⟩
    · rwa [← List.length_eq_zero_iff, ← hlength, List.length_eq_zero_iff]
    · rcases reached_append.mp hr with hr | hk
      · exact hle hr
      · exact (hworks.mp hk).1.le
    · exact reached_append.trans (or_congr_right (hworks.trans (and_iff_right rfl)))

theorem launched {now : Nat} (h : Plotted trail w) (hp : w.point = .launch index mask) :
    Plotted
      (trail ++ [{ w with
        memory :=
          { w.memory with signals := w.memory.signals.put (x.iteration index now).number { mask } }
        point := .running index (x.group (x.iteration index now)) }])
      { w with
        memory :=
          { w.memory with signals := w.memory.signals.put (x.iteration index now).number { mask } }
        point := .running index (x.group (x.iteration index now)) } := by
  obtain ⟨hcontiguous, hwidest, hlt⟩ := h.launch hp
  refine h.idle ?_ nofun ?_
  · rintro i k ⟨g, hg, t, ht, hk⟩
    cases hg
    cases Group.eq_start_of_mem ht
    cases hk
  · intro index g hg
    cases hg
    refine ⟨?_, fun hr => (hlt hr).le, mask, hwidest, ?_⟩
    · rw [Group.stands_group]
      exact List.ne_nil_of_length_pos (by rw [List.length_replicate]; exact x.threads.pos)
    · have hmask :
          (({ w.memory with
            signals := w.memory.signals.put (x.iteration index now).number { mask } } :
          Memory).signalsOf (x.iteration index now)).mask = mask :=
            congrArg Signals.mask (Table.get_put_self ..)
      change Pass.Charted mask _ (Memory.signalsOf _ (x.iteration index now)).mask _
      rw [hmask]
      exact .opening hcontiguous (fun k hr => Nat.lt_irrefl _ (hlt hr)) fun t ht =>
        Group.eq_start_of_mem ht

theorem settled (h : Plotted trail w) (hp : w.point = .running index g) (he : g.hasEnded = true) :
    Plotted (trail ++ [x.settle w index g]) (x.settle w index g) := by
  obtain ⟨hne, hle, base, hwidest, hcharted⟩ := h.running hp
  refine h.idle not_works_of_settle (fun hl => ?_) fun hr => ?_
  · obtain ⟨rfl, rfl, hok⟩ := launch_of_settle hl
    obtain ⟨hreached, hmax⟩ := hcharted.settled hne fun t ht => Group.ended_ok he hok ht
    refine ⟨(hcharted.reached hreached).1,
      ⟨fun {i k} hi hr => ?_, .inr ⟨index, Nat.lt_succ_self _, hreached⟩⟩,
      fun hr => Nat.lt_succ_of_le (hle hr)⟩
    rcases Nat.lt_succ_iff_lt_or_eq.mp hi with hi | rfl
    · exact UInt32.le_trans (hwidest.le hi hr) hcharted.floor
    · exact hmax k hr
  · have hs := Execution.settled x w index g
    generalize x.settle w index g = w' at hr hs
    cases hs <;> cases hr

theorem step {who : Actor} {es : List Event} (hm : x.trial.benchmark.mode = .sampleTime)
    (h : Plotted trail w) (hc : Changed x w who es w') : Plotted (trail ++ [w']) w' := by
  have past (hn : w'.point.index? = none) : Plotted (trail ++ [w']) w' := by
    refine h.idle (not_works_of_index? hn) (fun hl => ?_) fun hr => ?_
    · rw [hl] at hn
      cases hn
    · rw [hr] at hn
      cases hn
  cases hc with
  | launch hp => exact h.launched hp
  | member hp hi ha => exact h.acted hm hp (.member hi ha) rfl
  | conductor hp ha => exact h.acted hm hp (.conductor ha) rfl
  | settle hp he => exact h.settled hp he
  | clearing hp ha =>
    apply past
    simp only
    split <;> rfl
  | _ => exact past rfl

end Plotted

theorem Trail.plotted {m : Memory} (hm : x.trial.benchmark.mode = .sampleTime)
    (ht : x.Trail m trail w) :
    Plotted trail w := by
  refine ht.induct (P := Plotted) ?_ fun _ h hc => h.step hm hc
  have hnone {i : Nat} {k : UInt32} : ¬ Reached [x.start m] i k := by
    rintro ⟨w, hw, g, hp, _⟩
    cases List.mem_singleton.mp hw
    rcases start_point x m with hs | hs <;> cases hp.symm.trans hs
  refine ⟨fun hr => absurd hr hnone, fun hp => ?_, fun hp => ?_⟩
  · rcases start_point x m with hs | hs
    · cases hp.symm.trans hs
      exact ⟨.zero, ⟨fun _ hr => absurd hr hnone, .inl ⟨rfl, rfl⟩⟩, fun hr => absurd hr hnone⟩
    · cases hp.symm.trans hs
  · rcases start_point x m with hs | hs <;> cases hp.symm.trans hs

/-- How a trial samples: the masks it has reached, those its iterations begin with, and
what such masks pick. -/
structure SamplesPeriodically (trail : List World) (w : World) : Prop where
  contiguous : ∀ {i k}, Reached trail i k → Contiguous k
  /-- An iteration is launched with the widest mask of all before it. -/
  launched : ∀ {index mask}, w.point = .launch index mask → Widest trail index mask
  /-- A member that begins to measure takes the mask that is published, which is the one the
  iteration was launched with as long as no other one was reached in it. -/
  begins : ∀ {index g}, w.point = .running index g → ∃ base, Widest trail index base ∧
    ((w.memory.signalsOf g.iteration).mask = base ∨
      Reached trail index (w.memory.signalsOf g.iteration).mask) ∧
    ∀ {a : Pass} {now m t}, a.iteration = g.iteration →
      (a.measurement.step now w.memory .start).Yields w.memory m t →
      ∃ seed, t = .point (.beginBatch (.opening now seed a.iteration.sampleQuota
        (w.memory.signalsOf g.iteration).mask))
  floor : ∀ {i k base}, Reached trail i k → Widest trail i base → base ≤ k
  once : ∀ {r : Sampler} {k}, r.mask.toNat + 1 = 2 ^ k → ∀ seed n,
    ∃! i, i < 2 ^ k ∧ r.picks (nextDraw^[n + i] seed) = true
  sampled : ∀ {s : Measurement} {began seed mask k log r}, s.mode = .sampleTime →
    mask.toNat + 1 = 2 ^ k →
    s.Course (.opening began seed s.iteration.sampleQuota mask) log (.ended (.ok r)) →
      2 ^ k ≤ log.length →
    ∃ samples, (r.report s.mode s.iteration).metrics =
      [⟨.primary, s.iteration.benchmark.label, .sampleTime samples s.iteration.benchmark.unit⟩] ∧
        samples.toList ≠ []

/-- Every mask of a trial selects the lowest bits, each iteration begins with the widest one before
it, and one batch in every period is picked. -/
theorem Trail.samples_periodically {m : Memory} (hm : x.trial.benchmark.mode = .sampleTime)
    (ht : x.Trail m trail w) : SamplesPeriodically trail w := by
  have hplotted : Plotted trail w := ht.plotted hm
  constructor
  · exact fun hr => (hplotted.reached hr).1
  · exact fun hp => (hplotted.launch hp).2.1
  · intro index g hp
    obtain ⟨-, -, base, hwidest, hcharted⟩ := hplotted.running hp
    refine ⟨base, hwidest, hcharted.attained, ?_⟩
    rintro a now m t ha h
    refine ⟨(a.iteration.age now).toUInt32, ?_⟩
    rw [← ha]
    exact Measurement.opening_of_yields h
  · exact fun hr hw => (hplotted.reached hr).2 hw
  · exact fun hmask seed n => Sampler.existsUnique_picks hmask seed n
  · intro s began seed mask k log r hs hmask hc hlog
    refine ⟨r.samples, ?_, hc.samples_ne_nil hs hmask hlog⟩
    rw [hs]
    rfl

def World.launching? (w : World) : Option (Nat × UInt32) :=
  match w.point with
  | .launch index mask => some (index, mask)
  | _ => none

theorem World.point_of_launching? (h : w.launching? = some (index, mask)) :
    w.point = .launch index mask := by
  unfold launching? at h
  split at h
  · rename_i hp
    cases h
    exact hp
  · cases h

/-- After a warmup in which both members have timed every batch, every other batch is picked. -/
theorem samples_periodically_warm :
    let x : Execution :=
  { duet with trial := { duet.trial with warmups := 1, benchmark := .plain "bench" .sampleTime } }
    let w := (x.play (rounds 67 (.returned 0)) (x.start {})).2
    x.trial.benchmark.mode = .sampleTime ∧ w.point = .launch 1 1 ∧
      ∃ trail, x.Trail {} trail w ∧ SamplesPeriodically trail w ∧ Reached trail 0 1 := by
  intro x w
  have hp : w.point = .launch 1 1 := World.point_of_launching? (by decide +kernel)
  obtain ⟨trail, ht⟩ := (run_play x {} (rounds 67 (.returned 0))).trail
  have hsamples : SamplesPeriodically trail w := ht.samples_periodically rfl
  refine ⟨rfl, hp, trail, ht, hsamples, ?_⟩
  obtain ⟨h, _⟩ | ⟨i, hi, hr⟩ := (hsamples.launched hp).attained
  · cases h
  · rwa [Nat.lt_one_iff.mp hi] at hr

end Execution
end LoadBench
