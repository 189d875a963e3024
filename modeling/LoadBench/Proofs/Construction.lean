import LoadBench.Proofs.Calls

/-!
# Construction comes first

A trial that starts at a vacant site uses no fixture but its own: whatever it calls apart from the
construction and the set-up of the trial level, it calls only after these have returned. This holds
of all runs, interrupted ones included.
-/

namespace LoadBench

/-- The calls that take a fixture that is ready for use. -/
def Request.isUse : Request → Bool
  | .stage _ _ s => s ≠ ⟨.trial, .setUp⟩
  | .work => true
  | .construct .. | .sleep _ => false

namespace Execution
variable {x : Execution} {h h' : List Entry}

def Constructed (x : Execution) (h : List Entry) (value : Nat) : Prop :=
  ∃ e ∈ h, e.event = .answered (.construct x.site x.trial.benchmark.parameters) (.returned value)

/-- A fixture was constructed, and then its trial level was set up. -/
def Built (x : Execution) (h : List Entry) : Prop :=
  ∃ value, x.Constructed h value ∧
    ∃ e ∈ h, ∃ v, e.event = .answered (.stage x.site value ⟨.trial, .setUp⟩) (.returned v)

theorem Constructed.mono {value : Nat} (hc : x.Constructed h value) (hs : ∀ e ∈ h, e ∈ h') :
    x.Constructed h' value := by
  obtain ⟨e, he, hv⟩ := hc
  exact ⟨e, hs e he, hv⟩

theorem Built.mono (hb : x.Built h) (hs : ∀ e ∈ h, e ∈ h') : x.Built h' := by
  obtain ⟨value, hc, e, he, hv⟩ := hb
  exact ⟨value, hc.mono hs, e, hs e he, hv⟩

/-- What comes before a call: the construction before the set-up of the trial level,
and both before any use. -/
structure Ready (x : Execution) (h : List Entry) (q : Request) : Prop where
  constructed : ∀ {site : Site} {value : Nat}, q = .stage site value ⟨.trial, .setUp⟩ →
    x.Constructed h value
  built : q.isUse = true → x.Built h

theorem Ready.mono {q : Request} (hq : x.Ready h q) (hs : ∀ e ∈ h, e ∈ h') : x.Ready h' q :=
  ⟨fun he => (hq.constructed he).mono hs, fun hu => (hq.built hu).mono hs⟩

theorem Ready.sleep (d : Span) : x.Ready h (.sleep d) := ⟨nofun, nofun⟩

/-- No fixture is set up before it was constructed, and none is used before it was built. -/
def Prepared (x : Execution) (h : List Entry) : Prop :=
  Throughout (fun past e => ∀ q, e.event = .called q → x.Ready past q) h

end Execution

/-! ### Members at the site -/

/-- Past the construction, and not yet published. -/
def Pass.Point.isMaking : Pass.Point → Bool
  | .acquire (.setUp _) | .acquire (.publish _) => true
  | _ => false

theorem Pass.isAt_onward {α : Type} {phase : Phase} {next : α → Point} {o : Outcome α}
    {b : Point → Bool} (hn : ∀ v, b (next v) = false) (hf : ∀ e, b (.fail phase e) = false)
    (hc : ∀ text, b (.condemn phase text) = false) : (onward phase next o).isAt b = false := by
  cases o with
  | ok v => exact hn v
  | failed e => exact hf e
  | crashed text => exact hc text

/-- Only the construction leads to a fixture that is not published. -/
theorem Pass.Step.isMaking {a : Pass} {m m' : Memory} {p : Point} {t : Stand Point Report}
    (h : a.Step m p m' t) (h₁ : p ≠ .acquire .construct)
    (h₂ : ∀ value, p ≠ .acquire (.setUp value)) :
    t.isAt Point.isMaking = false := by
  cases h with
  | acquire h =>
    cases h with
    | constructed => exact absurd rfl h₁
    | setUp => exact absurd rfl (h₂ _)
    | _ => rfl
  | acquired | arrived | measured | released =>
    exact isAt_onward (fun _ => rfl) (fun _ => rfl) fun _ => rfl
  | setUpDone =>
    refine isAt_onward ?_ (fun _ => rfl) fun _ => rfl
    intro _
    unfold afterSetUp
    split <;> rfl
  | noteStop =>
    rw [Stand.isAt_point]
    unfold afterMeasured
    split <;> rfl
  | tearDownDone =>
    refine isAt_onward ?_ (fun _ => rfl) fun _ => rfl
    intro _
    unfold afterTearDown
    split <;> rfl
  | _ => rfl

/-- A vacant site stays so but for a publication. -/
theorem Pass.Step.vacant {a : Pass} {m m' : Memory} {p : Point} {t : Stand Point Report}
    (h : a.Step m p m' t) (hp : p.isEquipped = false)
    (hpub : ∀ value, p ≠ .acquire (.publish value)) (hl : m.live? a.site = none) :
    m'.live? a.site = none := by
  have hd := h.deed (f := 0) (fun g hg => ?_) fun value hc => absurd hc (hpub value)
  · exact hd.live hpub hl
  · cases p with
    | acquire p =>
      cases p with
      | leave r => cases r <;> simp [Point.isEquipped, Point.fixture?] at hp hg
      | _ => cases hg
    | begin | reject | fail | condemn => cases hg
    | _ => cases hp

/-- The fixture that is about, if any, was built in this run. -/
structure Group.Furnished (x : Execution) (h : List Entry) (m : Memory) (g : Group) : Prop where
  built : x.Built h ∨ (m.live? x.site = none ∧ ∀ t ∈ g.stands, Pass.isEquipped t = false)
  constructed : ∀ {value : Nat}, .point (.acquire (.setUp value)) ∈ g.stands → x.Constructed h value
  setUp : ∀ {value : Nat}, .point (.acquire (.publish value)) ∈ g.stands → x.Built h

namespace Group.Furnished
variable {x : Execution} {h h' : List Entry} {m m' : Memory} {g g' : Group}

theorem member (hg : g.Furnished x h m) (hsub : ∀ e ∈ h, e ∈ h') {i : Nat} {p : Pass.Point}
    {t : Stand Pass.Point Report} (hi : g.stands[i]? = some (.point p))
    (ht : (x.pass g.iteration i).Step m p m' t) (hs : g'.stands = g.stands.set i t)
    (hmake : ∀ value, t = .point (.acquire (.setUp value)) → x.Constructed h' value)
    (hput : ∀ value, t = .point (.acquire (.publish value)) → x.Built h') :
    g'.Furnished x h' m' := by
  have hmem := List.mem_of_getElem? hi
  constructor
  · rcases p.publishes_or with ⟨value, rfl⟩ | hpub
    · exact .inl ((hg.setUp hmem).mono hsub)
    · rcases hg.built with hb | ⟨hl, hu⟩
      · exact .inl (hb.mono hsub)
      · have hp : p.isEquipped = false := hu _ hmem
        refine .inr ⟨ht.vacant hp hpub hl, ?_⟩
        intro u hu'
        rw [hs] at hu'
        rcases List.mem_or_eq_of_mem_set hu' with hu' | rfl
        · exact hu u hu'
        · exact ht.unequipped hp hl hpub
  · intro value hv
    rw [hs] at hv
    rcases List.mem_or_eq_of_mem_set hv with hv | hv
    · exact (hg.constructed hv).mono hsub
    · exact hmake value hv.symm
  · intro value hv
    rw [hs] at hv
    rcases List.mem_or_eq_of_mem_set hv with hv | hv
    · exact (hg.setUp hv).mono hsub
    · exact hput value hv.symm

theorem rest (hg : g.Furnished x h m) (hsub : ∀ e ∈ h, e ∈ h') (hs : g'.stands = g.stands)
    (hl : m'.live? x.site = m.live? x.site) : g'.Furnished x h' m' := by
  constructor
  · rw [hs, hl]
    exact hg.built.imp_left fun hb => hb.mono hsub
  · intro value hv
    exact (hg.constructed (hs ▸ hv)).mono hsub
  · intro value hv
    exact (hg.setUp (hs ▸ hv)).mono hsub

end Group.Furnished

namespace Pass
variable {a : Pass} {m : Memory} {p : Point} {q : Request} {r : Reply}
  {k : Reply → Stand Point Report} {now : Nat}

/-- What a fixture is made from was returned by its construction. -/
theorem constructed_of_reply (hk : a.step now m p = .ask q k)
    (ht : a.Step m p m (k r)) {value : Nat} (hv : k r = .point (.acquire (.setUp value))) :
    q = .construct a.site a.iteration.benchmark.parameters ∧ r = .returned value := by
  by_cases h₁ : p = .acquire .construct
  · subst h₁
    cases hk
    cases r with
    | returned v =>
      cases hv
      exact ⟨rfl, rfl⟩
    | refused problem | crashed text => cases hv
  · by_cases h₂ : ∃ w, p = .acquire (.setUp w)
    · obtain ⟨w, rfl⟩ := h₂
      cases hk
      cases r <;> cases hv
    · have hm := ht.isMaking h₁ fun w hw => h₂ ⟨w, hw⟩
      rw [hv] at hm
      cases hm

/-- What is about to be published was set up. -/
theorem setUp_of_reply (hk : a.step now m p = .ask q k) (ht : a.Step m p m (k r)) {value : Nat}
    (hv : k r = .point (.acquire (.publish value))) :
    p = .acquire (.setUp value) ∧ q = .stage a.site value ⟨.trial, .setUp⟩ ∧
      ∃ v, r = .returned v := by
  by_cases h₁ : p = .acquire .construct
  · subst h₁
    cases hk
    cases r <;> cases hv
  · by_cases h₂ : ∃ w, p = .acquire (.setUp w)
    · obtain ⟨w, rfl⟩ := h₂
      cases hk
      cases r with
      | returned v =>
        cases hv
        exact ⟨rfl, rfl, v, rfl⟩
      | refused problem | crashed text => cases hv
    · have hm := ht.isMaking h₁ fun w hw => h₂ ⟨w, hw⟩
      rw [hv] at hm
      cases hm

end Pass

theorem Pass.isEquipped_of_use {a : Pass} {m : Memory} {p : Point} {q : Request}
    (h : a.call? m p = some q) (hq : q.isUse = true) : p.isEquipped = true := by
  cases p with
  | acquire p => cases p <;> cases h <;> cases hq
  | begin | reject | fail | condemn => cases h
  | _ => rfl

theorem Pass.acquire_of_setUp {a : Pass} {m : Memory} {p : Point} {site : Site} {value : Nat}
    (h : a.call? m p = some (.stage site value ⟨.trial, .setUp⟩)) :
    p = .acquire (.setUp value) := by
  cases p with
  | acquire p => cases p <;> cases h; rfl
  | setUp f p | tearDown f r p | measure f ops p => cases p <;> cases h
  | release r p =>
    cases p with
    | cleaning f p => cases p <;> cases h
    | _ => cases h
  | _ => cases h

namespace Group.Furnished
variable {x : Execution} {h : List Entry} {m m' : Memory} {g g' : Group}

/-- The steps of a member keep the group furnished, and call nothing that is not ready. -/
theorem played (hg : g.Furnished x h m) {i : Nat} {s s' : Strand Pass.Point Report}
    {es : List Event} (hi : g.members[i]? = some s)
    (ha : (x.pass g.iteration i).Played m s m' es s')
    (hc : g.iteration.benchmark = x.trial.benchmark) (f : Event → Entry)
    (hf : ∀ e, (f e).event = e) :
    { g with members := g.members.set i s' }.Furnished x (h ++ es.map f) m' ∧
      ∀ q, .called q ∈ es → x.Ready h q := by
  have hsub (e : Entry) (he : e ∈ h) : e ∈ h ++ es.map f := List.mem_append_left _ he
  have hi' := Group.getElem?_stands hi
  have quiet (he : ∀ e ∈ es, e.isQuiet = true) (q : Request) (hq : .called q ∈ es) :
      x.Ready h q := by
    obtain ⟨d, rfl⟩ := Event.sleep_of_quiet (he _ hq)
    exact .sleep d
  cases ha with
  | rest hp hcall hs he =>
    exact ⟨hg.rest hsub (Group.stands_set_self hi hs) rfl, quiet he⟩
  | @act p _ _ t hp hcall ht he =>
    have hmk : t.isAt Pass.Point.isMaking = false := by
      refine ht.isMaking ?_ fun value => ?_ <;> rintro rfl <;> cases hcall
    refine ⟨hg.member hsub (hp ▸ hi') ht (Group.stands_set ..) ?_ ?_, quiet he⟩
    · rintro value rfl
      cases hmk
    · rintro value rfl
      cases hmk
  | @call p q hp hcall hs =>
    refine ⟨hg.rest hsub (Group.stands_set_self hi hp.symm) rfl, ?_⟩
    intro q' hq
    cases List.mem_singleton.mp hq
    have hmem : .point p ∈ g.stands := List.mem_of_getElem? (hp ▸ hi')
    constructor
    · rintro site value rfl
      cases Pass.acquire_of_setUp hcall
      exact hg.constructed hmem
    · intro hu
      apply hg.built.resolve_right
      rintro ⟨_, hnone⟩
      exact Bool.noConfusion ((Pass.isEquipped_of_use hcall hu).symm.trans (hnone _ hmem))
  | @reply p q r k now hp hcall hs hk ht _ =>
    have hnew : f (.answered q r) ∈ h ++ [Event.answered q r].map f :=
      List.mem_append_right _ List.mem_cons_self
    refine ⟨hg.member hsub (hp ▸ hi') ht (Group.stands_set ..) ?_ ?_, ?_⟩
    · intro value hv
      obtain ⟨rfl, rfl⟩ := Pass.constructed_of_reply hk ht hv
      refine ⟨_, hnew, ?_⟩
      rw [hf, ← hc]
      rfl
    · intro value hv
      obtain ⟨rfl, rfl, v, rfl⟩ := Pass.setUp_of_reply hk ht hv
      have hcons := hg.constructed (hp ▸ List.mem_of_getElem? hi')
      exact ⟨value, hcons.mono hsub, _, hnew, v, hf _⟩
    · intro q' hq
      cases List.mem_singleton.mp hq

theorem opening {c : Iteration} (hw : x.Built h ∨ m.live? x.site = none) :
    (x.group c).Furnished x h m := by
  constructor
  · refine hw.imp_right fun hl => ⟨hl, ?_⟩
    intro t ht
    rw [Group.eq_start_of_mem ht]
    rfl
  · intro value hv
    cases Group.eq_start_of_mem hv
  · intro value hv
    cases Group.eq_start_of_mem hv

end Group.Furnished

/-! ### Runs -/

theorem Conductor.Step.live? {c : Conductor} {m m' : Memory} {p : Conductor.Point}
    {s : Stand Conductor.Point Unit} (h : c.Step m p m' s) (site : Site) :
    m'.live? site = m.live? site := by
  cases h <;> rfl

theorem Clear.step_ne_ask {c : Clear} {m : Memory} {p : Clear.Point} (q : Request)
    (k : Reply → Stand Clear.Point Unit) : c.step m p ≠ .ask q k := by
  intro hv
  cases p with
  | enter =>
    simp only [step] at hv
    split at hv <;> cases hv
  | store | leave => cases hv

theorem Clear.noted {c : Clear} {m m' : Memory} {s s' : Strand Clear.Point Unit} {es : List Event}
    (h : s.Advanced (c.step m) m m' es s') : ∃ notes : List Note, es = notes.map .noted := by
  cases h with
  | act hp hv => exact ⟨_, rfl⟩
  | call hp hv hc => exact absurd hv (step_ne_ask _ _)
  | reply hp hv hc hr => exact absurd hv (step_ne_ask _ _)

def Release.Point.isCleaning : Release.Point → Bool
  | .cleaning .. => true
  | _ => false

theorem Release.Step.stays_vacant {a : Release} {m m' : Memory} {p : Release.Point}
    {t : Stand Release.Point Unit} (h : a.Step m p m' t) (hp : p.isCleaning = false)
    (hl : m.live? a.site = none) :
    m'.live? a.site = none ∧ t.isAt Release.Point.isCleaning = false := by
  have clear {p : Clear.Point} {t : Stand Clear.Point Unit} (h : a.clear.Step m p m' t) :
      m'.live? a.site = none := by
    cases h with
    | enter | leave =>
      simp only [Memory.live?, Memory.setEntered, clear, Table.get_modify_self]
      exact hl
    | store => simp [Memory.live?, Memory.clear, clear]
  cases h with
  | found hl' => cases hl'.symm.trans hl
  | vacant | abort | proceed => exact ⟨hl, rfl⟩
  | cleaning | cleaned | crashed => cases hp
  | clearing hc | cleared hc => exact ⟨clear hc, rfl⟩

namespace Execution
variable {x : Execution} {m : Memory} {h : List Entry} {w w' : World}

def World.Furnished (x : Execution) (h : List Entry) (w : World) : Prop :=
  match w.point with
  | .launch .. | .checkInterrupted .. | .checkFailed .. => x.Built h ∨ w.memory.live? x.site = none
  | .running _ g => g.iteration.benchmark = x.trial.benchmark ∧ g.Furnished x h w.memory
  | .cleaning _ _ s => x.Built h ∨
      w.memory.live? x.site = none ∧ s.stand.isAt Release.Point.isCleaning = false
  | .clearing .. | .ended .. => True

theorem furnished_giveBack {c : Iteration} {now : Nat} {s s' : Strand Release.Point Unit}
    {m' : Memory} {es : List Event} (ha : s.Advanced ((x.giveBack c).step now m) m m' es s')
    (hw : x.Built h ∨ m.live? x.site = none ∧ s.stand.isAt Release.Point.isCleaning = false) :
    (x.Built h ∨ m'.live? x.site = none ∧ s'.stand.isAt Release.Point.isCleaning = false) ∧
      ∀ q, .called q ∈ es → x.Ready h q := by
  constructor
  · apply hw.imp_right
    rintro ⟨hl, hn⟩
    rcases ha.yields with ⟨rfl, hs⟩ | ⟨p, hs, hy⟩
    · exact ⟨hl, hs ▸ hn⟩
    · rw [hs] at hn
      exact (Release.step_of_yields hy).stays_vacant hn hl
  · intro q hq
    cases ha with
    | act hp hv =>
      obtain ⟨n, _, hn⟩ := List.mem_map.mp hq
      cases hn
    | call hp hv hc =>
      cases List.mem_singleton.mp hq
      rcases Release.step_eq_ask hv with ⟨f, rfl, rfl, _⟩ | ⟨_, d, rfl⟩
      · refine ⟨nofun, fun _ => hw.resolve_right ?_⟩
        rintro ⟨_, hn⟩
        rw [hp] at hn
        cases hn
      · exact .sleep d
    | reply hp hv hc hr => cases List.mem_singleton.mp hq

theorem World.Furnished.step (hw : w.Furnished x h) {who : Actor} {es : List Event}
    (hc : Changed x w who es w') :
    w'.Furnished x (h ++ es.map (w.entry who)) ∧ ∀ q, .called q ∈ es → x.Ready h q := by
  have hsub (e : Entry) (he : e ∈ h) : e ∈ h ++ es.map (w.entry who) := List.mem_append_left _ he
  unfold World.Furnished at hw
  cases hc with
  | launch hp =>
    rw [hp] at hw
    exact ⟨⟨rfl, .opening (hw.imp_left fun hb => hb.mono hsub)⟩, by simp⟩
  | member hp hi ha =>
    rw [hp] at hw
    obtain ⟨hb, hg⟩ := hw
    obtain ⟨hg', hready⟩ := hg.played hi (Pass.played_of_advanced ha) hb (w.entry _) fun _ => rfl
    exact ⟨⟨hb, hg'⟩, hready⟩
  | conductor hp ha =>
    rw [hp] at hw
    refine ⟨⟨hw.1, hw.2.rest hsub rfl ?_⟩, ?_⟩
    · rcases ha.yields with ⟨hm, _⟩ | ⟨p, _, hy⟩
      · rw [hm]
      · exact (Conductor.step_of_yields hy).live? _
    · intro q hq
      obtain ⟨d, rfl⟩ := Event.sleep_of_quiet (Conductor.quiet_of_advanced ha _ hq)
      exact .sleep d
  | @settle index g hp he =>
    rw [hp] at hw
    have hnone : x.Built h ∨ w.memory.live? x.site = none := hw.2.built.imp_right And.left
    have hs := x.settled w index g
    refine ⟨?_, by simp⟩
    rw [List.map_nil, List.append_nil]
    generalize x.settle w index g = w' at hs
    cases hs with
    | crashed | last => trivial
    | secondary | primary | next => exact hnone
  | checkInterrupted hp =>
    rw [hp] at hw
    exact ⟨hw.imp_left fun hb => hb.mono hsub, by simp⟩
  | abandon hp => exact ⟨trivial, by simp⟩
  | clean hp =>
    rw [hp] at hw
    exact ⟨hw.imp (fun hb => hb.mono hsub) fun hl => ⟨hl, rfl⟩, by simp⟩
  | cleaning hp ha hs =>
    rw [hp] at hw
    obtain ⟨hw', hready⟩ := furnished_giveBack ha hw
    exact ⟨hw'.imp_left fun hb => hb.mono hsub, hready⟩
  | cleaned hp ha hs hr =>
    rw [hp] at hw
    obtain ⟨_, hready⟩ := furnished_giveBack ha hw
    refine ⟨trivial, ?_⟩
    intro q hq
    rcases List.mem_append.mp hq with hq | hq
    · exact hready q hq
    · cases List.mem_singleton.mp hq
  | cleanupCrashed hp ha hs =>
    rw [hp] at hw
    exact ⟨trivial, (furnished_giveBack ha hw).2⟩
  | @clearing r s s' m es hp ha =>
    obtain ⟨notes, rfl⟩ := Clear.noted ha
    refine ⟨?_, by simp⟩
    cases s'.stand.hasEnded <;> trivial

theorem Run.prepared (hr : x.Run m h w) (hl : m.live? x.site = none) : x.Prepared h := by
  have key : x.Prepared h ∧ w.Furnished x h := by
    refine hr.induct (P := fun h w => x.Prepared h ∧ w.Furnished x h) ⟨.nil, ?_⟩ ?_
    · unfold World.Furnished
      rcases x.start_point m with hp | hp <;> rw [hp]
      · exact .inr hl
      · trivial
    · intro h w who es w' _ ⟨hp, hw⟩ hc
      obtain ⟨hw', hready⟩ := hw.step hc
      refine ⟨hp.append (.of_forall ?_), hw'⟩
      intro e he past q hq
      obtain ⟨ev, hev, rfl⟩ := List.mem_map.mp he
      cases hq
      exact (hready q hev).mono fun e he => List.mem_append_left _ he
  exact key.1

end Execution
end LoadBench
