import LoadBench.Proofs.Custody
import LoadBench.Proofs.Descent
import LoadBench.Proofs.Pool

/-!
# One construction for all

Any number of acquisitions of one vacant site, in one trial and with no release in between. The
`Story` of such a pool is how far the construction has come: nobody has tried, one acquisition is
at it, its fixture is published, or it went wrong. What each acquisition may do and return follows
from the story alone, and the story only changes inside the section of the site, while all
others are outside.
-/

namespace LoadBench

namespace Memory

/-- A fixture is made of a value and its trial level is set up. -/
def Offers (m : Memory) (f value : Nat) : Prop :=
  (m.fixture f).value = value ∧ m.isReady f ⟨.trial, .setUp⟩ = true

/-- What others may do while a site is acquired: anything but change the site, spoil its fixture or
call off a failure. -/
structure Spared (site : Site) (flag : Nat) (m m' : Memory) : Prop where
  slot : m'.slots.get site.id = m.slots.get site.id
  fixture : ∀ f value, m.live? site = some f → m.Offers f value → m'.Offers f value
  failing : m.failing.get flag = true → m'.failing.get flag = true

end Memory

namespace Acquire
open Pool

def company (calls : Nat → Acquire) (others : Memory → Memory → Prop) : Company Point Nat where
  move i _ m p := (calls i).step m p
  others := others

def afterCall (next : Nat → Point) : Reply → Point
  | .returned v => next v
  | .refused problem => .condemn (.refused problem)
  | .crashed text => .condemn (.crashed text)

@[simp] theorem afterCall_reply (next : Nat → Point) (x : Mishap) :
    afterCall next x.reply = .condemn x := by
  cases x <;> rfl

theorem step_eq_ask {a : Acquire} {m : Memory} {p : Point} {q : Request}
    {k : Reply → Stand Point Nat} (h : a.step m p = .ask q k) :
    (p = .construct ∧ q.hook? = some .construct ∧ k = fun r => .point (afterCall .setUp r)) ∨
      ∃ value, p = .setUp value ∧ q.hook? = some (.stage ⟨.trial, .setUp⟩) ∧
        k = fun r => .point (afterCall (fun _ => .publish value) r) := by
  cases p with
  | construct =>
    cases h
    refine .inl ⟨rfl, rfl, ?_⟩
    funext r
    cases r <;> rfl
  | setUp value =>
    cases h
    refine .inr ⟨value, rfl, rfl, ?_⟩
    funext r
    cases r <;> rfl
  | look | recheck => cases hl : m.live? a.site <;> simp [step, hl] at h
  | enter | checkFailed =>
    simp only [step] at h
    split at h <;> cases h
  | publish | condemn | leave => cases h

def isInside (t : Stand Point Nat) : Bool := t.isAt Point.isInside

/-- How far the construction has come. -/
inductive Story where
  | untouched
  | making (i : Nat)
  | made (f : Nat)
  | failed (i : Nat) (x : Mishap)

namespace Story

/-- The acquisition that is at it, or at which it went wrong. -/
def maker? : Story → Option Nat
  | untouched | made _ => none
  | making i | failed i _ => some i

def live? : Story → Option Nat
  | made f => some f
  | _ => none

/-- What the acquisition with number `j` may return. -/
def Answers (s : Story) (a : Acquire) (failing : Bool) (j : Nat) (r : Outcome Nat) : Prop :=
  match s with
  | untouched | making _ => r = .failed .aborted ∧ failing = true
  | made f => r = .ok f ∨ r = .failed .aborted ∧ failing = true
  | failed i x => j = i ∧ r = a.verdict x ∨ j ≠ i ∧ r = .failed .aborted ∧ failing = true

/-- Where the acquisition with number `j` may stand. -/
def Allows (s : Story) (a : Acquire) (failing : Bool) (j : Nat) (t : Strand Point Nat) : Prop :=
  match t.stand with
  | .point .look | .point .enter | .point .recheck => s.maker? ≠ some j
  | .point .checkFailed => s = untouched ∨ ∃ i x, s = failed i x ∧ i ≠ j
  | .point .construct => s = if t.calling then making j else untouched
  | .point (.setUp _) | .point (.publish _) => s = making j
  | .point (.condemn x) => s = failed j x
  | .point (.leave r) | .ended r => s.Answers a failing j r

variable {s s' : Story} {a : Acquire} {failing failing' : Bool} {j : Nat} {t : Strand Point Nat}
  {r : Outcome Nat}

theorem Answers.mono (h : s.Answers a failing j r) (hf : failing = true → failing' = true) :
    s.Answers a failing' j r := by
  cases s with
  | untouched | making => exact h.imp_right hf
  | made f => exact Or.imp_right (And.imp_right hf) h
  | failed i x => exact Or.imp_right (And.imp_right (And.imp_right hf)) h

theorem Allows.mono (h : s.Allows a failing j t) (hf : failing = true → failing' = true) :
    s.Allows a failing' j t := by
  unfold Allows at h ⊢
  split <;> rename_i ht <;> simp only [ht] at h
  all_goals first | exact h | exact h.mono hf

theorem Allows.outside (h : s.Allows a failing j t) (ht : isInside t.stand = false)
    (hm : s'.maker? ≠ some j) (hr : ∀ r, s.Answers a failing j r → s'.Answers a failing' j r) :
    s'.Allows a failing' j t := by
  unfold Allows at h ⊢
  obtain ⟨t, b⟩ := t
  cases t with
  | ended r => exact hr r h
  | point p =>
    cases p with
    | look | enter => exact hm
    | _ => cases ht

end Story

/-! ### What is seen of a construction -/

def begun (i : Nat) : List (Nat × Hook × Option Reply) := [(i, .construct, none)]

def constructed (i v : Nat) : List (Nat × Hook × Option Reply) :=
  begun i ++ [(i, .construct, some (.returned v))]

def settingUp (i v : Nat) : List (Nat × Hook × Option Reply) :=
  constructed i v ++ [(i, .stage ⟨.trial, .setUp⟩, none)]

def built (i v u : Nat) : List (Nat × Hook × Option Reply) :=
  settingUp i v ++ [(i, .stage ⟨.trial, .setUp⟩, some (.returned u))]

/-- An acquisition at its construction, and what was seen of it. -/
inductive Making (i : Nat) : Strand Point Nat → List (Nat × Hook × Option Reply) → Prop where
  | first : Making i ⟨.point .construct, true⟩ (begun i)
  | second {v : Nat} : Making i ⟨.point (.setUp v), false⟩ (constructed i v)
  | third {v : Nat} : Making i ⟨.point (.setUp v), true⟩ (settingUp i v)
  | last {v u : Nat} {b : Bool} : Making i ⟨.point (.publish v), b⟩ (built i v u)

inductive Broken (i : Nat) (x : Mishap) : List (Nat × Hook × Option Reply) → Prop where
  | first : Broken i x (begun i ++ [(i, .construct, some x.reply)])
  | second {v : Nat} : Broken i x (settingUp i v ++ [(i, .stage ⟨.trial, .setUp⟩, some x.reply)])

theorem Making.isInside {i : Nat} {t : Strand Point Nat} {seen : List (Nat × Hook × Option Reply)}
    (h : Making i t seen) : isInside t.stand = true := by cases h <;> rfl

/-- What the memory, the maker and the hooks tell of the construction. -/
def Story.Shows (s : Story) (flag : Nat) (seen : List (Nat × Hook × Option Reply))
    (w : Pool Point Nat) : Prop :=
  match s with
  | .untouched => seen = []
  | .making i => ∃ t, w.strands[i]? = some t ∧ Making i t seen
  | .made f => ∃ i v u, seen = built i v u ∧ w.memory.Offers f v
  | .failed i x => Broken i x seen ∧
      (w.memory.failing.get flag = true ∨ ∃ b, w.strands[i]? = some ⟨.point (.condemn x), b⟩)

/-- The pool is as its story tells; unless the construction went wrong, a failure
is the doing of others. -/
structure Tale (calls : Nat → Acquire) (site : Site) (flag : Nat) (quiet : Prop) (s : Story)
    (seen : List (Nat × Hook × Option Reply)) (w : Pool Point Nat) : Prop where
  inside : Kept (w.memory.isEntered site) isInside w.strands
  live : w.memory.live? site = s.live?
  shown : s.Shows flag seen w
  each : ∀ {j t}, w.strands[j]? = some t → s.Allows (calls j) (w.memory.failing.get flag) j t
  calm : quiet → (∀ i x, s ≠ .failed i x) → w.memory.failing.get flag = false

section
variable {calls : Nat → Acquire} {others : Memory → Memory → Prop} {site : Site} {flag : Nat}
  {quiet : Prop} {s s' : Story} {seen seen' : List (Nat × Hook × Option Reply)} {w : Pool Point Nat}
  {m : Memory} {i : Nat} {p : Point} {b : Bool} {t : Strand Point Nat}

theorem Story.Shows.set (h : s.Shows flag seen w) (hf : w.memory.failing.get flag = true →
    m.failing.get flag = true)
    (hr : ∀ f v, s = .made f → w.memory.Offers f v → m.Offers f v)
    (hi : s.maker? ≠ some i ∨ (∃ x, s = .failed i x) ∧ m.failing.get flag = true) :
    s.Shows flag seen ⟨m, w.strands.set i t⟩ := by
  cases s with
  | untouched => exact h
  | making k =>
    obtain ⟨u, hu, hk⟩ := h
    have hik : i ≠ k := by
      rintro rfl
      rcases hi with hi | ⟨⟨x, hx⟩, _⟩
      · exact hi rfl
      · cases hx
    exact ⟨u, by rw [List.getElem?_set_ne hik]; exact hu, hk⟩
  | made f =>
    obtain ⟨k, v, u, hs, hv⟩ := h
    exact ⟨k, v, u, hs, hr f v rfl hv⟩
  | failed k x =>
    refine ⟨h.1, ?_⟩
    rcases hi with hi | ⟨_, hm⟩
    · have hik : i ≠ k := fun e => hi (by rw [e]; rfl)
      refine h.2.imp hf ?_
      rintro ⟨b, hb⟩
      exact ⟨b, by rw [List.getElem?_set_ne hik]; exact hb⟩
    · exact .inl hm

theorem Tale.set (h : Tale calls site flag quiet s seen w)
    (hk : Kept (m.isEntered site) isInside (w.strands.set i t))
    (hl : m.live? site = w.memory.live? site) (hm : m.failing = w.memory.failing ∨
      ∃ k x, s = .failed k x) (hf : w.memory.failing.get flag = true → m.failing.get flag = true)
    (hs : s.Shows flag seen ⟨m, w.strands.set i t⟩)
    (ht : s.Allows (calls i) (m.failing.get flag) i t) :
    Tale calls site flag quiet s seen ⟨m, w.strands.set i t⟩ where
  inside := hk
  live := hl.trans h.live
  shown := hs
  each := by
    intro j u hj
    rcases getElem?_set_eq_some hj with ⟨rfl, rfl⟩ | ⟨_, hj⟩
    · exact ht
    · exact (h.each hj).mono hf
  calm hq hne := by
    rcases hm with hm | ⟨k, x, rfl⟩
    · exact hm ▸ h.calm hq hne
    · exact absurd rfl (hne k x)

theorem Tale.turn (h : Tale calls site flag quiet s seen w)
    (hi : w.strands[i]? = some ⟨.point p, b⟩) (hp : p.isInside = true)
    (hk : Kept (m.isEntered site) isInside (w.strands.set i t)) (hl : m.live? site = s'.live?)
    (hm : m.failing = w.memory.failing) (hne : ∀ k x, s ≠ .failed k x)
    (hmaker : ∀ j, s'.maker? = some j → j = i) (hr : ∀ j r, j ≠ i →
      s.Answers (calls j) (m.failing.get flag) j r → s'.Answers (calls j) (m.failing.get flag) j r)
    (hs : s'.Shows flag seen' ⟨m, w.strands.set i t⟩)
    (ht : s'.Allows (calls i) (m.failing.get flag) i t) :
    Tale calls site flag quiet s' seen' ⟨m, w.strands.set i t⟩ where
  inside := hk
  live := hl
  shown := hs
  each := by
    intro j u hj
    rcases getElem?_set_eq_some hj with ⟨rfl, rfl⟩ | ⟨hij, hj⟩
    · exact ht
    · refine (h.each hj).outside ?_ (fun e => hij (hmaker j e).symm) fun r hr' => hr j r hij.symm ?_
      · cases hu : isInside u.stand with
        | false => rfl
        | true => exact absurd (h.inside.unique hi hp hj hu) hij
      · rw [hm]
        exact hr'
  calm hq _ := hm ▸ h.calm hq hne

/-- Somebody at the construction keeps everybody else out of the section. -/
theorem Tale.not_making (h : Tale calls site flag quiet s seen w)
    (hi : w.strands[i]? = some ⟨.point p, b⟩) (hp : p.isInside = true) (hm : s.maker? ≠ some i)
    (k : Nat) : s ≠ .making k := by
  rintro rfl
  obtain ⟨u, hu, hmk⟩ := h.shown
  cases h.inside.unique hi hp hu hmk.isInside
  exact hm rfl

/-- The maker leaves the section only after the construction is over and a
failure of it is marked. -/
theorem Tale.maker_done (h : Tale calls site flag quiet s seen w) (hi : w.strands[i]? = some t)
    (hmk : ∀ seen, ¬ Making i t seen) (hc : ∀ x, t.stand ≠ .point (.condemn x)) :
    s.maker? ≠ some i ∨ (∃ x, s = .failed i x) ∧ w.memory.failing.get flag = true := by
  cases s with
  | untouched | made => exact .inl nofun
  | making k =>
    refine .inl fun e => ?_
    cases e
    obtain ⟨u, hu, hk⟩ := h.shown
    cases hi.symm.trans hu
    exact hmk _ hk
  | failed k x =>
    by_cases hki : k = i
    · subst hki
      rcases h.shown.2 with hf | ⟨b, hb⟩
      · exact .inr ⟨⟨x, rfl⟩, hf⟩
      · cases hi.symm.trans hb
        exact absurd rfl (hc x)
    · exact .inl fun e => hki (Option.some.inj e)

theorem Tale.act (hsite : (calls i).site = site) (hflag : (calls i).iteration.trial = flag)
    (h : Tale calls site flag quiet s seen w) (hi : w.strands[i]? = some ⟨.point p, b⟩)
    (ht : (calls i).Step w.memory p m t.stand) (hc : p ≠ .construct) (hv : ∀ v, p ≠ .setUp v)
    (hb : t.calling = false) :
    ∃ s', Tale calls site flag quiet s' seen ⟨m, w.strands.set i t⟩ := by
  obtain ⟨t, _⟩ := t
  subst hsite hflag
  have ha := h.each hi
  have hl := h.live
  cases hb
  -- what is shown stays as long as it is not the maker who acts, or the failure is marked
  have shown : ∀ {m : Memory} {t : Stand Point Nat}, m.failing = w.memory.failing →
      m.fixtures = w.memory.fixtures →
      (s.maker? ≠ some i ∨ (∃ x, s = .failed i x) ∧
        m.failing.get (calls i).iteration.trial = true) →
      s.Shows (calls i).iteration.trial seen ⟨m, w.strands.set i ⟨t, false⟩⟩ := by
    intro m t hf hx hi'
    refine h.shown.set (by rw [hf]; exact id) (fun f v _ hr => ?_) hi'
    rw [Memory.Offers, Memory.isReady, Memory.fixture, hx]
    exact hr
  cases ht with
  | @found f hlive =>
    rw [hlive] at hl
    cases s <;> cases hl
    exact ⟨_, h.set (h.inside.still hi rfl) rfl (.inl rfl) id
      (shown rfl rfl (.inl (by rintro ⟨⟩))) (.inl rfl)⟩
  | vacant hlive =>
    exact ⟨s, h.set (h.inside.still hi rfl) rfl (.inl rfl) id (shown rfl rfl (.inl ha)) ha⟩
  | enter he =>
    refine ⟨s, h.set (h.inside.set hi ?_) (Memory.live?_setEntered ..) (.inl rfl) id
      (shown rfl rfl (.inl ha)) ha⟩
    rw [Memory.isEntered_setEntered, he]
    simp [isInside, Point.isInside]
  | @foundLate f hlive =>
    rw [hlive] at hl
    cases s <;> cases hl
    exact ⟨_, h.set (h.inside.still hi rfl) rfl (.inl rfl) id
      (shown rfl rfl (.inl (by rintro ⟨⟩))) (.inl rfl)⟩
  | stillVacant hlive =>
    have hn := h.not_making hi rfl ha
    refine ⟨s, h.set (h.inside.still hi rfl) rfl (.inl rfl) id (shown rfl rfl (.inl ha)) ?_⟩
    cases s with
    | untouched => exact .inl rfl
    | making k => exact absurd rfl (hn k)
    | made f => rw [hlive] at hl; cases hl
    | failed k x => exact .inr ⟨k, x, rfl, fun e => ha (by rw [e]; rfl)⟩
  | abort hf =>
    have hm : s.maker? ≠ some i := by
      rcases ha with rfl | ⟨k, x, rfl, hk⟩
      · rintro ⟨⟩
      · exact fun e => hk (Option.some.inj e)
    refine ⟨s, h.set (h.inside.still hi rfl) rfl (.inl rfl) id (shown rfl rfl (.inl hm)) ?_⟩
    rcases ha with rfl | ⟨k, x, rfl, hk⟩
    · exact ⟨rfl, hf⟩
    · exact .inr ⟨hk.symm, rfl, hf⟩
  | proceed hf =>
    rcases ha with rfl | ⟨k, x, rfl, hk⟩
    · exact ⟨_, h.set (h.inside.still hi rfl) rfl (.inl rfl) id
        (shown rfl rfl (.inl (by rintro ⟨⟩))) rfl⟩
    · -- the one at which it went wrong marks the failure before leaving the section
      rcases h.shown.2 with hf' | ⟨b', hb⟩
      · exact absurd (hf.symm.trans hf') (by simp)
      · exact absurd (h.inside.unique hb rfl hi rfl) hk
  | constructed | mishap => exact absurd rfl hc
  | setUp | setUpMishap => exact absurd rfl (hv _)
  | @publish value =>
    cases ha
    obtain ⟨u, hu, hmk⟩ := h.shown
    cases hi.symm.trans hu
    cases hmk
    refine ⟨.made w.memory.published,
      h.turn hi rfl (h.inside.set hi ?_) ?_ rfl (by rintro _ _ ⟨⟩) (by rintro _ ⟨⟩) ?_
      ⟨i, _, _, rfl, ?_⟩ (.inl rfl)⟩
    · rw [Memory.isEntered_publish]
      rfl
    · rw [Memory.live?_publish, if_pos rfl]
      rfl
    · exact fun j r _ hr => .inr hr
    · rw [Memory.Offers, Memory.isReady, Memory.fixture_publish, if_pos rfl]
      exact ⟨rfl, rfl⟩
  | @condemn x =>
    cases ha
    have hf :
        (w.memory.setFailed (calls i).iteration).failing.get (calls i).iteration.trial = true :=
      Memory.hasFailed_setFailed_self ..
    refine ⟨.failed i x, h.set (h.inside.still hi rfl) rfl (.inr ⟨i, x, rfl⟩) (fun _ => hf) ?_
      (.inl ⟨rfl, rfl⟩)⟩
    exact ⟨h.shown.1, .inl hf⟩
  | @leave r =>
    have he : w.memory.isEntered (calls i).site = true := h.inside.taken_of hi rfl
    refine ⟨s, h.set (h.inside.set hi ?_) (Memory.live?_setEntered ..) (.inl rfl) id
      (shown rfl rfl ?_) ha⟩
    · rw [Memory.isEntered_setEntered, he]
      simp [isInside, Point.isInside]
    · exact h.maker_done hi (by rintro _ ⟨⟩) (by rintro _ ⟨⟩)

/-- A call of a hook, or its reply, inside the section: the maker goes on, or it has gone wrong. -/
theorem Tale.played (h : Tale calls site flag quiet s seen w)
    (hi : w.strands[i]? = some ⟨.point p, b⟩) (hp : p.isInside = true)
    (hne : ∀ k x, s ≠ .failed k x) (hl : s.live? = none) (ht : isInside t.stand = true)
    (hs : Making i t seen' ∨ ∃ x, t.stand = .point (.condemn x) ∧ Broken i x seen') :
    ∃ s', Tale calls site flag quiet s' seen' ⟨w.memory, w.strands.set i t⟩ := by
  have hlt : i < w.strands.length := (List.getElem?_eq_some_iff.mp hi).1
  have hk : Kept (w.memory.isEntered site) isInside (w.strands.set i t) :=
    h.inside.still hi (by rw [ht]; exact hp.symm)
  have hr :
      ∀ {s' : Story}, (∀ j r, j ≠ i → r = .failed .aborted ∧ w.memory.failing.get flag = true →
      s'.Answers (calls j) (w.memory.failing.get flag) j r) → ∀ j r, j ≠ i →
      s.Answers (calls j) (w.memory.failing.get flag) j r →
        s'.Answers (calls j) (w.memory.failing.get flag) j r := by
    intro s' hs' j r hj hr
    cases s with
    | untouched | making => exact hs' j r hj hr
    | made f => cases hl
    | failed k x => exact absurd rfl (hne k x)
  rcases hs with hmk | ⟨x, hx, hbr⟩
  · refine ⟨.making i, h.turn hi hp hk (h.live.trans hl) rfl hne
      (fun j e => (Option.some.inj e).symm) (hr fun j r _ hr => hr) ⟨t, by simp [hlt], hmk⟩ ?_⟩
    cases hmk <;> rfl
  · refine ⟨.failed i x, h.turn hi hp hk (h.live.trans hl) rfl hne
      (fun j e => (Option.some.inj e).symm)
      (hr fun j r hj hr => .inr ⟨hj, hr⟩) ⟨hbr, .inr ⟨t.calling, ?_⟩⟩ ?_⟩
    · simp [hlt, ← hx]
    · unfold Story.Allows
      rw [hx]

end

def Quiet (others : Memory → Memory → Prop) (flag : Nat) : Prop :=
  ∀ m m', others m m' → m'.failing.get flag = m.failing.get flag

section
variable {n : Nat} {calls : Nat → Acquire} {others : Memory → Memory → Prop}
  {site : Site} {flag : Nat} {h es : List (Pool.Entry Point)} {w w' : Pool Point Nat} {m : Memory}

theorem Tale.step (hsite : ∀ i, (calls i).site = site)
    (hflag : ∀ i, (calls i).iteration.trial = flag)
    (ho : ∀ m m', others m m' → m.Spared site flag m') {s : Story}
    (ht : Tale calls site flag (Quiet others flag) s (hooks h) w)
    (hc : Changed (company calls others) w es w') :
    ∃ s', Tale calls site flag (Quiet others flag) s' (hooks (h ++ es)) w' := by
  rw [hooks_append]
  generalize hooks h = seen at ht ⊢
  cases hc with
  | @others m hm =>
    have hsp := ho _ _ hm
    have hl : m.live? site = w.memory.live? site := by rw [Memory.live?, hsp.slot]; rfl
    have he : m.isEntered site = w.memory.isEntered site := by rw [Memory.isEntered, hsp.slot]; rfl
    refine ⟨s, ⟨he ▸ ht.inside, hl.trans ht.live, ?_, fun hj => (ht.each hj).mono hsp.failing,
      fun hq hne => (hq _ _ hm).trans (ht.calm hq hne)⟩⟩
    have hs := ht.shown
    rw [hooks_nil, List.append_nil]
    cases s with
    | untouched | making => exact hs
    | made f =>
      obtain ⟨k, v, u, hs, hv⟩ := hs
      exact ⟨k, v, u, hs, hsp.fixture f v ht.live hv⟩
    | failed k x => exact ⟨hs.1, hs.2.imp_left hsp.failing⟩
  | @step i now p b m es t hi ha =>
    have hat := ht.each hi
    cases ha with
    | rest hv hq =>
      rcases step_eq_ask hv with ⟨_, hq', _⟩ | ⟨_, _, hq', _⟩
      · cases hq.symm.trans hq'
      · cases hq.symm.trans hq'
    | act hq he hy =>
      rw [hooks_eq_nil he, List.append_nil]
      refine ht.act (hsite i) (hflag i) hi (step_of_yields hy) ?_ ?_ rfl
      · rintro rfl
        cases hq
      · rintro v rfl
        cases hq
    | @call q k o hv hq hb =>
      subst hb
      rw [List.map_singleton, hooks_called p hq]
      rcases step_eq_ask hv with ⟨rfl, hq', _⟩ | ⟨v, rfl, hq', _⟩
      all_goals
        cases hat
        cases hq.symm.trans hq'
      · refine ht.played hi rfl (by simp) rfl rfl (.inl ?_)
        rw [ht.shown]
        exact .first
      · obtain ⟨u, hu, hmk⟩ := ht.shown
        cases hi.symm.trans hu
        cases hmk with
        | second => exact ht.played hi rfl (by simp) rfl rfl (.inl .third)
    | @reply q k o r hv hq hb =>
      subst hb
      rw [List.map_singleton, hooks_answered p r hq]
      rcases step_eq_ask hv with ⟨rfl, hq', rfl⟩ | ⟨v, rfl, hq', rfl⟩
      all_goals
        cases hat
        cases hq.symm.trans hq'
        obtain ⟨u, hu, hmk⟩ := ht.shown
        cases hi.symm.trans hu
        rcases r.returned_or with ⟨u, rfl⟩ | ⟨x, rfl⟩
      · cases hmk with
        | first => exact ht.played hi rfl (by simp) rfl rfl (.inl .second)
      · cases hmk with
        | first =>
          exact ht.played hi rfl (by simp) rfl (by simp [isInside, Point.isInside])
            (.inr ⟨x, by simp, .first⟩)
      · cases hmk with
        | third => exact ht.played hi rfl (by simp) rfl rfl (.inl .last)
      · cases hmk with
        | third =>
          exact ht.played hi rfl (by simp) rfl (by simp [isInside, Point.isInside])
            (.inr ⟨x, by simp, .second⟩)

theorem Tale.of_gather (hl : m.live? site = none) (he : m.isEntered site = false)
    (hf : m.failing.get flag = false) {quiet : Prop} :
    Tale calls site flag quiet .untouched [] (gather n (fun _ => .look) m) where
  inside := by
    change Kept (m.isEntered site) _ _
    rw [he]
    refine .of_none fun s hs => ?_
    obtain ⟨j, hj⟩ := List.mem_iff_getElem?.mp hs
    rw [getElem?_gather hj]
    rfl
  live := hl
  shown := rfl
  each := by
    intro j t hj
    rw [getElem?_gather hj]
    exact nofun
  calm _ _ := hf

theorem tale_of_run (hsite : ∀ i, (calls i).site = site)
    (hflag : ∀ i, (calls i).iteration.trial = flag)
    (ho : ∀ m m', others m m' → m.Spared site flag m') (hl : m.live? site = none)
    (he : m.isEntered site = false) (hf : m.failing.get flag = false)
    (hr : Run (company calls others) (gather n (fun _ => .look) m) h w) :
    ∃ s, Tale calls site flag (Quiet others flag) s (hooks h) w :=
  hr.induct (P := fun h w => ∃ s, Tale calls site flag (Quiet others flag) s (hooks h) w)
    ⟨_, .of_gather hl he hf⟩ fun _ ⟨_, ht⟩ hc => ht.step hsite hflag ho hc

end

/-! ### What the hooks say of the story -/

section
variable {s : Story} {flag i j v : Nat} {o : Hook} {x y : Mishap} {w : Pool Point Nat}
  {t : Strand Point Nat} {seen : List (Nat × Hook × Option Reply)}

theorem Broken.mishap (h : Broken i x seen) (hm : (j, o, some y.reply) ∈ seen) : j = i ∧ y = x := by
  cases h with
  | first =>
    simp [begun] at hm
    exact ⟨hm.1, hm.2.2⟩
  | second =>
    simp [settingUp, constructed, begun] at hm
    exact ⟨hm.1, hm.2.2⟩

theorem Broken.not_returned (h : Broken i x seen) :
    (j, .stage ⟨.trial, .setUp⟩, some (.returned v)) ∉ seen := by
  intro hm
  cases h with
  | first => simp [begun] at hm
  | second => simp [settingUp, constructed, begun, eq_comm (a := Reply.returned v)] at hm

theorem Broken.exists_mishap (h : Broken i x seen) : ∃ o, (i, o, some x.reply) ∈ seen := by
  cases h with
  | first => exact ⟨.construct, by simp⟩
  | second => exact ⟨.stage ⟨.trial, .setUp⟩, by simp⟩

theorem Making.point (h : Making i t seen) : ∃ p, t.stand = .point p := by
  cases h <;> exact ⟨_, rfl⟩

theorem Making.no_mishap (h : Making i t seen) : (j, o, some y.reply) ∉ seen := by
  intro hm
  cases h <;> simp [built, settingUp, constructed, begun] at hm

theorem Making.returned (h : Making i t seen) {u : Nat}
    (hm : (j, .stage ⟨.trial, .setUp⟩, some (.returned u)) ∈ seen) :
    j = i ∧ ∃ v, (i, .construct, some (.returned v)) ∈ seen ∧ t.stand = .point (.publish v) := by
  cases h with
  | @last v u' =>
    simp [built, settingUp, constructed, begun] at hm
    exact ⟨hm.1, v, by simp [built, settingUp, constructed], rfl⟩
  | first | second | third => simp [settingUp, constructed, begun] at hm

theorem Story.Shows.mishap (h : s.Shows flag seen w) (hm : (j, o, some y.reply) ∈ seen) :
    s = .failed j y := by
  cases s with
  | untouched => rw [h] at hm; cases hm
  | making k =>
    obtain ⟨t, _, hk⟩ := h
    exact absurd hm hk.no_mishap
  | made f =>
    obtain ⟨k, v, u, rfl, _⟩ := h
    exact absurd hm (Making.last (b := false)).no_mishap
  | failed k x =>
    obtain ⟨rfl, rfl⟩ := h.1.mishap hm
    rfl

/-- Construction is attempted at most once. -/
theorem Story.Shows.once (h : s.Shows flag seen w) :
    seen.countP (fun e => e.2.1 = .construct && e.2.2.isNone) ≤ 1 := by
  cases s with
  | untouched => rw [h]; exact Nat.zero_le _
  | making k =>
    obtain ⟨t, _, hk⟩ := h
    cases hk <;> exact Nat.le_refl 1
  | made f =>
    obtain ⟨k, v, u, rfl, _⟩ := h
    exact Nat.le_refl 1
  | failed k x =>
    obtain ⟨hb, _⟩ := h
    cases hb <;> exact Nat.le_refl 1

end

/-! ### Everybody comes to an end -/

section
variable {n : Nat} {calls : Nat → Acquire} {others : Memory → Memory → Prop}
  {site : Site} {flag : Nat} {h : List (Pool.Entry Point)} {w : Pool Point Nat} {m : Memory}

/-- Whoever is in the section can leave it, and when it is free nobody is blocked. -/
theorem Tale.onward (hsite : ∀ i, (calls i).site = site) {quiet : Prop} {s : Story}
    {seen : List (Nat × Hook × Option Reply)} (ht : Tale calls site flag quiet s seen w)
    (he : w.hasEnded = false) :
    ∃ (i : Nat) (p : Point) (b : Bool), w.strands[i]? = some ⟨.point p, b⟩ ∧
      (company calls others).move i 0 w.memory p ≠ .blocked ∧
        ∀ m q, ((company calls others).move i 0 w.memory p).Yields w.memory m (.point q) →
          q.rank < p.rank := by
  have hdown :
      ∀ {i : Nat} {p : Point} m q, ((calls i).step w.memory p).Yields w.memory m (.point q) →
      q.rank < p.rank := fun m q hy => (step_of_yields hy).descends
  cases hent : w.memory.isEntered site with
  | true =>
    have hin := ht.inside
    rw [hent] at hin
    obtain ⟨i, ⟨t, b⟩, hi, hs⟩ := hin.exists_holder
    cases t with
    | ended r => cases hs
    | point p =>
      refine ⟨i, p, b, hi, fun hb => ?_, hdown⟩
      obtain ⟨rfl, _⟩ := of_blocked hb
      cases hs
  | false =>
    obtain ⟨i, p, b, hi⟩ := exists_point he
    refine ⟨i, p, b, hi, fun hb => ?_, hdown⟩
    obtain ⟨_, hb⟩ := of_blocked hb
    rw [hsite, hent] at hb
    cases hb

/-- What acquisitions of one site, side by side, agree on. -/
structure Agreement (n : Nat) (calls : Nat → Acquire) (others : Memory → Memory → Prop)
    (site : Site) (flag : Nat) (h : List (Pool.Entry Point)) (w : Pool Point Nat) : Prop where
  /-- Construction is attempted at most once. -/
  once : (hooks h).countP (fun e => e.2.1 = .construct && e.2.2.isNone) ≤ 1
  /-- Once it has succeeded, all get the fixture that was made then and is live at the site, and
  nobody is turned away unless somebody else marks the trial failing. -/
  made : ∀ {i u : Nat}, (i, .stage ⟨.trial, .setUp⟩, some (.returned u)) ∈ hooks h →
    ∃ v, (i, .construct, some (.returned v)) ∈ hooks h ∧
      (∀ {j r}, w.outcome? j = some r → r = .failed .aborted ∧ ¬ Quiet others flag ∨
        ∃ f, r = .ok f ∧ w.memory.live? site = some f ∧ w.memory.Offers f v) ∧
      (w.hasEnded = true → ∃ f, w.memory.live? site = some f ∧ w.memory.Offers f v)
  /-- Once it has gone wrong, the one who tried says so and all others are turned away. -/
  failed : ∀ {i : Nat} {o : Hook} {x : Mishap}, (i, o, some x.reply) ∈ hooks h →
    w.memory.live? site = none ∧
    (∀ {j r}, w.outcome? j = some r →
      w.memory.failing.get flag = true ∧ r = if j = i then (calls i).verdict x
        else .failed .aborted) ∧
    (w.hasEnded = true → w.outcome? i = some ((calls i).verdict x))
  /-- In the end it has succeeded or gone wrong, or somebody else has marked the
  trial failing before. -/
  decided : w.hasEnded = true → 0 < n →
    (∃ i v, (i, .stage ⟨.trial, .setUp⟩, some (.returned v)) ∈ hooks h) ∨
    (∃ (i : Nat) (o : Hook) (x : Mishap), (i, o, some x.reply) ∈ hooks h) ∨
    (¬ Quiet others flag ∧ hooks h = [] ∧ ∀ {j r}, w.outcome? j = some r → r = .failed .aborted)
  /-- Nobody is stuck. -/
  completes : ∃ steps, (w.play (company calls others) steps).2.hasEnded = true

theorem acquisitions_agree (hsite : ∀ i, (calls i).site = site)
    (hflag : ∀ i, (calls i).iteration.trial = flag)
    (ho : ∀ m m', others m m' → m.Spared site flag m') (hl : m.live? site = none)
    (he : m.isEntered site = false) (hf : m.failing.get flag = false)
    (hr : Run (company calls others) (gather n (fun _ => .look) m) h w) :
    Agreement n calls others site flag h w := by
  obtain ⟨s, ht⟩ := tale_of_run hsite hflag ho hl he hf hr
  have answers : ∀ {j r}, w.outcome? j = some r →
      s.Answers (calls j) (w.memory.failing.get flag) j r := by
    intro j r hj
    obtain ⟨b, hj⟩ := outcome?_eq_some.mp hj
    exact ht.each hj
  have loud : (∀ i x, s ≠ .failed i x) → w.memory.failing.get flag = true → ¬ Quiet others flag :=
    fun hne hf hq => Bool.noConfusion ((ht.calm hq hne).symm.trans hf)
  constructor
  · exact ht.shown.once
  · intro i u hm
    have hs := ht.shown
    cases s with
    | untouched => rw [hs] at hm; cases hm
    | making k =>
      obtain ⟨⟨t, b⟩, hk, hmk⟩ := hs
      obtain ⟨rfl, v, hv, rfl⟩ := hmk.returned hm
      refine ⟨v, hv, fun hj => ?_, fun he' => Bool.noConfusion ((not_ended hk).symm.trans he')⟩
      obtain ⟨rfl, hf⟩ := answers hj
      exact .inl ⟨rfl, loud nofun hf⟩
    | made f =>
      obtain ⟨k, v, u, hs, hv⟩ := hs
      rw [hs] at hm ⊢
      obtain ⟨rfl, _⟩ : i = k ∧ _ := by simpa [built, settingUp, constructed, begun] using hm
      refine ⟨v, by simp [built, settingUp, constructed], fun hj => ?_, fun _ => ⟨f, ht.live, hv⟩⟩
      rcases answers hj with rfl | ⟨rfl, hf⟩
      · exact .inr ⟨f, rfl, ht.live, hv⟩
      · exact .inl ⟨rfl, loud nofun hf⟩
    | failed k x => exact absurd hm hs.1.not_returned
  · intro i o x hm
    have hlt := hr.lt_of_mem hm
    cases ht.shown.mishap hm
    have told : ∀ {j r}, w.outcome? j = some r →
        w.memory.failing.get flag = true ∧ r = if j = i then (calls i).verdict x
          else .failed .aborted := by
      intro j r hj
      rcases answers hj with ⟨rfl, rfl⟩ | ⟨hji, rfl, hf⟩
      · obtain ⟨b, hend⟩ := outcome?_eq_some.mp hj
        obtain hm | ⟨_, hf⟩ := ht.maker_done hend nofun nofun
        · exact absurd rfl hm
        · exact ⟨hf, by simp⟩
      · exact ⟨hf, by simp [hji]⟩
    refine ⟨ht.live, told, fun hend => ?_⟩
    obtain ⟨r, hi⟩ := exists_outcome hend hlt
    have hv := (told hi).2
    rw [if_pos rfl] at hv
    rw [hi, hv]
  · intro hend hn
    have hs := ht.shown
    cases s with
    | untouched =>
      have hlt : 0 < w.strands.length := by rw [hr.length, length_gather]; exact hn
      obtain ⟨r, hj⟩ := exists_outcome hend hlt
      exact .inr (.inr ⟨loud nofun (answers hj).2, hs, fun hj => (answers hj).1⟩)
    | making k =>
      obtain ⟨⟨t, b⟩, hk, hmk⟩ := hs
      obtain ⟨p, rfl⟩ := hmk.point
      exact Bool.noConfusion ((not_ended hk).symm.trans hend)
    | made f =>
      obtain ⟨k, v, u, hs, _⟩ := hs
      exact .inl ⟨k, u, by rw [hs]; simp [built]⟩
    | failed k x =>
      obtain ⟨o, ho⟩ := hs.1.exists_mishap
      exact .inr (.inl ⟨k, o, x, ho⟩)
  · refine hr.finish Point.rank fun hr he' => ?_
    obtain ⟨s, ht⟩ := tale_of_run hsite hflag ho hl he hf hr
    exact ht.onward hsite he'

def pair : Company Point Nat :=
  company (fun _ => ⟨Execution.duet.iteration 0 0, Execution.duet.site⟩) fun m m' => m' = m

theorem acquisitions_agree_pair :
    let run := (gather 2 (fun _ => .look) {}).play pair (inTurn 12 (.returned 7))
    ∃ i f v, (i, .construct, some (.returned v)) ∈ hooks run.1 ∧ run.2.memory.Offers f v ∧
      run.2.outcome? 0 = some (.ok f) ∧ run.2.outcome? 1 = some (.ok f) := by
  intro run
  have hagree : Agreement 2 _ _ Execution.duet.site 0 run.1 run.2 :=
    acquisitions_agree (fun _ => rfl) (fun _ => rfl)
      (by rintro m _ rfl; exact ⟨rfl, fun _ _ _ h => h, id⟩) rfl rfl rfl
      (run_play pair (gather 2 (fun _ => .look) {}) (inTurn 12 (.returned 7)))
  have hend : run.2.hasEnded = true := by decide +kernel
  have h0 : run.2.outcome? 0 = some (.ok 0) := by decide +kernel
  have h1 : run.2.outcome? 1 = some (.ok 0) := by decide +kernel
  rcases hagree.decided hend (by decide) with ⟨i, u, hs⟩ | ⟨i, o, x, hx⟩ | ⟨_, _, ha⟩
  · obtain ⟨v, hv, hall, _⟩ := hagree.made hs
    rcases hall h0 with ⟨hn, _⟩ | ⟨f, hf, _, ho⟩
    · cases hn
    · cases hf
      exact ⟨i, 0, v, hv, ho, h0, h1⟩
  · have hr := ((hagree.failed hx).2.1 h0).2
    split at hr
    · exact absurd (congrArg Outcome.isOk hr) (by rw [isOk_verdict]; exact nofun)
    · cases hr
  · cases ha h0

end
end Acquire
end LoadBench
