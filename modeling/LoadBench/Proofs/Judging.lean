import LoadBench.Proofs.Termination
import LoadBench.Proofs.Verdict

/-!
# Which error a trial reports

From an iteration that has failed the caller comes to the end of the trial alone, whatever its
cleanup comes to, and reports the verdict (`Execution.World.Judging`). The failure flag keeps the
cases apart, because by then the trial is failing exactly if somebody is to blame for it. A trial
that does not end well has come to its end this way, or never began (`Execution.Run.judged`).
-/

namespace LoadBench

theorem Group.rank_of_ended {g : Group} (he : g.hasEnded = true) : g.rank = 0 := by
  obtain ⟨hc, hm⟩ := Bool.and_eq_true_iff.mp he
  rw [rank, if_pos hc]
  exact Pool.rank_eq_zero fun s hs => List.all_eq_true.mp hm s hs

namespace Execution
variable {x : Execution} {g : Group} {replies : List Reply} {h : List Entry}
  {w w' : World} {who : Actor} {es : List Event}

/-- Where the caller stands after an iteration has failed, by the replies to its cleanup so far. -/
def World.Judging (x : Execution) (g : Group) (replies : List Reply) (w : World) : Prop :=
  match w.point with
  | .launch .. => False
  | .running _ g' => g' = g ∧ replies = [] ∧ g.Over x w.memory
  | .checkInterrupted c _ => c = g.iteration ∧ replies = [] ∧ g.Over x w.memory ∧ g.Mild
  | .checkFailed c e =>
    c = g.iteration ∧ replies = [] ∧ g.Over x w.memory ∧ x.verdict g [] = .failed e
  | .cleaning c e s =>
    e = .interrupted ∧ g.Mild ∧ x.Tidying c replies w.memory s.stand ∧ s.stand.hasEnded = false
  | .clearing r s => x.verdict g replies = r ∧ Clear.Alone w.memory x.site s.stand ∧
    Clear.Vacating (w.memory.live? x.site) s.stand ∧ s.stand.hasEnded = false
  | .ended r => x.verdict g replies = r ∧ w.memory.Quiet x.site

/-- The caller makes of the outcomes what the verdict says. -/
theorem judging_settle {index : Nat} (ho : g.Over x w.memory) :
    (x.settle w index g).Judging x g [] := by
  obtain ⟨_, o, ho', hno⟩ := ho.failed
  unfold settle
  rw [firstCrash?_eq]
  cases hc : g.outcomes.findSome? Outcome.crash? with
  | some text => exact ⟨verdict_crashed hc _, ho.quiet.left, trivial, rfl⟩
  | none =>
    cases hd : decisive? g.outcomes with
    | none =>
      cases o with
      | ok r => cases hno
      | failed e => exact absurd ho' (decisive?_eq_none hd e)
      | crashed text => cases List.findSome?_eq_none_iff.mp hc _ ho'
    | some e =>
      have hp := primary_of_decisive? hd
      cases hs : e.isSecondary with
      | true =>
        rw [hs] at hp
        simp only [hs, if_true]
        exact ⟨rfl, rfl, ho, hc, hp⟩
      | false =>
        rw [hs] at hp
        simp only [hs, Bool.false_eq_true, if_false]
        exact ⟨rfl, rfl, ho, verdict_primary hc hp _⟩

theorem World.Judging.step (hw : w.Judging x g (cleanups h)) (hc : Changed x w who es w') :
    w'.Judging x g (cleanups (h ++ es.map (w.entry who))) := by
  have nothing : cleanups (h ++ ([] : List Event).map (w.entry who)) = cleanups h := by simp
  unfold World.Judging at hw
  cases hc with
  | launch hp =>
    rw [hp] at hw
    exact hw.elim
  | member hp hi ha =>
    rw [hp] at hw
    obtain ⟨rfl, _, ho⟩ := hw
    exact absurd (.member hi ha) (Group.not_acted ho.failed.1)
  | conductor hp ha =>
    rw [hp] at hw
    obtain ⟨rfl, _, ho⟩ := hw
    exact absurd (.conductor ha) (Group.not_acted ho.failed.1)
  | settle hp he =>
    rw [hp] at hw
    obtain ⟨rfl, hr, ho⟩ := hw
    rw [nothing, hr]
    exact judging_settle ho
  | checkInterrupted hp =>
    rw [hp] at hw
    obtain ⟨rfl, hr, ho, hmild⟩ := hw
    refine ⟨rfl, nothing.trans hr, ho, ?_⟩
    rw [if_pos (ho.interrupted hmild)]
    exact verdict_mild hmild _
  | abandon hp hf =>
    rw [hp] at hw
    obtain ⟨rfl, hr, ho, hv⟩ := hw
    refine ⟨?_, ho.quiet.left, trivial, rfl⟩
    rw [cleanups_append, hr]
    exact hv
  | clean hp hf =>
    rw [hp] at hw
    obtain ⟨rfl, hr, ho, hv⟩ := hw
    have hmild : g.Mild :=
      Classical.byContradiction fun hn => Bool.noConfusion ((ho.blamed.mpr hn).symm.trans hf)
    refine ⟨?_, hmild, ⟨nothing.trans hr, hf, ho.quiet⟩, rfl⟩
    rw [verdict_mild hmild] at hv
    cases hv
    rfl
  | cleaning hp ha hs =>
    rw [hp] at hw
    obtain ⟨rfl, hmild, ht, _⟩ := hw
    exact ⟨rfl, hmild, ht.advanced ha, Strand.hasEnded_of_outcome? hs⟩
  | @cleaned c e e' now s s' m es r hp ha hs hr =>
    rw [hp] at hw
    obtain ⟨rfl, hmild, ht, _⟩ := hw
    have ht' := ht.advanced (w := w) ha
    rw [Strand.outcome?_eq_some.mp hs] at ht'
    obtain ⟨hr', hquiet⟩ := ht'
    refine ⟨?_, hquiet.left, trivial, rfl⟩
    have hsame : cleanups (h ++ (es ++ [Event.noted (.trialFailed x.trial.benchmark.label e')]).map
        (w.entry .caller)) = cleanups (h ++ es.map (w.entry .caller)) := by
      rw [List.map_append, ← List.append_assoc, cleanups_append]
      exact List.append_nil _
    rw [hsame, verdict_mild hmild, ← hr']
    rcases hr with ⟨rfl, rfl⟩ | rfl <;> rfl
  | cleanupCrashed hp ha hs =>
    rw [hp] at hw
    obtain ⟨rfl, hmild, ht, _⟩ := hw
    have ht' := ht.advanced (w := w) ha
    rw [Strand.outcome?_eq_some.mp hs] at ht'
    obtain ⟨hr', hquiet⟩ := ht'
    refine ⟨?_, hquiet⟩
    rw [verdict_mild hmild, ← hr']
  | @clearing r s s' m es hp ha =>
    rw [hp] at hw
    obtain ⟨hv, halone, hvac, _⟩ := hw
    obtain ⟨notes, rfl⟩ := Clear.noted ha
    have hv' : x.verdict g (cleanups (h ++ (notes.map Event.noted).map (w.entry .caller))) = r := by
      rw [cleanups_append, cleanups_noted, List.append_nil]
      exact hv
    have halone' := Clear.alone_of_advanced ha halone
    have hvac' := Clear.vacating_of_advanced ha hvac
    cases hs : s'.stand with
    | point p => exact ⟨hv', halone', hvac', congrArg Stand.hasEnded hs⟩
    | ended o =>
      rw [hs] at halone' hvac'
      exact ⟨hv', .of_vacant halone' hvac'⟩

/-! ### The end of the trial -/

theorem Tidying.alone {c : Iteration} {m : Memory} {t : Stand Release.Point Unit}
    (ht : x.Tidying c replies m t) :
    Release.Alone m x.site t := by
  cases t with
  | ended o => trivial
  | point p =>
    cases p with
    | look | checkFailed => trivial
    | cleaning f p =>
      cases p with
      | queued q => exact ht.2.2.2.elim
      | _ => trivial
    | clearing o p => exact ht.2.1

namespace World.Judging

theorem alone (hw : w.Judging x g replies) : w.Alone x := by
  unfold World.Judging at hw
  unfold World.Alone
  cases hp : w.point with
  | launch =>
    rw [hp] at hw
    exact hw.elim
  | running index g' =>
    rw [hp] at hw
    obtain ⟨rfl, _, ho⟩ := hw
    exact ho.failed.1
  | checkInterrupted | checkFailed | ended => trivial
  | cleaning c e s =>
    rw [hp] at hw
    obtain ⟨_, _, ht, hended⟩ := hw
    exact ⟨ht.alone, hended⟩
  | clearing r s =>
    rw [hp] at hw
    obtain ⟨_, halone, _, hended⟩ := hw
    exact ⟨halone, hended⟩

theorem play (hw : w.Judging x g (cleanups h)) (steps : List (Actor × Nat × Reply)) :
    (x.play steps w).2.Judging x g (cleanups (h ++ (x.play steps w).1)) := by
  induction steps generalizing h w with
  | nil =>
    unfold Execution.play
    exact (List.append_nil h).symm ▸ hw
  | cons s rest ih =>
    obtain ⟨who, now, reply⟩ := s
    unfold Execution.play
    split
    · exact ih hw
    · rename_i w' es ha
      rw [← List.append_assoc]
      exact ih (hw.step (changed_of_advance ha))

theorem ended (hw : w.Judging x g replies) {r : Outcome Summary} (hr : w.outcome? = some r) :
    x.verdict g replies = r ∧ w.memory.Quiet x.site := by
  unfold World.Judging at hw
  rw [World.point_of_outcome? hr] at hw
  exact hw

theorem ends (hw : w.Judging x g (cleanups h)) {steps : List (Actor × Nat × Reply)}
    (hn : w.rank ≤ steps.countP fun s => s.1 = .caller) :
    ∃ r, (x.play steps w).2.outcome? = some r := by
  induction steps generalizing h w with
  | nil => exact hw.alone.ended (Nat.le_zero.mp hn)
  | cons s rest ih =>
    obtain ⟨who, now, reply⟩ := s
    rw [List.countP_cons] at hn
    unfold Execution.play
    split
    · rename_i hnone
      refine ih hw ?_
      by_cases hwho : who = .caller
      · -- the caller has no step only once the trial has ended
        subst hwho
        cases ho : w.outcome? with
        | none =>
          obtain ⟨w', es, hsome⟩ := hw.alone.able ho now reply
          cases hnone.symm.trans hsome
        | some r =>
          have h0 : w.rank = 0 := World.rank_of_outcome? ho
          omega
      · simpa [hwho] using hn
    · rename_i w' es ha
      have hc := changed_of_advance ha
      have hlt := hw.alone.descends hc
      refine ih (hw.step hc) ?_
      split at hn <;> omega

end World.Judging

variable {m : Memory}

/-- The threads cannot be divided among the subgroups. -/
def Uneven (x : Execution) : Prop := x.threads.val % x.trial.subgroups.val ≠ 0

/-- A run has come to a world by way of an iteration that has failed; since then `rest` was seen. -/
def FromFailed (x : Execution) (m : Memory) (h : List Entry) (w : World) (g : Group)
    (rest : List Entry) : Prop :=
  ∃ past w₀ index steps, x.Run m past w₀ ∧ w₀.point = .running index g ∧ g.Failed ∧
    x.play steps w₀ = (rest, w) ∧ h = past ++ rest

theorem FromFailed.step {rest : List Entry} (hw : x.FromFailed m h w g rest) {now : Nat}
    {reply : Reply} (ha : x.advance who now reply w = some (w', es)) :
    x.FromFailed m (h ++ es.map (w.entry who)) w' g (rest ++ es.map (w.entry who)) := by
  obtain ⟨past, w₀, index, steps, hr, hp, hg, hplay, rfl⟩ := hw
  refine ⟨past, w₀, index, steps ++ [(who, now, reply)], hr, hp, hg, ?_, List.append_assoc ..⟩
  apply Prod.ext
  · rw [play_append_fst, hplay]
    simp [play, ha]
  · rw [play_append, hplay]
    simp [play, ha]

def World.Traced (x : Execution) (m : Memory) (h : List Entry) (w : World) : Prop :=
  match w.point with
  | .launch .. | .running .. => True
  | .ended r => w.memory.Quiet x.site ∧ (r.isOk = true ∨ x.Uneven ∧ r = .crashed groupMessage) ∨
    ∃ g rest, x.FromFailed m h w g rest
  | .checkInterrupted .. | .checkFailed .. | .cleaning .. | .clearing .. =>
    ∃ g rest, x.FromFailed m h w g rest

theorem FromFailed.traced {rest : List Entry} (hw : x.FromFailed m h w g rest) :
    w.Traced x m h := by
  unfold World.Traced
  split
  · trivial
  · trivial
  · exact .inr ⟨g, rest, hw⟩
  · exact ⟨g, rest, hw⟩
  · exact ⟨g, rest, hw⟩
  · exact ⟨g, rest, hw⟩
  · exact ⟨g, rest, hw⟩

theorem Run.traced (hr : x.Run m h w) (hf : m.failing.get x.flag = false) (hm : m.Quiet x.site) :
    w.Traced x m h := by
  induction hr with
  | start =>
    unfold World.Traced Execution.start
    by_cases hd : x.threads.val % x.trial.subgroups.val = 0
    · simp only [if_pos hd]
    · simp only [if_neg hd]
      exact .inl ⟨hm, .inr ⟨hd, trivial⟩⟩
  | @step h w w' who now reply es hr ha hw =>
    unfold World.Traced at hw
    have hc := changed_of_advance ha
    cases hc with
    | launch | member | conductor => trivial
    | @settle index g hp he =>
      by_cases hg : ∃ o ∈ g.outcomes, o.isOk = false
      · have hfrom : x.FromFailed m h w g [] :=
          ⟨h, w, index, [], hr, hp, ⟨he, hg⟩, rfl, (List.append_nil h).symm⟩
        exact (hfrom.step ha).traced
      · have hok (o : Outcome Report) (ho : o ∈ g.outcomes) : o.isOk = true :=
          Bool.not_eq_false _ ▸ fun hn => hg ⟨o, ho, hn⟩
        unfold World.Traced
        rcases x.settle_of_ok hok with ⟨s, hs⟩ | ⟨i, mask, hs⟩ <;> rw [hs]
        · obtain ⟨marks, f, hag, hA⟩ := (hr.answerable hf hm).2 hp
          rw [memory_settle]
          exact .inl ⟨hA.kept.quiet hag he, .inl rfl⟩
        · trivial
    | checkInterrupted hp | abandon hp | clean hp | cleaning hp | cleaned hp | cleanupCrashed hp
    | clearing hp =>
      rw [hp] at hw
      obtain ⟨g, rest, hw⟩ := hw
      exact (hw.step ha).traced

/-- An iteration that has failed along a run. -/
theorem Run.judging (hr : x.Run m h w) (hf : m.failing.get x.flag = false)
    (hm : m.Quiet x.site) {index : Nat} (hp : w.point = .running index g) (hg : g.Failed) :
    w.Judging x g (cleanups []) := by
  obtain ⟨marks, f, ha, hA⟩ := (hr.answerable hf hm).2 hp
  unfold World.Judging
  rw [hp]
  exact ⟨rfl, rfl, hA.over ha hg⟩

/-- A trial that ends by way of an iteration that has failed reports the verdict on it,
and the site is quiet. -/
theorem FromFailed.ended {rest : List Entry} (hw : x.FromFailed m h w g rest)
    (hf : m.failing.get x.flag = false) (hm : m.Quiet x.site) {r : Outcome Summary}
    (hend : w.outcome? = some r) :
    x.verdict g (cleanups rest) = r ∧ w.memory.Quiet x.site := by
  obtain ⟨past, w₀, index, steps, hr, hp, hg, hplay, _⟩ := hw
  have hjudging := (hr.judging hf hm hp hg).play steps
  rw [hplay] at hjudging
  exact hjudging.ended hend

/-- A trial leaves its site quiet, as it found it. -/
theorem Run.quiet (hr : x.Run m h w) (hf : m.failing.get x.flag = false) (hm : m.Quiet x.site)
    {r : Outcome Summary} (hend : w.outcome? = some r) : w.memory.Quiet x.site := by
  have ht := hr.traced hf hm
  unfold World.Traced at ht
  rw [World.point_of_outcome? hend] at ht
  rcases ht with ⟨hquiet, _⟩ | ⟨g, rest, hfrom⟩
  · exact hquiet
  · exact (hfrom.ended hf hm hend).2

/-- Which error a trial reports if nobody else uses its site: nobody is in the section there or in a
gate when it starts, and only its own members, its conductors and its caller act. Whatever hooks and
the workload do and in whatever order everybody acts, it never reports that others were waited for
in vain; it ends well, or it cannot divide its threads, or one of its iterations has failed. Then
what it reports is the verdict on that iteration: the first crash, or else the first primary
failure, or else the iteration was interrupted, and it is what went wrong in the caller's cleanup or
the interruption itself. And it does report, once the caller had its turns. -/
theorem Run.judged (hr : x.Run m h w) (hf : m.failing.get x.flag = false) (hm : m.Quiet x.site) :
    (∀ r, w.outcome? = some r → r ≠ .failed .aborted ∧
      (r.isOk = true ∨ x.Uneven ∧ r = .crashed groupMessage ∨
        ∃ g rest, x.FromFailed m h w g rest ∧ r = x.verdict g (cleanups rest))) ∧
      ∀ index g, w.point = .running index g → g.Failed →
        g.outcomes.map some = g.members.map Strand.outcome? ∧
          (g.Mild → w.memory.isInterrupted g.iteration = true) ∧
          ∀ steps : List (Actor × Nat × Reply),
            (∀ r, (x.play steps w).2.outcome? = some r →
              r = x.verdict g (cleanups (x.play steps w).1)) ∧
              (35 ≤ (steps.countP fun s => s.1 = .caller) →
                ∃ r, (x.play steps w).2.outcome? = some r) := by
  constructor
  · intro r hend
    have ht := hr.traced hf hm
    unfold World.Traced at ht
    rw [World.point_of_outcome? hend] at ht
    rcases ht with ⟨_, hok | ⟨huneven, rfl⟩⟩ | ⟨g, rest, hfrom⟩
    · refine ⟨?_, .inl hok⟩
      rintro rfl
      cases hok
    · exact ⟨nofun, .inr (.inl ⟨huneven, rfl⟩)⟩
    · have hverdict := (hfrom.ended hf hm hend).1
      exact ⟨hverdict ▸ verdict_ne_aborted _ _ _, .inr (.inr ⟨g, rest, hfrom, hverdict.symm⟩)⟩
  · intro index g hp hg
    have hw := hr.judging hf hm hp hg
    have hrank : w.rank = 35 := by
      unfold World.rank
      rw [hp]
      exact congrArg (35 + ·) (Group.rank_of_ended hg.1)
    obtain ⟨marks, f, ha, hA⟩ := (hr.answerable hf hm).2 hp
    refine ⟨Group.map_outcomes hg.1, (hA.over ha hg).interrupted,
      fun steps => ⟨fun r hend => ?_, fun hn => ?_⟩⟩
    · exact ((hw.play steps).ended hend).1.symm
    · exact hw.ends (hrank ▸ hn)

/-- Member 1 of a duet constructs the fixture, which is refused; then everybody
goes on to their ends. -/
def refusal : List (Actor × Nat × Reply) :=
  [(.caller, 0, .returned 0)] ++ List.replicate 12 (.member 1, 0, .refused "down") ++
    rounds 8 (.returned 0)

/-- Member 0 has a secondary failure to report, and what is reported is the primary one of the
other member. -/
theorem judged_duet :
    ∃ g, (duet.play refusal (duet.start {})).2.point = .running 0 g ∧ g.Failed ∧
      g.outcomes.findSome? Outcome.failure? = some .aborted ∧
      ∀ steps : List (Actor × Nat × Reply), 35 ≤ (steps.countP fun s => s.1 = .caller) →
        (duet.play steps (duet.play refusal (duet.start {})).2).2.outcome? =
          some (.failed (.setUp "fixture" ⟨.trial, .setUp⟩ "down")) := by
  have hr := run_play duet {} refusal
  have hend : (duet.play refusal (duet.start {})).2.running?.any (fun q =>
      q.1 = 0 ∧ q.2.hasEnded = true ∧ (q.2.outcomes.any fun o => !o.isOk) = true ∧
        q.2.outcomes.findSome? Outcome.failure? = some .aborted ∧
        q.2.outcomes.findSome? Outcome.crash? = none ∧
        q.2.outcomes.findSome? Outcome.primary? =
          some (.setUp "fixture" ⟨.trial, .setUp⟩ "down")) = true := by
    decide +kernel
  obtain ⟨⟨index, g⟩, hg, hq⟩ := (Option.any_eq_true _ _).mp hend
  obtain ⟨rfl, he, hno, hfirst, hcrash, hprimary⟩ := of_decide_eq_true hq
  have hp := World.point_of_running? hg
  have hfailed : g.Failed := ⟨he, by simpa using hno⟩
  obtain ⟨_, _, hjudged⟩ := (hr.judged rfl (.of_vacant rfl rfl)).2 0 g hp hfailed
  refine ⟨g, hp, hfailed, hfirst, fun steps hn => ?_⟩
  obtain ⟨hverdict, hends⟩ := hjudged steps
  obtain ⟨r, hout⟩ := hends hn
  rw [hout, hverdict r hout, verdict_primary hcrash hprimary]

end Execution
end LoadBench
