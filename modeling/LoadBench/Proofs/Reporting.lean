import LoadBench.Proofs.Masks
import LoadBench.Proofs.Termination
import LoadBench.Proofs.Unhindered

/-!
# What a trial reports

A trial that ends well has executed its iterations one after the other, each with every member of
its group, and reports those that were not warmups, in that order, with the reports of the members
in theirs. It counts its iterations with 32 bits and stops counting at the largest number: exactly
the trials that want no more than that many execute every iteration that they want, end with a
measured one, and report all that were to be measured (`Execution.Trail.reports_measured`).
-/

namespace LoadBench

theorem Outcome.map_ok_results {α : Type} {l : List (Outcome α)} (ho : ∀ o ∈ l, o.isOk = true) :
    (Execution.results l).map .ok = l := by
  induction l with
  | nil => rfl
  | cons o rest ih =>
    have hrest := ih fun o ho' => ho o (List.mem_cons_of_mem _ ho')
    cases o with
    | ok v => exact congrArg (List.cons _) hrest
    | failed e | crashed text => cases ho _ List.mem_cons_self

theorem Trial.iterations_eq (t : Trial) :
    t.iterations = min (t.warmups + t.measurements) (2 ^ 32 - 1) := rfl

namespace Group
variable {g : Group}

/-- Where everybody has ended well, the results stand in the order of the members. -/
theorem stands_of_ok (he : g.hasEnded = true) (ho : ∀ o ∈ g.outcomes, o.isOk = true) :
    g.stands = (Execution.results g.outcomes).map fun r => .ended (.ok r) := by
  have hstand (s : Strand Pass.Point Report) (hs : s ∈ g.members) :
      s.outcome?.map Stand.ended = some s.stand := by
    obtain ⟨o, ho⟩ := exists_outcome he (List.mem_map_of_mem hs)
    rw [Strand.outcome?_eq_some.mpr ho, ho]
    rfl
  have hsome : g.stands.map some = (g.outcomes.map Stand.ended).map some := by
    calc
      g.stands.map some = g.members.map fun s => s.outcome?.map Stand.ended := by
        rw [stands, List.map_map]
        exact List.map_congr_left fun s hs => (hstand s hs).symm
      _ = (g.members.map Strand.outcome?).map (Option.map Stand.ended) := by rw [List.map_map]; rfl
      _ = (g.outcomes.map Stand.ended).map some := by
        rw [← map_outcomes he, List.map_map, List.map_map]; rfl
  calc
    g.stands = g.outcomes.map Stand.ended :=
      List.map_injective_iff.mpr (Option.some_injective _) hsome
    _ = ((Execution.results g.outcomes).map .ok).map Stand.ended := by
      rw [Outcome.map_ok_results ho]
    _ = (Execution.results g.outcomes).map fun r => .ended (.ok r) := List.map_map

end Group

namespace Execution
variable {x : Execution} {trail : List World} {w w' : World} {index : Nat} {g : Group}
  {mask : UInt32} {past : List (Nat × Group)} {reports : List (List Report)} {s : Summary}

def World.over? (w : World) : Option (Nat × Group) := w.running?.filter fun e => e.2.hasEnded

def executed (trail : List World) : List (Nat × Group) := trail.filterMap World.over?

def launched (trail : List World) : List Nat := trail.filterMap fun w => w.launching?.map Prod.fst

/-- An iteration that was executed as it should be, by all threads. -/
structure Full (x : Execution) (e : Nat × Group) : Prop where
  iteration : e.2.iteration = x.iteration e.1 e.2.iteration.created
  stands : e.2.stands = (results e.2.outcomes).map fun r => .ended (.ok r)
  length : (results e.2.outcomes).length = x.threads

def measuredReports (x : Execution) (past : List (Nat × Group)) : List (List Report) :=
  (past.drop x.trial.warmups).map fun e => results e.2.outcomes

/-- What a trial has executed before an iteration. -/
structure Underway (x : Execution) (past : List (Nat × Group)) (reports : List (List Report))
    (index : Nat) :
    Prop where
  lt : index < x.trial.iterations
  indices : past.map Prod.fst = List.range index
  full : ∀ e ∈ past, x.Full e
  reports : reports = x.measuredReports past

/-- What a trial that has ended well has executed, and what it reports. -/
structure Reported (x : Execution) (trail : List World) (s : Summary) : Prop where
  launched : launched trail = List.range x.trial.iterations
  indices : (executed trail).map Prod.fst = List.range x.trial.iterations
  full : ∀ e ∈ executed trail, x.Full e
  isLast : ∀ e ∈ executed trail, e.2.iteration.isLast = true ↔ e.1 + 1 = x.trial.iterations
  summary : s = x.summary (x.measuredReports (executed trail))

/-- Every iteration that was wanted has been executed, the last of them was measured, and all that
were to be measured are reported. -/
structure Complete (x : Execution) (trail : List World) (s : Summary) : Prop where
  count : (executed trail).length = x.trial.warmups + x.trial.measurements
  measured : ∀ e ∈ executed trail, e.2.iteration.isLast = true → x.isWarmup e.1 = false
  entries : s.iterations.length = x.trial.measurements

theorem executed_append : executed (trail ++ [w']) = executed trail ++ w'.over?.toList := by
  rw [executed, List.filterMap_append, ← executed]
  cases h : w'.over? <;> simp [h]

theorem launched_append :
    launched (trail ++ [w']) = launched trail ++ (w'.launching?.map Prod.fst).toList := by
  rw [launched, List.filterMap_append, ← launched]
  cases h : w'.launching? <;> simp [h]

theorem World.over?_of_running (hp : w.point = .running index g) :
    w.over? = if g.hasEnded then some (index, g) else none := by
  rw [over?, running?, hp]
  cases he : g.hasEnded <;> simp [Option.filter, he]

theorem executed_append_of_none (h : w'.running? = none) :
    executed (trail ++ [w']) = executed trail := by
  rw [executed_append, World.over?, h]
  exact List.append_nil _

theorem Full.isLast {e : Nat × Group} (h : x.Full e) :
    e.2.iteration.isLast = true ↔ e.1 + 1 = x.trial.iterations := by
  rw [h.iteration]
  exact decide_eq_true_iff

theorem measuredReports_append {e : Nat × Group} (he : past.length = e.1) :
    x.measuredReports (past ++ [e]) =
      if x.isWarmup e.1 then x.measuredReports past
        else x.measuredReports past ++ [results e.2.outcomes] := by
  unfold measuredReports isWarmup
  rw [List.drop_append, he, List.map_append]
  by_cases hw : e.1 < x.trial.warmups
  · have hnone : [e].drop (x.trial.warmups - e.1) = [] :=
      List.drop_eq_nil_of_le (by rw [List.length_singleton]; omega)
    rw [if_pos (decide_eq_true hw), hnone, List.map_nil, List.append_nil]
  · rw [if_neg (by simpa using hw), Nat.sub_eq_zero_of_le (Nat.le_of_not_lt hw)]
    rfl

theorem Underway.length (h : x.Underway past reports index) : past.length = index := by
  rw [← List.length_map Prod.fst, h.indices, List.length_range]

/-- One more iteration, executed by all threads. -/
theorem Underway.append (h : x.Underway past w.reports index) (hg : x.Full (index, g)) :
    (past ++ [(index, g)]).map Prod.fst = List.range (index + 1) ∧
      (∀ e ∈ past ++ [(index, g)], x.Full e) ∧
      (if x.isWarmup index then w.reports else w.reports ++ [results g.outcomes]) =
        x.measuredReports (past ++ [(index, g)]) := by
  refine ⟨?_, fun e he => ?_, ?_⟩
  · rw [List.map_append, h.indices, List.range_succ]
    rfl
  · rcases List.mem_append.mp he with he | he
    · exact h.full e he
    · exact List.mem_singleton.mp he ▸ hg
  · rw [measuredReports_append (e := (index, g)) h.length, h.reports]

def World.Tracked (x : Execution) (trail : List World) (w : World) : Prop :=
  match w.point with
  | .launch index _ =>
    x.Underway (executed trail) w.reports index ∧ launched trail = List.range (index + 1)
  | .running index g =>
    g.iteration = x.iteration index g.iteration.created ∧ g.members.length = x.threads ∧
      launched trail = List.range (index + 1) ∧
      ∃ past, executed trail = past ++ w.over?.toList ∧ x.Underway past w.reports index
  | .clearing r _ => r.isOk = false
  | .ended (.ok s) => x.Reported trail s
  | _ => True

namespace World.Tracked

/-- A group acts only until everybody in it has ended. -/
theorem acted {who : Actor} {es : List Event} {g' : Group} (h : w.Tracked x trail)
    (hp : w.point = .running index g) (ha : g.Acted x w.memory who es w'.memory g')
    (hp' : w'.point = .running index g') (hr : w'.reports = w.reports) :
    w'.Tracked x (trail ++ [w']) := by
  unfold Tracked at h ⊢
  rw [hp] at h
  rw [hp']
  obtain ⟨hc, hlength, hlaunched, past, hpast, hunderway⟩ := h
  have hgoing : w.over? = none := by
    rw [over?_of_running hp, if_neg fun he => Group.not_acted he ha]
  have hg' : g'.iteration = g.iteration ∧ g'.members.length = g.members.length := by
    cases ha with
    | member => exact ⟨rfl, List.length_set⟩
    | conductor => exact ⟨rfl, rfl⟩
  refine ⟨hg'.1 ▸ hc, hg'.2.trans hlength, ?_, past, ?_, hr ▸ hunderway⟩
  · rw [launched_append, hlaunched, launching?, hp']
    exact List.append_nil _
  · rw [executed_append, hpast, hgoing]
    exact congrArg (· ++ _) (List.append_nil past)

theorem launch {now : Nat} (h : w.Tracked x trail) (hp : w.point = .launch index mask)
    (hp' : w'.point = .running index (x.group (x.iteration index now)))
    (hr : w'.reports = w.reports) :
    w'.Tracked x (trail ++ [w']) := by
  unfold Tracked at h ⊢
  rw [hp] at h
  rw [hp']
  refine ⟨rfl, by simp [group], ?_, executed trail, executed_append, hr ▸ h.1⟩
  rw [launched_append, h.2, launching?, hp']
  exact List.append_nil _

theorem settle (h : w.Tracked x trail) (hp : w.point = .running index g) (he : g.hasEnded = true) :
    (x.settle w index g).Tracked x (trail ++ [x.settle w index g]) := by
  unfold Tracked at h
  rw [hp] at h
  obtain ⟨hc, hlength, hlaunched, past, hpast, hunderway⟩ := h
  by_cases ho : ∀ o ∈ g.outcomes, o.isOk = true
  · have hfull : x.Full (index, g) := by
      have hstands := Group.stands_of_ok he ho
      refine ⟨hc, hstands, ?_⟩
      rw [← hlength, ← List.length_map Strand.stand, ← Group.stands, hstands, List.length_map]
    obtain ⟨hindices, hall, hreports⟩ := hunderway.append hfull
    have hexecuted : executed trail = past ++ [(index, g)] := by
      rw [hpast, over?_of_running hp, if_pos he]
      rfl
    rw [settle_eq_of_ok ho, hreports]
    by_cases hl : index + 1 = x.trial.iterations
    · simp only [if_pos hl]
      refine ⟨?_, ?_, ?_, ?_, ?_⟩
      · rw [launched_append, hlaunched, ← hl]
        exact List.append_nil _
      all_goals rw [executed_append_of_none rfl, hexecuted]
      · rw [hindices, ← hl]
      · exact hall
      · exact fun e he => (hall e he).isLast
    · simp only [if_neg hl]
      have hlt : index + 1 < x.trial.iterations := Nat.lt_of_le_of_ne hunderway.lt hl
      refine ⟨?_, ?_⟩
      · rw [executed_append_of_none rfl, hexecuted]
        exact ⟨hlt, hindices, hall, rfl⟩
      · rw [launched_append, hlaunched, List.range_succ (n := index + 1)]
        rfl
  · have hs := Execution.settled x w index g
    generalize x.settle w index g = w' at hs
    cases hs with
    | crashed => rfl
    | secondary | primary => trivial
    | last ho' | next ho' => exact absurd ho' ho

theorem step {who : Actor} {es : List Event} (h : w.Tracked x trail) (hc : Changed x w who es w') :
    w'.Tracked x (trail ++ [w']) := by
  cases hc with
  | launch hp => exact h.launch hp rfl rfl
  | member hp hi ha => exact h.acted hp (.member hi ha) rfl rfl
  | conductor hp ha => exact h.acted hp (.conductor ha) rfl rfl
  | settle hp he => exact h.settle hp he
  | @clearing r s s' _ _ hp ha =>
    -- whoever clears the site does not end the trial well
    have hr : r.isOk = false := by
      unfold Tracked at h
      rwa [hp] at h
    cases s'.stand.hasEnded with
    | false => exact hr
    | true =>
      cases r with
      | ok s => cases hr
      | failed e | crashed text => trivial
  | abandon | cleaned => rfl
  | checkInterrupted | clean | cleaning | cleanupCrashed => trivial

end World.Tracked

theorem Trail.tracked {m : Memory} (ht : x.Trail m trail w) : w.Tracked x trail := by
  refine ht.induct (P := fun trail w => w.Tracked x trail) ?_ fun _ h hc => h.step hc
  rcases x.start_point m with hp | hp <;> unfold World.Tracked <;> rw [hp]
  · have hover : (x.start m).over? = none := by rw [World.over?, World.running?, hp]; rfl
    have hexecuted : executed [x.start m] = [] := by
      rw [executed, List.filterMap_cons_none hover]; rfl
    have hlaunching : (x.start m).launching? = some (0, 0) := by rw [World.launching?, hp]
    have hnone : (x.start m).reports = x.measuredReports [] := by
      rw [measuredReports, List.drop_nil]; rfl
    refine ⟨?_, ?_⟩
    · rw [hexecuted]
      exact ⟨x.trial.iterations_pos, rfl, fun _ he => absurd he List.not_mem_nil, hnone⟩
    · rw [launched, List.filterMap_cons_some (by rw [hlaunching]; rfl)]
      rfl
  · trivial

theorem Reported.length (h : x.Reported trail s) :
    (executed trail).length = x.trial.iterations := by
  rw [← List.length_map Prod.fst, h.indices, List.length_range]

/-- Stopping at the largest 32-bit number loses iterations exactly if there are more. -/
theorem Reported.complete_iff (h : x.Reported trail s) :
    x.Complete trail s ↔ x.trial.warmups + x.trial.measurements < 2 ^ 32 := by
  have hpos : 0 < x.trial.measurements.val := x.trial.measurements.pos
  have htotal := x.trial.iterations_eq
  constructor
  · intro hc
    have hcount := hc.count
    rw [h.length] at hcount
    omega
  · intro hlt
    have hall : x.trial.iterations = x.trial.warmups + x.trial.measurements := by omega
    refine ⟨h.length.trans hall, fun e he hlast => ?_, ?_⟩
    · have hindex := (h.isLast e he).mp hlast
      exact decide_eq_false (by omega)
    · rw [h.summary]
      show (x.measuredReports (executed trail)).length = _
      rw [measuredReports, List.length_map, List.length_drop, h.length, hall,
        Nat.add_sub_cancel_left]

theorem Trail.reported {m : Memory} (ht : x.Trail m trail w) (hw : w.point = .ended (.ok s)) :
    x.Reported trail s := by
  have htracked : w.Tracked x trail := ht.tracked
  unfold World.Tracked at htracked
  rwa [hw] at htracked

/-- One thread that takes a single shot in each iteration. -/
def shooter (warmups : Nat) : Execution :=
  { duet with
    trial := { duet.trial with warmups, benchmark := .plain "bench" .singleShot }, threads := .one }

/-- However many warmups come first, the trial can end well. -/
theorem exists_trail_shooter (warmups : Nat) :
    ∃ trail w s, (shooter warmups).Trail {} trail w ∧ w.point = .ended (.ok s) := by
  obtain ⟨h, w, s, hr, hw⟩ :=
    exists_run_ok (x := shooter warmups) (m := {}) ⟨rfl, rfl, rfl⟩ rfl (.of_vacant rfl rfl)
  obtain ⟨trail, ht⟩ := hr.trail
  exact ⟨trail, w, s, ht, hw⟩

/-- A trial that ends well reports what it has executed, and it has executed everything exactly if
the number of iterations that it wants has 32 bits. -/
theorem Trail.reports_measured {m : Memory} (ht : x.Trail m trail w)
    (hw : w.point = .ended (.ok s)) :
    x.Reported trail s ∧ (x.Complete trail s ↔ x.trial.warmups + x.trial.measurements < 2 ^ 32) :=
  ⟨ht.reported hw, (ht.reported hw).complete_iff⟩

theorem reports_measured_shooter :
    ∃ trail w s, (shooter 1).Trail {} trail w ∧ w.point = .ended (.ok s) ∧
      (shooter 1).Reported trail s ∧ (shooter 1).Complete trail s := by
  obtain ⟨trail, w, s, ht, hw⟩ := exists_trail_shooter 1
  have hfew : 1 + 1 < 2 ^ 32 := by omega
  obtain ⟨hreported, hcomplete⟩ := ht.reports_measured hw
  exact ⟨trail, w, s, ht, hw, hreported, hcomplete.mpr hfew⟩

/-- As many warmups as can be counted leave no room for the measured iteration: the last one
executed is a warmup, and nothing is reported. -/
theorem lost_measurement_shooter :
    ∃ trail w s, (shooter (2 ^ 32 - 1)).Trail {} trail w ∧ w.point = .ended (.ok s) ∧
      (shooter (2 ^ 32 - 1)).trial.measurements.val = 1 ∧ (executed trail).length = 2 ^ 32 - 1 ∧
      (∀ e ∈ executed trail, (shooter (2 ^ 32 - 1)).isWarmup e.1 = true) ∧ s.iterations = [] := by
  obtain ⟨n, hn⟩ : ∃ n, n = 2 ^ 32 - 1 := ⟨_, rfl⟩
  rw [← hn]
  have htotal : (shooter n).trial.iterations = n := by
    rw [Trial.iterations_eq, ← hn]
    exact Nat.min_eq_right (Nat.le_succ n)
  obtain ⟨trail, w, s, ht, hw⟩ := exists_trail_shooter n
  have hreported := ht.reported hw
  have hlength : (executed trail).length = n := hreported.length.trans htotal
  refine ⟨trail, w, s, ht, hw, rfl, hlength, fun e he => ?_, ?_⟩
  · have hindex : e.1 ∈ List.range (shooter n).trial.iterations :=
      hreported.indices ▸ List.mem_map_of_mem he
    rw [htotal, List.mem_range] at hindex
    exact decide_eq_true hindex
  · rw [hreported.summary]
    have hnone : (executed trail).drop n = [] := List.drop_eq_nil_of_le hlength.le
    exact congrArg (List.map _) hnone

end Execution
end LoadBench
