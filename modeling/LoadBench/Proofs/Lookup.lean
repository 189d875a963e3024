import LoadBench.Parameters
import LoadBench.Proofs.Numerals
import Mathlib.Data.Finset.Card
import Mathlib.Data.List.Sort

/-!
# What a table of parameters recalls

A table keeps for each name the text that was assigned to it last, and nothing else of the
assignments: two tables are the same just if they agree on that. A value read from it is the one
that this text denotes, and what cannot be read is reported with the name and the text
(`Parameters.recalls`).
-/

namespace LoadBench

def lastAssigned (assignments : List (String × String)) (name : String) : Option String :=
  assignments.reverse.lookup name

variable {name value s : String} {entries assignments : List (String × String)}

theorem lastAssigned_eq_none_iff : lastAssigned assignments name = none ↔
    name ∉ assignments.map Prod.fst := by
  rw [lastAssigned, List.lookup_eq_none_iff]
  simp only [List.mem_reverse, bne_iff_ne, List.mem_map, not_exists, not_and]
  exact ⟨fun h a ha hname => h a ha hname.symm, fun h a ha hname => h a ha hname.symm⟩

theorem lookup_cons_eq (n v name : String) : ((n, v) :: entries).lookup name =
    if name = n then some v else entries.lookup name := by
  rw [List.lookup_cons]
  by_cases h : name = n
  · rw [if_pos h, beq_iff_eq.mpr h]
  · rw [if_neg h, beq_eq_false_iff_ne.mpr h]

theorem lastAssigned_concat (name' : String) : lastAssigned (assignments ++ [(name, value)]) name' =
    if name' = name then some value else lastAssigned assignments name' := by
  rw [lastAssigned, List.reverse_append, List.reverse_singleton, List.singleton_append,
    lookup_cons_eq]
  rfl

/-! ### Entries in order -/

theorem lookup_assignEntry (name' : String) : (assignEntry name value entries).lookup name' =
    if name' = name then some value else entries.lookup name' := by
  induction entries with
  | nil => rw [assignEntry, lookup_cons_eq]
  | cons entry rest ih =>
    obtain ⟨n, v⟩ := entry
    rw [assignEntry]
    split
    · rename_i hn
      subst hn
      rw [lookup_cons_eq, lookup_cons_eq]
      split <;> rfl
    · rename_i hn
      split
      · rw [lookup_cons_eq, lookup_cons_eq, ih]
        by_cases h : name' = n
        · rw [if_pos h, if_pos h, if_neg (h ▸ hn)]
        · rw [if_neg h, if_neg h]
      · rw [lookup_cons_eq]

/-- In an ordered list, every entry is the one that is found under its name. -/
theorem lookup_eq_some_iff_mem (h : entries.Pairwise fun a b => Precedes a.1 b.1) :
    entries.lookup name = some value ↔ (name, value) ∈ entries := by
  induction entries with
  | nil => simp
  | cons entry rest ih =>
    obtain ⟨n, v⟩ := entry
    obtain ⟨hfirst, hrest⟩ := List.pairwise_cons.mp h
    rw [lookup_cons_eq, List.mem_cons, Prod.mk.injEq]
    by_cases hn : name = n
    · subst hn
      have hnot : (name, value) ∉ rest := fun hmem => (hfirst _ hmem).ne rfl
      simp [hnot, eq_comm]
    · simp [hn, ih hrest]

namespace Parameters
variable {p q : Parameters} {k : IntegerKind} {v : Int}

theorem raw?_set (p : Parameters) (name' : String) :
    (p.set name value).raw? name' = if name' = name then some value else p.raw? name' :=
  lookup_assignEntry name'

theorem ofList_concat :
    ofList (assignments ++ [(name, value)]) = (ofList assignments).set name value :=
  List.foldl_concat ..

theorem raw?_ofList (assignments : List (String × String)) (name : String) :
    (ofList assignments).raw? name = lastAssigned assignments name := by
  induction assignments using List.reverseRecOn with
  | nil => rfl
  | append_singleton assignments a ih =>
    rw [ofList_concat, raw?_set, lastAssigned_concat, ih]

theorem mem_entries_iff : (name, value) ∈ p.entries ↔ p.raw? name = some value :=
  (lookup_eq_some_iff_mem p.ordered).symm

/-- A table is what is found in it. -/
theorem eq_iff_raw? : p = q ↔ ∀ name, p.raw? name = q.raw? name := by
  refine ⟨fun h name => by rw [h], fun h => ext ?_⟩
  have : Std.Irrefl fun a b : String × String => Precedes a.1 b.1 := ⟨fun a => Precedes.irrefl a.1⟩
  have : Std.Antisymm fun a b : String × String => Precedes a.1 b.1 :=
    ⟨fun a b hab hba => absurd (hab.trans hba) (Precedes.irrefl a.1)⟩
  refine p.ordered.eq_of_mem_iff q.ordered ?_
  rintro ⟨name, value⟩
  rw [mem_entries_iff, mem_entries_iff, h]

theorem nodup_names (p : Parameters) : (p.entries.map Prod.fst).Nodup :=
  List.pairwise_map.mpr (p.ordered.imp Precedes.ne)

theorem size_ofList (assignments : List (String × String)) :
    (ofList assignments).size = (assignments.map Prod.fst).toFinset.card := by
  rw [size, ← List.length_map Prod.fst, ← List.toFinset_card_of_nodup (nodup_names _)]
  congr 1
  ext name
  have hmem : name ∈ (ofList assignments).entries.map Prod.fst ↔
      (ofList assignments).raw? name ≠ none := by
    simp [← mem_entries_iff, Option.ne_none_iff_exists']
  rw [List.mem_toFinset, List.mem_toFinset, hmem, raw?_ofList, ne_eq,
    lastAssigned_eq_none_iff, not_not]

/-! ### Reading -/

theorem read_eq (p : Parameters) (k : IntegerKind) (name : String) :
    p.read (.integer k) name = match p.raw? name with
      | none => .error (.missingParameter name)
      | some s => match k.read s with
        | .ok v => .ok (.integer v)
        | .error problem => .error (.invalidParameter name s problem.message) := by
  unfold Parameters.read ValueKind.read
  cases p.raw? name with
  | none => rfl
  | some s => cases h : k.read s <;> simp [h]

theorem read_ofList (k : IntegerKind) (h : lastAssigned assignments name = some s) :
    (ofList assignments).read (.integer k) name = match k.read s with
      | .ok v => .ok (.integer v)
      | .error problem => .error (.invalidParameter name s problem.message) := by
  rw [read_eq, raw?_ofList, h]

theorem read_ofList_eq_ok_iff (hk : k.Machine) (h : lastAssigned assignments name = some s) :
    (ofList assignments).read (.integer k) name = .ok (.integer v) ↔ k.Denotes s.toList v ∧
      k.Contains v := by
  rw [read_ofList k h, ← IntegerKind.read_eq_ok_iff hk.inRange_zero]
  cases k.read s <;> simp

theorem read_ofList_eq_missing_iff (k : IntegerKind) (assignments : List (String × String))
    (name : String) :
    (ofList assignments).read (.integer k) name = .error (.missingParameter name) ↔
      name ∉ assignments.map Prod.fst := by
  rw [← lastAssigned_eq_none_iff]
  cases h : lastAssigned assignments name with
  | none => simp [read_eq, raw?_ofList, h]
  | some s =>
    rw [read_ofList k h]
    cases k.read s <;> simp

/-- What is known of a table after some assignments, and of integers of a kind
that are read from it. -/
structure Recalls (k : IntegerKind) (assignments : List (String × String)) : Prop where
  missing : ∀ name, (ofList assignments).read (.integer k) name = .error (.missingParameter name) ↔
    name ∉ assignments.map Prod.fst
  value : ∀ name s, lastAssigned assignments name = some s → ∀ v,
    (ofList assignments).read (.integer k) name = .ok (.integer v) ↔
      k.Denotes s.toList v ∧ k.Contains v
  invalid : ∀ name s, lastAssigned assignments name = some s →
    (¬ ∃ v, k.Denotes s.toList v ∧ k.Contains v) →
    ∃ problem, (ofList assignments).read (.integer k) name =
      .error (.invalidParameter name s problem)
  readBack : ∀ name v, k.Contains v → lastAssigned assignments name = some (toString v) →
    (ofList assignments).read (.integer k) name = .ok (.integer v)
  entries : ∀ name value, (name, value) ∈ (ofList assignments).entries ↔
    lastAssigned assignments name = some value
  once : ((ofList assignments).entries.map Prod.fst).Nodup
  ordered : ((ofList assignments).entries.map fun e => utf8Bytes e.1).Pairwise (· < ·)
  size : (ofList assignments).size = (assignments.map Prod.fst).toFinset.card
  eq_iff : ∀ others, ofList assignments = ofList others ↔
    ∀ name, lastAssigned assignments name = lastAssigned others name

/-- Whatever was assigned, and in which order, a table answers by what was assigned last. -/
theorem recalls (hk : k.Machine) (assignments : List (String × String)) :
    Recalls k assignments where
  missing := read_ofList_eq_missing_iff k assignments
  value name s h v := read_ofList_eq_ok_iff hk h
  invalid name s h hnone := by
    rw [read_ofList k h]
    cases hread : k.read s with
    | ok v => exact absurd ⟨v, (IntegerKind.read_eq_ok_iff hk.inRange_zero).mp hread⟩ hnone
    | error problem => exact ⟨problem.message, rfl⟩
  readBack name v hv h := by rw [read_ofList k h, IntegerKind.read_toString hk.inRange_zero hv]
  entries name value := by rw [mem_entries_iff, raw?_ofList]
  once := nodup_names _
  ordered := List.pairwise_map.mpr (ofList assignments).ordered
  size := size_ofList assignments
  eq_iff others := by simp only [eq_iff_raw?, raw?_ofList]

/-- A text is replaced by the least value of its kind. -/
theorem recalls_replaced :
    let k := (IntegerKind.signed 8).withoutZero
    let assignments := [("b", "7"), ("a", "+0"), ("b", "-128")]
    k.Machine ∧ Recalls k assignments ∧
      (ofList assignments).read (.integer k) "b" = .ok (.integer (-128)) ∧
        (ofList assignments).size = 2 := by
  intro k assignments
  have hk : k.Machine := .withoutZero (.signed 8)
  have h : Recalls k assignments := recalls hk assignments
  have hleast : k.Contains (-128) := ⟨⟨by decide, by decide⟩, by decide⟩
  exact ⟨hk, h, h.readBack "b" (-128) hleast (by decide +kernel), h.size.trans (by decide)⟩

end Parameters
end LoadBench
