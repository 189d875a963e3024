import LoadBench.Failure
import LoadBench.Number.Decimal

/-!
# Named parameters

`Parameters` keeps one text for each name, in the byte order of the names, so two tables with
the same assignments are the same table. `Parameters.read` interprets a text as a value of the
wanted kind when somebody asks for it, and says which of the two things went wrong otherwise:
the name was never assigned, or its text is no such value.
-/

namespace LoadBench

def utf8Bytes (s : String) : List UInt8 := s.toByteArray.data.toList

theorem utf8Bytes_inj {a b : String} : utf8Bytes a = utf8Bytes b ↔ a = b := by
  constructor
  · intro h
    exact String.toByteArray_inj.1 (ByteArray.ext (Array.toList_inj.1 h))
  · rintro rfl; rfl

/-- The first text comes before the second in byte order. -/
def Precedes (a b : String) : Prop := utf8Bytes a < utf8Bytes b

instance (a b : String) : Decidable (Precedes a b) :=
  inferInstanceAs (Decidable (utf8Bytes a < utf8Bytes b))

theorem Precedes.irrefl (a : String) : ¬ Precedes a a := List.lt_irrefl (utf8Bytes a)

theorem Precedes.trans {a b c : String} (hab : Precedes a b) (hbc : Precedes b c) : Precedes a c :=
  List.lt_trans hab hbc

theorem Precedes.ne {a b : String} (h : Precedes a b) : a ≠ b := by
  rintro rfl; exact Precedes.irrefl a h

theorem precedes_of_not_precedes {a b : String} (h : ¬ Precedes a b) (hne : a ≠ b) :
    Precedes b a := by
  apply Classical.byContradiction
  intro h'
  have hba : utf8Bytes b ≤ utf8Bytes a := List.not_lt.1 h
  have hab : utf8Bytes a ≤ utf8Bytes b := List.not_lt.1 h'
  exact hne (utf8Bytes_inj.1 (List.le_antisymm hab hba))

/-- Assigns a text to a name in a list ordered by name, in place of an earlier one. -/
def assignEntry (name value : String) : List (String × String) → List (String × String)
  | [] => [(name, value)]
  | (n, v) :: rest =>
    if n = name then (name, value) :: rest
    else if Precedes n name then (n, v) :: assignEntry name value rest
    else (name, value) :: (n, v) :: rest

theorem mem_assignEntry {name value : String} {entries : List (String × String)}
    {e : String × String} (h : e ∈ assignEntry name value entries) :
    e = (name, value) ∨ e ∈ entries := by
  induction entries with
  | nil => simpa [assignEntry] using h
  | cons hd rest ih =>
    obtain ⟨n, v⟩ := hd
    unfold assignEntry at h
    split at h
    · rcases List.mem_cons.1 h with h | h
      · exact .inl h
      · exact .inr (List.mem_cons_of_mem _ h)
    · split at h
      · rcases List.mem_cons.1 h with h | h
        · exact .inr (h ▸ List.mem_cons_self)
        · exact (ih h).imp id (List.mem_cons_of_mem _)
      · rcases List.mem_cons.1 h with h | h
        · exact .inl h
        · exact .inr h

theorem pairwise_assignEntry {name value : String} {entries : List (String × String)}
    (h : entries.Pairwise fun a b => Precedes a.1 b.1) :
    (assignEntry name value entries).Pairwise fun a b => Precedes a.1 b.1 := by
  induction entries with
  | nil => simp [assignEntry]
  | cons hd rest ih =>
    obtain ⟨n, v⟩ := hd
    obtain ⟨hfirst, hrest⟩ := List.pairwise_cons.1 h
    unfold assignEntry
    split
    · rename_i heq
      exact List.pairwise_cons.2 ⟨fun e he => heq ▸ hfirst e he, hrest⟩
    · rename_i hne
      split
      · rename_i hlt
        refine List.pairwise_cons.2 ⟨fun e he => ?_, ih hrest⟩
        rcases mem_assignEntry he with rfl | he
        · exact hlt
        · exact hfirst e he
      · rename_i hlt
        have hbefore : Precedes name n := precedes_of_not_precedes hlt hne
        refine List.pairwise_cons.2 ⟨fun e he => ?_, h⟩
        rcases List.mem_cons.1 he with rfl | he
        · exact hbefore
        · exact hbefore.trans (hfirst e he)

/-- One text for each assigned name, in the byte order of the names. -/
structure Parameters where
  entries : List (String × String)
  ordered : entries.Pairwise fun a b => Precedes a.1 b.1

namespace Parameters

@[ext] theorem ext {p q : Parameters} (h : p.entries = q.entries) : p = q := by
  cases p; cases q; cases h; rfl

instance : DecidableEq Parameters := fun p q =>
  if h : p.entries = q.entries then .isTrue (ext h) else .isFalse fun e => h (e ▸ rfl)

def empty : Parameters := ⟨[], .nil⟩

instance : Inhabited Parameters := ⟨empty⟩

def set (p : Parameters) (name value : String) : Parameters :=
  ⟨assignEntry name value p.entries, pairwise_assignEntry p.ordered⟩

def ofList (assignments : List (String × String)) : Parameters :=
  assignments.foldl (fun p a => p.set a.1 a.2) empty

def raw? (p : Parameters) (name : String) : Option String := p.entries.lookup name

def size (p : Parameters) : Nat := p.entries.length

def isEmpty (p : Parameters) : Bool := p.entries.isEmpty

end Parameters

/-- What a text can be read as. -/
inductive ValueKind where
  | integer (k : IntegerKind)
  | number (f : Format)
  | truth
  | character
  | text

inductive Value where
  | integer (v : Int)
  | number (x : Binary64)
  | truth (b : Bool)
  | character (c : Char)
  | text (s : String)
  deriving DecidableEq

namespace ValueKind

/-- The value of the kind that the text denotes, or what is wrong with it. -/
def read (k : ValueKind) (s : String) : Except String Value :=
  match k with
  | integer k => match k.read s with
    | .ok v => .ok (.integer v)
    | .error p => .error p.message
  | number f => match f.read s with
    | .ok x => .ok (.number x)
    | .error p => .error p.message
  | truth =>
    if s = "true" then .ok (.truth true)
    else if s = "false" then .ok (.truth false)
    else .error "provided string was not `true` or `false`"
  | character => match s.toList with
    | [c] => .ok (.character c)
    | [] => .error "cannot parse char from empty string"
    | _ => .error "too many characters in string"
  | text => .ok (.text s)

end ValueKind

def Parameters.read (p : Parameters) (k : ValueKind) (name : String) : Except Failure Value :=
  match p.raw? name with
  | none => .error (.missingParameter name)
  | some s => match k.read s with
    | .ok v => .ok v
    | .error problem => .error (.invalidParameter name s problem)

end LoadBench
