/-!
# Whole numbers from text

`IntegerKind.read` accepts an optional sign followed by one or more ASCII digits whose value lies
in the range of the kind. Digits are taken from left to right, and the first problem met wins:
a character that is no digit, or a value that leaves the range. A kind without negative values
has no minus sign at all, so even `-0` is no number of it.
-/

namespace LoadBench

/-- A range of whole numbers, and whether zero is excluded from it. -/
structure IntegerKind where
  least : Int
  greatest : Int
  nonzero : Bool
  deriving DecidableEq

namespace IntegerKind

def unsigned (bits : Nat) : IntegerKind := ⟨0, Int.pow 2 bits - 1, false⟩

def signed (bits : Nat) : IntegerKind := ⟨-Int.pow 2 (bits - 1), Int.pow 2 (bits - 1) - 1, false⟩

def withoutZero (k : IntegerKind) : IntegerKind := { k with nonzero := true }

/-- Whether a minus sign is part of the grammar. -/
def hasNegatives (k : IntegerKind) : Bool := k.least < 0

end IntegerKind

inductive IntegerProblem where
  | empty
  | invalidDigit
  | tooLarge
  | tooSmall
  | zero
  deriving DecidableEq, Repr

namespace IntegerProblem

def message : IntegerProblem → String
  | .empty => "cannot parse integer from empty string"
  | .invalidDigit => "invalid digit found in string"
  | .tooLarge => "number too large to fit in target type"
  | .tooSmall => "number too small to fit in target type"
  | .zero => "number would be zero for non-zero type"

end IntegerProblem

def digit? (c : Char) : Option Nat :=
  if '0' ≤ c ∧ c ≤ '9' then some (c.toNat - '0'.toNat) else none

namespace IntegerKind

/-- Extends `value` by the digits, upwards or downwards, while it stays in range. -/
def readDigits (k : IntegerKind) (negative : Bool) (value : Int) :
    List Char → Except IntegerProblem Int
  | [] => .ok value
  | c :: rest =>
    match digit? c with
    | none => .error .invalidDigit
    | some d =>
      let next := if negative then 10 * value - d else 10 * value + d
      if k.greatest < next then .error .tooLarge
      else if next < k.least then .error .tooSmall
      else k.readDigits negative next rest

def readSigned (k : IntegerKind) : List Char → Except IntegerProblem Int
  | [] => .error .empty
  | ['+'] | ['-'] => .error .invalidDigit
  | '+' :: rest => k.readDigits false 0 rest
  | '-' :: rest => if k.hasNegatives then k.readDigits true 0 rest else .error .invalidDigit
  | rest => k.readDigits false 0 rest

def read (k : IntegerKind) (text : String) : Except IntegerProblem Int :=
  match k.readSigned text.toList with
  | .error p => .error p
  | .ok v => if k.nonzero ∧ v = 0 then .error .zero else .ok v

end IntegerKind
end LoadBench
