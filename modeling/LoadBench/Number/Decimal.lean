import LoadBench.Number.Binary
import LoadBench.Number.Integer

/-!
# Decimal text of binary numbers

Reading takes an optional sign and either a name (`inf`, `infinity` or `nan`, in any case) or a
decimal number: digits, perhaps a point with more digits, perhaps an exponent, with one digit
at least before the exponent. The number denoted is rounded once, to the nearest value of the
format. Printing writes a fixed number of places, rounded from the exact value, a tie to the
even digit.
-/

namespace LoadBench

/-- A decimal number without its sign: the value is `digits * 10 ^ exponent`. -/
structure DecimalText where
  digits : Nat
  exponent : Int
  deriving DecidableEq, Repr

namespace DecimalText

/-- Appends the digits at the front of the text to `value`; answers how many
there were, and the rest. -/
def takeDigits (value count : Nat) : List Char → Nat × Nat × List Char
  | [] => (value, count, [])
  | c :: rest =>
    match digit? c with
    | some d => takeDigits (10 * value + d) (count + 1) rest
    | none => (value, count, c :: rest)

/-- The exponent part: nothing, or a mark, an optional sign and one digit at least. -/
def readExponent? : List Char → Option Int
  | [] => some 0
  | mark :: rest =>
    if mark = 'e' ∨ mark = 'E' then
      let (negative, digits) := match rest with
        | '-' :: r => (true, r)
        | '+' :: r => (false, r)
        | r => (false, r)
      match takeDigits 0 0 digits with
      | (n, count, []) => if count = 0 then none else some (if negative then -n else n)
      | _ => none
    else none

def read? (text : List Char) : Option DecimalText :=
  let (whole, wholeCount, rest) := takeDigits 0 0 text
  let (value, fractionCount, rest) := match rest with
    | '.' :: r => takeDigits whole 0 r
    | r => (whole, 0, r)
  if wholeCount + fractionCount = 0 then none
  else (readExponent? rest).map fun e => ⟨value, e - fractionCount⟩

/-- How many digits the number has before its exponent is applied, not counting leading zeros. -/
def width (d : DecimalText) : Nat := (Nat.toDigits 10 d.digits).length

/-- The value in units of `2 ^ -scale` as a fraction. What lies far outside every format is
replaced by something that is still outside, so that no power of ten grows without need. -/
def fraction (d : DecimalText) (scale : Nat) : Nat × Nat :=
  if d.digits = 0 then (0, 1)
  else if 400 < d.exponent + d.width then (Nat.pow 2 4000, 1)
  else if d.exponent + d.width < -400 then (0, 1)
  else if 0 ≤ d.exponent then (d.digits * Nat.pow 10 d.exponent.toNat * Nat.pow 2 scale, 1)
  else (d.digits * Nat.pow 2 scale, Nat.pow 10 (-d.exponent).toNat)

end DecimalText

/-- Why a text is no binary number. -/
inductive DecimalProblem where
  | empty
  | invalid
  deriving DecidableEq, Repr

namespace DecimalProblem

def message : DecimalProblem → String
  | .empty => "cannot parse float from empty string"
  | .invalid => "invalid float literal"

end DecimalProblem

namespace Format

def readName? (negative : Bool) (text : List Char) : Option Binary64 :=
  let name := String.ofList (text.map Char.toLower)
  if name = "inf" ∨ name = "infinity" then some (.infinite negative)
  else if name = "nan" then some .nan
  else none

def readUnsigned (f : Format) (negative : Bool) (text : List Char) :
    Except DecimalProblem Binary64 :=
  match readName? negative text with
  | some x => .ok x
  | none =>
    match DecimalText.read? text with
    | none => .error .invalid
    | some d =>
      let (num, den) := d.fraction f.scale
      .ok (Binary64.widen f negative (f.nearest num den))

def read (f : Format) (text : String) : Except DecimalProblem Binary64 :=
  match text.toList with
  | [] => .error .empty
  | '-' :: rest => f.readUnsigned true rest
  | '+' :: rest => f.readUnsigned false rest
  | rest => f.readUnsigned false rest

end Format

def paddedDigits (width n : Nat) : String :=
  let digits := Nat.toDigits 10 n
  String.ofList (List.replicate (width - digits.length) '0' ++ digits)

/-- The text of a fraction of `10 ^ places`: the whole part, a point, and all the places. -/
def placedDigits (places scaled : Nat) : String :=
  paddedDigits 1 (scaled / Nat.pow 10 places) ++ "." ++
    paddedDigits places (scaled % Nat.pow 10 places)

/-- The number with a fixed number of places, rounded from its exact value. -/
def Binary64.toFixed (places : Nat) : Binary64 → String
  | .finite s u =>
    (if s then "-" else "") ++ placedDigits places (roundEven (u * Nat.pow 10 places) Binary64.unit)
  | .infinite s => if s then "-inf" else "inf"
  | .nan => "NaN"

end LoadBench
