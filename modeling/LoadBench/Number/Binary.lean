import LoadBench.Span

/-!
# Binary floating point, exactly

A finite `Binary64` is a sign and a whole number of units of `2 ^ -1074`, the smallest positive
value of the format. Every operation is the exact rational result, rounded once by
`Format.nearest`: to the closest representable value, a tie to the one with the even
significand. The module does not hold any decimal text; reading and printing stand beside it.
-/

namespace LoadBench

/-- The whole number nearest to `num / den`; a tie goes to the even one. -/
def roundEven (num den : Nat) : Nat :=
  let q := num / den
  let r := num % den
  if 2 * r < den then q
  else if den < 2 * r then q + 1
  else if q % 2 = 0 then q else q + 1

theorem roundEven_one (n : Nat) : roundEven n 1 = n := by
  simp [roundEven, Nat.mod_one]

/-- A binary format: `precision` significant bits, whole multiples of `2 ^ -scale`, and finite
values below `2 ^ ceiling` of those units. -/
structure Format where
  precision : Nat
  scale : Nat
  ceiling : Nat

namespace Format

def double : Format := ⟨53, 1074, 2098⟩

def single : Format := ⟨24, 149, 277⟩

/-- The distance, in units, between neighbouring values around `units`. -/
def spacing (f : Format) (units : Nat) : Nat := Nat.pow 2 (units.log2 + 1 - f.precision)

/-- The representable number of units nearest to `num / den` units. -/
def nearest (f : Format) (num den : Nat) : Nat :=
  let gap := f.spacing (num / den)
  roundEven num (den * gap) * gap

end Format

/-- A double-precision number: a sign and a count of units of `2 ^ -1074`, an
infinity, or not a number. -/
inductive Binary64 where
  | finite (negative : Bool) (units : Nat)
  | infinite (negative : Bool)
  | nan
  deriving DecidableEq, Inhabited

namespace Binary64

def unit : Nat := Nat.pow 2 1074

/-- Rounds `num / den` units; what is too large for the format becomes an infinity. -/
def round (negative : Bool) (num den : Nat) : Binary64 :=
  let u := Format.double.nearest num den
  if u < Nat.pow 2 2098 then .finite negative u else .infinite negative

def zero : Binary64 := .finite false 0

def one : Binary64 := .finite false unit

def ofNat (n : Nat) : Binary64 := round false (n * unit) 1

/-- A value of another format whose unit is no finer, unchanged. -/
def widen (f : Format) (negative : Bool) (units : Nat) : Binary64 :=
  if units < Nat.pow 2 f.ceiling then .finite negative (units * Nat.pow 2 (1074 - f.scale))
  else .infinite negative

def negative : Binary64 → Bool
  | .finite s _ | .infinite s => s
  | .nan => false

/-- A position on the number line that orders all values except `nan`. -/
def position : Binary64 → Option Int
  | .finite false u => some u
  | .finite true u => some (-u)
  | .infinite false => some (Int.pow 2 2098)
  | .infinite true => some (-Int.pow 2 2098)
  | .nan => none

/-- Nothing is less than `nan`, nor `nan` less than anything. -/
def lt (a b : Binary64) : Bool :=
  match a.position, b.position with
  | some x, some y => x < y
  | _, _ => false

def max (a b : Binary64) : Binary64 :=
  match a, b with
  | .nan, _ => b
  | _, .nan => a
  | _, _ => if a.lt b then b else a

/-- Moves a value outside the interval to its nearer end; `nan` stays. -/
def clamp (a lo hi : Binary64) : Binary64 :=
  let b := if a.lt lo then lo else a
  if hi.lt b then hi else b

def add : Binary64 → Binary64 → Binary64
  | .finite s u, .finite t v =>
    if s = t then round s (u + v) 1
    else if u = v then zero
    else if v < u then round s (u - v) 1
    else round t (v - u) 1
  | .nan, _ => .nan
  | _, .nan => .nan
  | .infinite s, .infinite t => if s = t then .infinite s else .nan
  | .infinite s, .finite _ _ => .infinite s
  | .finite _ _, .infinite t => .infinite t

def mul : Binary64 → Binary64 → Binary64
  | .finite s u, .finite t v => round (s != t) (u * v) unit
  | .nan, _ => .nan
  | _, .nan => .nan
  | .infinite s, .infinite t => .infinite (s != t)
  | .infinite s, .finite t v => if v = 0 then .nan else .infinite (s != t)
  | .finite s u, .infinite t => if u = 0 then .nan else .infinite (s != t)

def div : Binary64 → Binary64 → Binary64
  | .finite s u, .finite t v =>
    if v = 0 then if u = 0 then .nan else .infinite (s != t)
    else round (s != t) (u * unit) v
  | .nan, _ => .nan
  | _, .nan => .nan
  | .infinite _, .infinite _ => .nan
  | .infinite s, .finite t _ => .infinite (s != t)
  | .finite s _, .infinite t => .finite (s != t) 0

def ceil : Binary64 → Binary64
  | .finite true u => .finite true (u / unit * unit)
  | .finite false u => .finite false ((u + unit - 1) / unit * unit)
  | x => x

/-- The whole part, as a 64-bit count; what is negative or no number counts as zero. -/
def toCount : Binary64 → Nat
  | .finite false u => clipCount (u / unit)
  | .finite true _ => 0
  | .infinite false => maxCount
  | .infinite true => 0
  | .nan => 0

def toBits : Binary64 → Nat
  | .finite s u =>
    let k := u.log2 - 52
    (if s then Nat.pow 2 63 else 0) + (k * Nat.pow 2 52 + u / Nat.pow 2 k)
  | .infinite s => (if s then Nat.pow 2 63 else 0) + 2047 * Nat.pow 2 52
  | .nan => 2047 * Nat.pow 2 52 + Nat.pow 2 51

def ofBits (bits : Nat) : Binary64 :=
  let s := 1 ≤ bits / Nat.pow 2 63
  let e := bits / Nat.pow 2 52 % 2048
  let f := bits % Nat.pow 2 52
  if e = 2047 then if f = 0 then .infinite s else .nan
  else if e = 0 then .finite s f
  else .finite s ((Nat.pow 2 52 + f) * Nat.pow 2 (e - 1))

end Binary64
end LoadBench
