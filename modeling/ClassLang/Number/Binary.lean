namespace ClassLang

/-- An IEEE 754 binary interchange format, by the widths of its fraction and exponent fields. -/
structure BinaryFormat where
  fracBits : Nat
  expBits : Nat
  deriving DecidableEq, Repr

namespace BinaryFormat

def binary32 : BinaryFormat := ⟨23, 8⟩

def binary64 : BinaryFormat := ⟨52, 11⟩

def topField (f : BinaryFormat) : Nat := Nat.pow 2 f.expBits - 1

def bias (f : BinaryFormat) : Nat := Nat.pow 2 (f.expBits - 1) - 1

/-- The exponent of the last fraction bit of subnormal numbers: the smallest positive number
of the format is `2 ^ f.quantum`. -/
def quantum (f : BinaryFormat) : Int := 1 - (f.bias : Int) - f.fracBits

def hidden (f : BinaryFormat) : Nat := Nat.pow 2 f.fracBits

end BinaryFormat

/-- A number of the format `f`, by its fields. -/
structure Binary (f : BinaryFormat) where
  neg : Bool
  exp : Nat
  frac : Nat
  deriving DecidableEq, Repr

/-- The magnitude of a binary number: not a number, infinite, or `sig * 2 ^ exp`. -/
inductive Magnitude where
  | nan
  | infinite
  | finite (sig : Nat) (exp : Int)
  deriving DecidableEq, Repr

/-- Halving with the remainder to the even side: the nearest natural number to `n / d`, a tie
going to the even one. -/
def divRoundEven (n d : Nat) : Nat :=
  let q := n / d
  let r := n % d
  if 2 * r > d then q + 1 else if 2 * r = d then q + q % 2 else q

def log2Ratio (n d : Nat) : Int :=
  let k : Int := (Nat.log2 n : Int) - Nat.log2 d
  if k ≥ 0 then
    if d * Nat.pow 2 k.toNat ≤ n then k else k - 1
  else
    if d ≤ n * Nat.pow 2 (-k).toNat then k else k - 1

def scaleRoundEven (n d : Nat) (e : Int) : Nat :=
  if e ≥ 0 then divRoundEven n (d * Nat.pow 2 e.toNat) else divRoundEven (n * Nat.pow 2 (-e).toNat) d

namespace Binary

variable {f : BinaryFormat}

def zero (neg : Bool) : Binary f := ⟨neg, 0, 0⟩

def infinity (neg : Bool) : Binary f := ⟨neg, f.topField, 0⟩

def nan : Binary f := ⟨false, f.topField, Nat.pow 2 (f.fracBits - 1)⟩

def magnitude (x : Binary f) : Magnitude :=
  if x.exp = f.topField then
    if x.frac = 0 then .infinite else .nan
  else if x.exp = 0 then
    .finite x.frac f.quantum
  else
    .finite (x.frac + f.hidden) ((x.exp : Int) - f.bias - f.fracBits)

/-- The number of `f` nearest to `n / d` (`d > 0`) with the sign `neg`: the significand is
rounded to nearest with ties to even, below the normal range it is subnormal, and a result past
the largest finite number is infinity. A zero `n` gives the zero of that sign. -/
def round (neg : Bool) (n d : Nat) : Binary f :=
  if n = 0 then zero neg
  else
    let e := max f.quantum (log2Ratio n d - f.fracBits)
    let q := scaleRoundEven n d e
    -- rounding up may reach the next binade
    let (q, e) := if q = 2 * f.hidden then (f.hidden, e + 1) else (q, e)
    if q < f.hidden then ⟨neg, 0, q⟩
    else
      let field := e - f.quantum + 1
      if field ≥ (f.topField : Int) then infinity neg
      else ⟨neg, field.toNat, q - f.hidden⟩

/-- The number nearest to `sig * 10 ^ exp10`, read from a decimal. Exponents far outside the
format's range go straight to infinity or zero, which is where rounding would take them. -/
def ofDecimal (neg : Bool) (sig : Nat) (exp10 : Int) : Binary f :=
  if sig = 0 then zero neg
  else if exp10 > 400 then infinity neg
  else if exp10 + (toString sig).length < -400 then zero neg
  else if exp10 ≥ 0 then round neg (sig * Nat.pow 10 exp10.toNat) 1
  else round neg sig (Nat.pow 10 (-exp10).toNat)

/-- The number of the format `g` nearest to `x`: a NaN stays a NaN, an infinity keeps its sign,
and a finite value is rounded. -/
def narrow {g : BinaryFormat} (x : Binary f) : Binary g :=
  match x.magnitude with
  | .nan => nan
  | .infinite => infinity x.neg
  | .finite m e =>
    if e ≥ 0 then round x.neg (m * Nat.pow 2 e.toNat) 1 else round x.neg m (Nat.pow 2 (-e).toNat)

def isPosZero (x : Binary f) : Bool := !x.neg && x.exp = 0 && x.frac = 0

end Binary

abbrev Binary64 := Binary BinaryFormat.binary64

abbrev Binary32 := Binary BinaryFormat.binary32

end ClassLang
