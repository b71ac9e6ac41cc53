import ClassLang.Number.Shortest

namespace ClassLang

/-- The decisions of a written form of binary numbers. Positional notation is used for
magnitudes from `10 ^ posFrom` up to below `10 ^ posBelow`, both bounds taken as numbers of the
number's own format, and for zero; other magnitudes are scientific. -/
structure FloatStyle where
  posFrom : Int
  posBelow : Int
  nanText : String
  infText : String

def Decimal.positional (d : Decimal) : String :=
  let s := d.digitText
  let len : Int := s.length
  if d.exp ≥ 0 then s ++ "".pushn '0' d.exp.toNat ++ ".0"
  else if len > -d.exp then
    let cut := (len + d.exp).toNat
    (s.take cut).toString ++ "." ++ (s.drop cut).toString
  else "0." ++ "".pushn '0' (-d.exp - len).toNat ++ s

/-- Scientific text of a decimal: the leading digit, the other digits after a point if there are
any, then `e` and the exponent with a minus sign only: `1e-7`, `1.5e300`. -/
def Decimal.scientific (d : Decimal) : String :=
  let s := d.digitText
  let lead := (s.take 1).toString
  let rest := (s.drop 1).toString
  let e := d.exp + s.length - 1
  lead ++ (if rest.isEmpty then "" else "." ++ rest) ++ "e" ++ toString e

namespace Binary

variable {f : BinaryFormat}

def magLt (m : Nat) (e : Int) (n : Nat) (k : Int) : Bool :=
  let low := min e k
  m * Nat.pow 2 (e - low).toNat < n * Nat.pow 2 (k - low).toNat

/-- Whether the finite magnitude `m * 2 ^ e` is below the magnitude of `y` (false if `y` is not
finite and not infinite). -/
def finiteBelow (m : Nat) (e : Int) (y : Binary f) : Bool :=
  match y.magnitude with
  | .finite n k => magLt m e n k
  | .infinite => true
  | .nan => false

def text (st : FloatStyle) (x : Binary f) : String :=
  let sign := if x.neg then "-" else ""
  match x.magnitude with
  | .nan => st.nanText
  | .infinite => sign ++ st.infText
  | .finite 0 _ => sign ++ "0.0"
  | .finite m e =>
    let d := shortestDecimal f m e
    let fromB : Binary f := Binary.ofDecimal false 1 st.posFrom
    let belowB : Binary f := Binary.ofDecimal false 1 st.posBelow
    if !finiteBelow m e fromB && finiteBelow m e belowB then sign ++ d.positional
    else sign ++ d.scientific

end Binary

/-- Float literals are written positionally from `1e-4` up to below `1e16`, with at least one
fraction digit (`1.0`, `0.0001`), otherwise in scientific form with a bare exponent (`1e-7`,
`1e16`, `3.4028235e38`); not-a-number is `NaN` and infinity `inf` with its sign. -/
def FloatStyle.source : FloatStyle := ⟨-4, 16, "NaN", "inf"⟩

end ClassLang
