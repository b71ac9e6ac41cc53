import ClassLang.Number.Binary

namespace ClassLang

/-- The decimal `digits * 10 ^ exp`. -/
structure Decimal where
  digits : Nat
  exp : Int
  deriving DecidableEq, Repr

namespace Decimal

def trim (d : Decimal) : Decimal :=
  if h : d.digits ≠ 0 ∧ d.digits % 10 = 0 then
    have : d.digits / 10 < d.digits := Nat.div_lt_self (Nat.pos_of_ne_zero h.1) (by decide)
    trim ⟨d.digits / 10, d.exp + 1⟩
  else d
termination_by d.digits

def digitText (d : Decimal) : String := toString d.digits

end Decimal

def log10Ratio (n d : Nat) : Int :=
  let k : Int := ((toString n).length : Int) - (toString d).length
  if k ≥ 0 then
    if d * Nat.pow 10 k.toNat ≤ n then k else k - 1
  else
    if d ≤ n * Nat.pow 10 (-k).toNat then k else k - 1

namespace Shortest

/-- The value and the ends of its read-back interval, as numerators over a common denominator. -/
structure Window where
  lo : Nat
  val : Nat
  hi : Nat
  den : Nat
  closed : Bool

/-- The read-back interval of the positive number `sig * 2 ^ e` of the format `f`. At the bottom
of a binade above the first the gap below is half the gap above. -/
def window (f : BinaryFormat) (sig : Nat) (e : Int) : Window :=
  let below := if sig = f.hidden ∧ e > f.quantum then 1 else 2
  let (num, den) := if e ≥ 2 then (Nat.pow 2 (e - 2).toNat, 1) else (1, Nat.pow 2 (2 - e).toNat)
  ⟨(4 * sig - below) * num, 4 * sig * num, (4 * sig + 2) * num, den, sig % 2 == 0⟩

def Window.holds (w : Window) (c : Nat) : Bool :=
  if w.closed then w.lo ≤ c && c ≤ w.hi else w.lo < c && c < w.hi

def Window.scale (w : Window) (s : Nat) : Window :=
  ⟨w.lo * s, w.val * s, w.hi * s, w.den, w.closed⟩

/-- The neighbour of the value on the grid `10 ^ k` that lies in the window, if one does:
the nearer if both do, the upper on a tie. -/
def pick (w : Window) (k : Int) : Option Decimal :=
  let (w, unit) := if k ≥ 0 then (w, w.den * Nat.pow 10 k.toNat) else (w.scale (Nat.pow 10 (-k).toNat), w.den)
  let t := w.val / unit
  let down := w.holds (t * unit)
  let up := w.holds ((t + 1) * unit)
  if up && (!down || 2 * (w.val - t * unit) ≥ unit) then some ⟨t + 1, k⟩
  else if down then some ⟨t, k⟩
  else none

/-- Tries grids of `n`, `n + 1`, ... significant digits below the leading digit position `top`,
for at most `fuel` grids; past the fuel it takes the nearest grid point. -/
def search (w : Window) (top : Int) : Nat → Nat → Decimal
  | n, 0 =>
    let k := top - n + 1
    let unit := Nat.pow 10 (k.toNat)
    ⟨divRoundEven w.val (w.den * unit), k⟩
  | n, fuel + 1 =>
    match pick w (top - n + 1) with
    | some d => d
    | none => search w top (n + 1) fuel

end Shortest

/-- The shortest decimal that reads back as the positive number `sig * 2 ^ e` of the format `f`,
without trailing zeros. -/
def shortestDecimal (f : BinaryFormat) (sig : Nat) (e : Int) : Decimal :=
  let w := Shortest.window f sig e
  (Shortest.search w (log10Ratio w.val w.den) 1 40).trim

end ClassLang
