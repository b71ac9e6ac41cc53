namespace ClassLang.Hashing

def multiplier : UInt64 := 0xf1357aea2e62a9c5

/-- A running word hash. -/
structure WordHash where
  state : UInt64 := 0
  deriving DecidableEq, Repr, Inhabited

namespace WordHash

def add (h : WordHash) (w : UInt64) : WordHash := ⟨(h.state + w) * multiplier⟩

def finish (h : WordHash) : UInt64 := (h.state <<< 26) ||| (h.state >>> 38)

end WordHash

def foldProduct (x y : UInt64) : UInt64 :=
  let p := x.toNat * y.toNat
  UInt64.ofNat p ^^^ UInt64.ofNat (p / 18446744073709551616)

def wordLE (bs : List UInt8) : UInt64 := bs.foldr (fun b w ↦ (w <<< 8) ||| b.toUInt64) 0

def lane0 : UInt64 := 0x243f6a8885a308d3

def lane1 : UInt64 := 0x13198a2e03707344

/-- The word xored into every block's second half, so that zero blocks do not collapse the
lanes. -/
def blockGuard : UInt64 := 0xa4093822299f31d0

/-- The lanes after the sixteen-byte blocks of `bs` that have more than sixteen bytes at or after
their start: each block replaces the second lane by the folded product of the first lane and the
block, and the old second lane becomes the first. -/
def blocks (s0 s1 : UInt64) (bs : List UInt8) : UInt64 × UInt64 :=
  if 16 < bs.length then
    blocks s1 (foldProduct (s0 ^^^ wordLE (bs.take 8)) (blockGuard ^^^ wordLE ((bs.drop 8).take 8)))
      (bs.drop 16)
  else (s0, s1)
termination_by bs.length
decreasing_by simp only [List.length_drop]; omega

def shortLanes (bs : List UInt8) : UInt64 × UInt64 :=
  let n := bs.length
  if 8 ≤ n then (lane0 ^^^ wordLE (bs.take 8), lane1 ^^^ wordLE (bs.drop (n - 8)))
  else if 4 ≤ n then (lane0 ^^^ wordLE (bs.take 4), lane1 ^^^ wordLE (bs.drop (n - 4)))
  else if 0 < n then
    (lane0 ^^^ (bs.getD 0 0).toUInt64,
      lane1 ^^^ (((bs.getD (n - 1) 0).toUInt64 <<< 8) ||| (bs.getD (n / 2) 0).toUInt64))
  else (lane0, lane1)

/-- The lanes of a byte string of more than sixteen bytes: its blocks, then its last sixteen
bytes. -/
def longLanes (bs : List UInt8) : UInt64 × UInt64 :=
  let (s0, s1) := blocks lane0 lane1 bs
  let last := bs.drop (bs.length - 16)
  (s0 ^^^ wordLE (last.take 8), s1 ^^^ wordLE (last.drop 8))

def digest (bs : List UInt8) : UInt64 :=
  let (s0, s1) := if bs.length ≤ 16 then shortLanes bs else longLanes bs
  foldProduct s0 s1 ^^^ bs.length.toUInt64

namespace WordHash

def addBytes (h : WordHash) (bs : List UInt8) : WordHash := h.add (digest bs)

def addText (h : WordHash) (s : String) : WordHash := (h.addBytes s.toUTF8.toList).add 0xff

end WordHash

end ClassLang.Hashing
