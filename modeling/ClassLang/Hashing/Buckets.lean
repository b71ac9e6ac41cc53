namespace ClassLang.Hashing

/-- An open-addressing table: its buckets, each empty or holding an entry and its hash. -/
structure Buckets (α : Type) where
  slots : List (Option (UInt64 × α)) := []
  deriving Repr, Inhabited

def groupWidth : Nat := 16

def capacityOf (n : Nat) : Nat := if n ≤ 8 then n - 1 else n / 8 * 7

def bucketsFor (cap : Nat) : Nat :=
  if cap < 4 then 4
  else if cap < 8 then 8
  else if cap < 15 then 16
  else (cap * 8 / 7).nextPowerOfTwo

namespace Buckets

variable {α : Type}

def size (t : Buckets α) : Nat := t.slots.length

def count (t : Buckets α) : Nat := (t.slots.filter Option.isSome).length

def isFree (t : Buckets α) (i : Nat) : Bool := (t.slots.getD i none).isNone

/-- Whether control position `q` shows an empty bucket: positions past the buckets show the first
buckets again, and in a table smaller than a group the positions between its last bucket and
the group width are empty padding. -/
def controlFree (t : Buckets α) (q : Nat) : Bool :=
  if t.size < groupWidth then
    if q < t.size then t.isFree q
    else if q < groupWidth then true
    else t.isFree (q - groupWidth)
  else t.isFree (q % t.size)

def firstFree? (t : Buckets α) (pos : Nat) : Option Nat :=
  (List.range groupWidth).find? fun i ↦ t.controlFree (pos + i)

/-- The bucket an empty position `q` stands for: its own bucket, or, when that one is taken
because `q` is padding, the first empty bucket of the table. -/
def settle (t : Buckets α) (q : Nat) : Nat :=
  let i := q % t.size
  if t.isFree i then i else ((t.firstFree? 0).getD 0) % t.size

/-- The bucket a new entry goes to, probing from position `pos` with stride `stride`; `fuel`
bounds the number of groups visited. -/
def probe (t : Buckets α) (pos stride : Nat) : Nat → Option Nat
  | 0 => none
  | fuel + 1 =>
    match t.firstFree? pos with
    | some i => some (t.settle (pos + i))
    | none => t.probe ((pos + stride + groupWidth) % t.size) (stride + groupWidth) fuel

def slotFor (t : Buckets α) (h : UInt64) : Nat :=
  match t.probe (h.toNat % t.size) 0 (t.size + 1) with
  | some i => i
  | none => ((List.range t.size).find? t.isFree).getD 0

def place (t : Buckets α) (h : UInt64) (a : α) : Buckets α :=
  ⟨t.slots.set (t.slotFor h) (some (h, a))⟩

def entries (t : Buckets α) : List (UInt64 × α) := t.slots.filterMap id

def empty (n : Nat) : Buckets α := ⟨List.replicate n none⟩

def grow (t : Buckets α) : Buckets α :=
  let n := bucketsFor (max (t.count + 1) (capacityOf t.size + 1))
  t.entries.foldl (fun u (h, a) ↦ u.place h a) (empty n)

def insert (t : Buckets α) (h : UInt64) (a : α) : Buckets α :=
  let t := if t.count < capacityOf t.size then t else t.grow
  t.place h a

def ofList (xs : List (UInt64 × α)) : Buckets α := xs.foldl (fun t (h, a) ↦ t.insert h a) {}

def toList (t : Buckets α) : List α := t.entries.map (·.2)

end Buckets

end ClassLang.Hashing
