namespace ClassLang

/-- A stretch of source text: its line, its first column and its length in columns. -/
structure Span where
  line : UInt32
  col : UInt32
  len : UInt32
  deriving DecidableEq, Repr, Inhabited

namespace Span

def origin : Span := ⟨0, 0, 0⟩

/-- The span of a construct made of `a` followed by `b`. On one line it runs from the leftmost
start to the rightmost end; across lines it starts where `a` starts and its length is the sum of
both lengths. -/
def cover (a b : Span) : Span :=
  if a.line = b.line then
    let start := min a.col b.col
    ⟨a.line, start, max (a.col + a.len) (b.col + b.len) - start⟩
  else
    ⟨a.line, a.col, a.len + b.len⟩

def text (s : Span) : String :=
  toString s.line ++ ":" ++ toString s.col

theorem cover_line (a b : Span) : (a.cover b).line = a.line := by
  unfold cover; split <;> rfl

theorem cover_col_of_line_eq {a b : Span} (h : a.line = b.line) :
    (a.cover b).col = min a.col b.col := by
  simp [cover, h]

@[simp] theorem cover_self (a : Span) : a.cover a = a := by
  have hmin : min a.col a.col = a.col := by simp [Min.min]
  have hmax : max (a.col + a.len) (a.col + a.len) = a.col + a.len := by simp [Max.max]
  have hlen : a.col + a.len - a.col = a.len := by
    rw [UInt32.add_comm]; exact UInt32.add_sub_cancel a.len a.col
  simp only [cover, hmin, hmax, hlen, if_true]

end Span

end ClassLang
