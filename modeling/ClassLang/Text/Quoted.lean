import ClassLang.Text.EscapeSet

namespace ClassLang.Text

def unicodeEscape (c : Char) : List Char :=
  ['\\', 'u', '{'] ++ Nat.toDigits 16 c.toNat ++ ['}']

def escapeSourceChar (c : Char) : List Char :=
  if c = '\x00' then ['\\', '0']
  else if c = '\t' then ['\\', 't']
  else if c = '\r' then ['\\', 'r']
  else if c = '\n' then ['\\', 'n']
  else if c = '\\' then ['\\', '\\']
  else if c = '"' then ['\\', '"']
  else if needsEscape c then unicodeEscape c
  else [c]

def escapeSource (cs : List Char) : List Char := cs.flatMap escapeSourceChar

def quoteSource (s : String) : String :=
  String.ofList ('"' :: escapeSource s.toList ++ ['"'])

def escapeAssemblyChar (c : Char) : List Char :=
  if c = '"' then ['\\', '"']
  else if c = '\\' then ['\\', '\\']
  else if c = '\n' then ['\\', 'n']
  else if c = '\t' then ['\\', 't']
  else if c = '\r' then ['\\', 'r']
  else [c]

def escapeAssembly : List Char → List Char
  | [] => []
  | c :: cs => escapeAssemblyChar c ++ escapeAssembly cs

/-- A string constant as assembly text. -/
def quoteAssembly (s : String) : String :=
  String.ofList ('"' :: escapeAssembly s.toList ++ ['"'])

def escapedBy (e : Char) : Option Char :=
  if e = '"' then some '"'
  else if e = '\\' then some '\\'
  else if e = 'n' then some '\n'
  else if e = 't' then some '\t'
  else if e = 'r' then some '\r'
  else none

def escapedInAssembly (c : Char) : Bool :=
  c = '"' || c = '\\' || c = '\n' || c = '\t' || c = '\r'

/-- Reads the characters of the assembly form back; a backslash that starts no escape, or an
escaped character standing alone, is no assembly form. -/
def unescapeAssembly : List Char → Option (List Char)
  | [] => some []
  | c :: rest =>
    if c = '\\' then
      match rest with
      | e :: more =>
        match escapedBy e, unescapeAssembly more with
        | some d, some t => some (d :: t)
        | _, _ => none
      | [] => none
    else if escapedInAssembly c then none
    else (unescapeAssembly rest).map (c :: ·)

@[simp] theorem escapeAssembly_nil : escapeAssembly [] = [] := rfl

@[simp] theorem escapeAssembly_cons (c : Char) (cs : List Char) :
    escapeAssembly (c :: cs) = escapeAssemblyChar c ++ escapeAssembly cs := rfl

theorem escapeAssembly_append (as bs : List Char) :
    escapeAssembly (as ++ bs) = escapeAssembly as ++ escapeAssembly bs := by
  induction as with
  | nil => rfl
  | cons a as ih => simp [ih]

theorem unescapeAssembly_escapeAssembly (cs : List Char) :
    unescapeAssembly (escapeAssembly cs) = some cs := by
  induction cs with
  | nil => rfl
  | cons c cs ih =>
    rw [escapeAssembly_cons]
    by_cases h1 : c = '"'
    · subst h1; simp [escapeAssemblyChar, unescapeAssembly, escapedBy, ih]
    by_cases h2 : c = '\\'
    · subst h2; simp [escapeAssemblyChar, unescapeAssembly, escapedBy, ih]
    by_cases h3 : c = '\n'
    · subst h3; simp [escapeAssemblyChar, unescapeAssembly, escapedBy, ih]
    by_cases h4 : c = '\t'
    · subst h4; simp [escapeAssemblyChar, unescapeAssembly, escapedBy, ih]
    by_cases h5 : c = '\r'
    · subst h5; simp [escapeAssemblyChar, unescapeAssembly, escapedBy, ih]
    have hc : escapeAssemblyChar c = [c] := by simp [escapeAssemblyChar, h1, h2, h3, h4, h5]
    rw [hc, List.singleton_append, unescapeAssembly.eq_def]
    simp [escapedInAssembly, h1, h2, h3, h4, h5, ih]

end ClassLang.Text
