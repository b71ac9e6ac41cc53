import ClassLang.Error

namespace ClassLang

/-- The severity of a log line. -/
inductive Level where
  | error | warn | info | debug | trace
  deriving DecidableEq, Repr, Inhabited

def Level.text : Level → String
  | error => "ERROR"
  | warn => "WARN"
  | info => "INFO"
  | debug => "DEBUG"
  | trace => "TRACE"

/-- A log line. -/
structure LogLine where
  level : Level
  text : String
  deriving DecidableEq, Repr, Inhabited

abbrev Logged := ExceptT CompileError (StateM (Array LogLine))

namespace Logged

def write (l : Level) (text : String) : Logged Unit :=
  modify fun log ↦ log.push ⟨l, text⟩

def lift {α : Type} (r : Except CompileError α) : Logged α :=
  match r with
  | .ok a => pure a
  | .error e => throw e

def run {α : Type} (m : Logged α) : Array LogLine × Except CompileError α :=
  let (r, log) := (ExceptT.run m).run #[]
  (log, r)

end Logged

end ClassLang
