import ClassLang.Typing.Program
import ClassLang.Registry.OfProgram
import ClassLang.Lowering.Class
import ClassLang.Disk

namespace ClassLang

/-- Builds the class table and checks the program; the table of a program that passes. -/
def check (opts : Options) (p : Program) : Logged ClassTable := do
  let t ← ClassTable.ofProgram p
  Logged.write .info ("registered " ++ toString t.size ++ " classes")
  checkProgram t opts p
  Logged.write .info ("checked " ++ toString p.classes.length ++ " classes")
  return t

/-- Checks the program, then lowers each class to its unit. -/
def compile (opts : Options) (p : Program) : Logged (List ClassUnit) := do
  let t ← check opts p
  let us ← p.lower t opts
  Logged.write .info ("generated " ++ toString us.length ++ " units")
  return us

def generate (opts : Options) (p : Program) : Logged (List ClassUnit) := do
  let t ← ClassTable.ofProgram p
  p.lower t opts

/-- Lowers one class declaration against the table of a registered program; the declaration
need not be one of the program's. -/
def generateClass (opts : Options) (p : Program) (c : ClassDecl) : Logged ClassUnit := do
  let t ← ClassTable.ofProgram p
  c.lower t opts

/-- Why a build into a directory failed. -/
inductive BuildError where
  | compilation (e : CompileError)
  | write (path : String) (e : FsError)
  | io (e : FsError)
  deriving Repr

def BuildError.message : BuildError → String
  | .compilation e => e.message
  | .write p e => "cannot write " ++ p ++ ": " ++ e.message
  | .io e => e.message

/-- Writes units into the directory `dir`, which `root` displays the root of; returns the paths
written, relative to the root. -/
def writeUnits (root dir : String) (d : Disk) :
    List ClassUnit → Except BuildError (Disk × List String)
  | [] => .ok (d, [])
  | u :: us =>
    let rel := joinPath dir u.file
    match d.write (Route.ofText rel) u.text with
    | .error e => .error (.write (joinPath root rel) e)
    | .ok d' => do
      let (d'', ps) ← writeUnits root dir d' us
      .ok (d'', rel :: ps)

/-- Compiles the program and writes its units into the directory `dir` of the disk `d`, creating
the directory first; `root` is how the disk's root is displayed. -/
def compileToDir (opts : Options) (p : Program) (d : Disk) (root dir : String) :
    Array LogLine × Except BuildError (Disk × List String) :=
  let (log, r) := (compile opts p).run
  match r with
  | .error e => (log, .error (.compilation e))
  | .ok us =>
    match d.createDirAll (Route.ofText dir) with
    | .error e => (log, .error (.io e))
    | .ok d' =>
      match writeUnits root dir d' us with
      | .error e => (log, .error e)
      | .ok (d'', ps) =>
        (log.push ⟨.info, "wrote " ++ toString ps.length ++ " units to " ++ joinPath root dir⟩,
          .ok (d'', ps))

end ClassLang
