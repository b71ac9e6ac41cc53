namespace ClassLang

/-- Why a file system operation failed. -/
inductive FsError where
  | notFound
  | notADirectory
  | exists
  | isADirectory
  | nameTooLong
  | nulInName
  deriving DecidableEq, Repr, Inhabited

def FsError.message : FsError → String
  | .notFound => "No such file or directory (os error 2)"
  | .notADirectory => "Not a directory (os error 20)"
  | .exists => "File exists (os error 17)"
  | .isADirectory => "Is a directory (os error 21)"
  | .nameTooLong => "File name too long (os error 36)"
  | .nulInName => "file name contained an unexpected NUL byte"

def nameMax : Nat := 255

def pathMax : Nat := 4096

/-- What is stored at a location. -/
inductive Entry where
  | dir
  | file (text : String)
  deriving DecidableEq, Repr, Inhabited

/-- One step of a path. -/
inductive PathStep where
  | here
  | up
  | down (name : String)
  deriving DecidableEq, Repr, Inhabited

def PathStep.ofPiece : String → PathStep
  | "." => .here
  | ".." => .up
  | n => .down n

/-- A relative path, as the pieces of its text between slashes. -/
structure Route where
  pieces : List String
  deriving DecidableEq, Repr, Inhabited

def isBlankPiece (p : String) : Bool := p.isEmpty || p == "."

namespace Route

def ofText (p : String) : Route := ⟨p.splitOn "/"⟩

def text (r : Route) : String := "/".intercalate r.pieces

def steps (r : Route) : List PathStep :=
  (r.pieces.filter (!·.isEmpty)).map PathStep.ofPiece

def dirOnly (r : Route) : Bool := 1 < r.pieces.length && r.pieces.getLast? == some ""

def bytes (r : Route) : Nat := r.text.utf8ByteSize

def hasNul (r : Route) : Bool := r.pieces.any fun p ↦ p.any (· == '\x00')

def depth (r : Route) : Nat := (r.pieces.filter (!isBlankPiece ·)).length

def trimEnd (r : Route) : Route := ⟨(r.pieces.reverse.dropWhile isBlankPiece).reverse⟩

/-- The parent the standard library takes from the text: its last naming piece and what
follows it dropped, and the blank pieces before it too. -/
def parent (r : Route) : Route := (⟨r.trimEnd.pieces.dropLast⟩ : Route).trimEnd

end Route

def joinPath (a b : String) : String :=
  if a.isEmpty || a.endsWith "/" then a ++ b else a ++ "/" ++ b

/-- A relative path as it reads once its leading and trailing `.` and empty pieces are cut
off: what is left of a written path after the root is taken away from its front. -/
def trimPath (p : String) : String :=
  "/".intercalate ((((p.splitOn "/").dropWhile isBlankPiece).reverse.dropWhile isBlankPiece).reverse)

/-- What the last step of a route names: a directory reached by `.` or `..` (or the root), or
the entry of a name, which need not exist. -/
inductive PathEnd where
  | dot (dir : List String)
  | named (loc : List String)
  deriving DecidableEq, Repr, Inhabited

/-- A directory tree below a root, as its locations with what each holds. -/
structure Disk where
  entries : List (List String × Entry) := []
  rootBytes : Nat := 0
  deriving Repr, Inhabited

namespace Disk

/-- What is stored at a location; the root is a directory. -/
def get? (d : Disk) : List String → Option Entry
  | [] => some .dir
  | p => (d.entries.find? (·.1 == p)).map (·.2)

/-- Follows steps from the directory `cur`; each one must lead through an existing
directory, and no name longer than `nameMax` bytes is found. Going up from the root stays at the
root. -/
def follow (d : Disk) (cur : List String) : List PathStep → Except FsError (List String)
  | [] => .ok cur
  | .here :: ss => d.follow cur ss
  | .up :: ss => d.follow cur.dropLast ss
  | .down n :: ss =>
    if nameMax < n.utf8ByteSize then .error .nameTooLong
    else match d.get? (cur ++ [n]) with
      | some .dir => d.follow (cur ++ [n]) ss
      | some (.file _) => .error .notADirectory
      | none => .error .notFound

/-- Checks a route the way the host does before it walks it: no NUL character, and a host path
shorter than `pathMax` bytes. -/
def screenPath (d : Disk) (r : Route) : Except FsError Unit :=
  if r.hasNul then .error .nulInName
  else if pathMax ≤ d.rootBytes + 1 + r.bytes then .error .nameTooLong
  else .ok ()

def target (d : Disk) (r : Route) : Except FsError PathEnd := do
  d.screenPath r
  let dir ← d.follow [] r.steps.dropLast
  match r.steps.getLast? with
  | none => pure (.dot [])
  | some .here => pure (.dot dir)
  | some .up => pure (.dot dir.dropLast)
  | some (.down n) => pure (.named (dir ++ [n]))

/-- What is stored at the location a last name leads to; no name longer than `nameMax` bytes is
found. -/
def lookup (d : Disk) (p : List String) : Except FsError (Option Entry) :=
  if nameMax < (p.getLastD "").utf8ByteSize then .error .nameTooLong else .ok (d.get? p)

def isDir (d : Disk) (r : Route) : Bool :=
  match d.target r with
  | .ok (.dot _) => true
  | .ok (.named p) =>
    match d.lookup p with
    | .ok (some .dir) => true
    | _ => false
  | .error _ => false

def put (d : Disk) (p : List String) (e : Entry) : Disk :=
  { d with entries := (p, e) :: d.entries.filter (·.1 != p) }

/-- Creates one directory whose parent exists; `.`, `..` and anything that exists are there
already. -/
def mkdir (d : Disk) (r : Route) : Except FsError Disk := do
  match ← d.target r with
  | .dot _ => .error .exists
  | .named p =>
    match ← d.lookup p with
    | some _ => .error .exists
    | none => pure (d.put p .dir)

/-- Creates the directory of route `r` and its missing parents; `fuel` is the number of its
naming pieces, which each step to a parent lowers by one. A directory that exists is no
failure. -/
def createDirAllFrom (d : Disk) : Nat → Route → Except FsError Disk
  | 0, r =>
    match d.mkdir r with
    | .ok d' => .ok d'
    | .error e => if d.isDir r then .ok d else .error e
  | fuel + 1, r =>
    match d.mkdir r with
    | .ok d' => .ok d'
    | .error .notFound => do
      let d' ← d.createDirAllFrom fuel r.parent
      match d'.mkdir r with
      | .ok d'' => .ok d''
      | .error e => if d'.isDir r then .ok d' else .error e
    | .error e => if d.isDir r then .ok d else .error e

def createDirAll (d : Disk) (r : Route) : Except FsError Disk := d.createDirAllFrom r.depth r

/-- Writes a file, creating it or replacing its text. A route that ends in `.`, `..` or a
slash cannot name a file. -/
def write (d : Disk) (r : Route) (text : String) : Except FsError Disk := do
  match ← d.target r with
  | .dot _ => .error .isADirectory
  | .named p =>
    if r.dirOnly then .error .isADirectory
    else match ← d.lookup p with
      | some .dir => .error .isADirectory
      | _ => pure (d.put p (.file text))

/-- A disk whose root has a host path of `rootBytes` bytes, holding empty files at the given
paths, with the directories above them. -/
def ofFiles (rootBytes : Nat) (paths : List String) : Disk :=
  paths.foldl (fun d p ↦
    let r := Route.ofText p
    match d.createDirAll r.parent with
    | .ok d' => match d'.write r "" with
      | .ok d'' => d''
      | .error _ => d'
    | .error _ => d) { rootBytes }

def read? (d : Disk) (r : Route) : Option String :=
  match d.target r with
  | .ok (.named p) =>
    match d.lookup p with
    | .ok (some (.file t)) => if r.dirOnly then none else some t
    | _ => none
  | _ => none

end Disk

end ClassLang
