import MigrationPlan.Problem.Sample
import MigrationPlan.Problem.Text
import MigrationPlan.Settings.Text
import MigrationPlan.Text.Path

/-!
# Command/Files — files that are read and written

Commands read files by a function that says what a path leads to, so that what they do can be told
without a file system.  `FileTree` is such a function: a finite tree of files and directories, with
the rules by which a path is followed through it.

A tree can be written to as well.  `FileTree.save` makes the directories that a path needs, and then
the file; `saveProblem` and `saveSettings` are what is written.
-/

namespace MigrationPlan.Command

/-- What a path leads to. -/
inductive FileContent where
  | text (s : String)
  | missing
  | directory
  | nameTooLong
deriving DecidableEq, Repr

/-- Finds what a path leads to. -/
abbrev FileReader (m : Type → Type) := (path : String) → m FileContent

variable {m : Type → Type} [Monad m]

/-- The text of a file that has to be there.  A list is no path. -/
def readFile (read : FileReader m) (path : Datum) : ExceptT Fault m String := do
  match path with
  | .text path =>
    match ← ExceptT.lift (read path) with
    | .text text => return text
    | .missing => throw (.fileMissing path)
    | .directory => throw (.isDirectory path)
    | .nameTooLong => throw (.nameTooLong path)
  | _ => throw .notANumber

/-- The problem of a file, or the sample problem, for which there has to be room as well. -/
def loadProblem [Memory] (read : FileReader m) : Option Datum → ExceptT Fault m Problem
  | none => do
    Problem.checkSize sampleProblem.versions sampleProblem.functionalities
    return sampleProblem
  | some path => do
    let text ← readFile read path
    Problem.ofFileText text

/-- The settings of a file, or the default settings. -/
def loadSettings (read : FileReader m) (parse : Parser) (validate : Validator) :
    Option Datum → ExceptT Fault m Settings
  | none => return {}
  | some path => do
    let text ← readFile read path
    Settings.ofFileText text parse validate

/-! ## Trees -/

/-- The names that lead to a place from the root. -/
abbrev Place := List (List Char)

/-- A tree of files and directories, and the directory in which paths without a root begin. -/
structure FileTree where
  files : List (Place × String)
  directories : List Place
  home : Place

/-- The names on a path, without the slashes. -/
def placeOf (path : String) : Place :=
  Text.pathParts path.toList

/-- The most bytes of a name. -/
def nameLimit : Nat := 255

/-- The most bytes of a path in normal form. -/
def pathLimit : Nat := 4095

/-- The number of bytes of a name. -/
def byteCount (name : List Char) : Nat :=
  (String.ofList name).utf8ByteSize

namespace FileTree

/-- What is at a place. -/
def look (tree : FileTree) (place : Place) : FileContent :=
  if place.isEmpty || tree.directories.contains place then .directory
  else (tree.files.lookup place).elim .missing .text

/-- Follows names from a place.  Only a directory can be gone into, and two points lead back out of
it. -/
def follow (tree : FileTree) : (here : Place) → (names : Place) → FileContent
  | here, [] => tree.look here
  | here, name :: names =>
    match tree.look here with
    | .directory =>
      if name = ['.', '.'] then tree.follow here.dropLast names
      else if nameLimit < byteCount name then .nameTooLong
      else tree.follow (here ++ [name]) names
    | _ => .missing

/-- The place in which a path begins. -/
def start (tree : FileTree) (path : String) : Place :=
  if path.toList.head? = some '/' then [] else tree.home

/-- What a path leads to. -/
def read (tree : FileTree) (path : String) : FileContent :=
  if path.toList.contains '\x00' then .missing
  else if pathLimit < (Text.normalPath path).utf8ByteSize then .nameTooLong
  else tree.follow (tree.start path) (placeOf path)

/-! ### Writing -/

/-- The tree with one directory more. -/
def addDirectory (tree : FileTree) (place : Place) : FileTree :=
  { tree with directories := place :: tree.directories }

/-- The tree with a text in the file at a place, whether there was one or not. -/
def put (tree : FileTree) (place : Place) (text : String) : FileTree :=
  { tree with files := (place, text) :: tree.files.filter fun file => file.1 ≠ place }

/-- Goes along names from a place, and makes the directories that are missing; `path` is what they
are on.  The answer is the place at the end. -/
def enter (path : String) : (tree : FileTree) → (here : Place) → (names : Place) →
    Outcome FileTree Place
  | tree, here, [] =>
    match tree.look here with
    | .directory => ⟨tree, .ok here⟩
    | _ => ⟨tree, .error (.fileExists path)⟩
  | tree, here, name :: names =>
    match tree.look here with
    | .directory =>
      if name = ['.', '.'] then tree.enter path here.dropLast names
      else if nameLimit < byteCount name then ⟨tree, .error (.nameTooLong path)⟩
      else
        let next := here ++ [name]
        match tree.look next with
        | .missing => (tree.addDirectory next).enter path next names
        | _ => tree.enter path next names
    | _ => ⟨tree, .error (.notADirectory path)⟩

/-- The place of the file that is opened for writing under a name in a directory. -/
def openIn (tree : FileTree) (path : String) (here : Place) (name : Option (List Char)) :
    Except Fault Place :=
  if path.toList.contains '\x00' then .error .nullInPath
  else if pathLimit < (Text.normalPath path).utf8ByteSize then .error (.nameTooLong path)
  else match name with
    | none => .error (.isDirectory path)
    | some name =>
      if name = ['.', '.'] then .error (.isDirectory path)
      else if nameLimit < byteCount name then .error (.nameTooLong path)
      else if tree.look (here ++ [name]) = .directory then .error (.isDirectory path)
      else .ok (here ++ [name])

/-- Opens a file for writing, after the directories above it have been made.  The answer is its
place. -/
def openFile (tree : FileTree) (path : String) : Outcome FileTree Place :=
  let above := Text.parentPath path
  if above.toList.contains '\x00' then ⟨tree, .error .nullInPath⟩
  else if pathLimit < above.utf8ByteSize then ⟨tree, .error (.nameTooLong above)⟩
  else
    let entered := tree.enter above (tree.start path) (placeOf path).dropLast
    match entered.answer with
    | .error fault => ⟨entered.state, .error fault⟩
    | .ok here =>
      ⟨entered.state, entered.state.openIn path here (placeOf path).getLast?⟩

/-- **Writes a file.**  The text is asked for when the file has been opened; if there is none, the
file stays empty. -/
def save (tree : FileTree) (path : String) (text : Except Fault String) : Outcome FileTree Unit :=
  let opened := tree.openFile path
  match opened.answer with
  | .error fault => ⟨opened.state, .error fault⟩
  | .ok place =>
    match text with
    | .ok text => ⟨opened.state.put place text, .ok ()⟩
    | .error fault => ⟨opened.state.put place "", .error fault⟩

end FileTree

/-- **Writes a problem to a file**, with labels as given. -/
def saveProblem (tree : FileTree) (path : String) (p : AnnouncedProblem)
    (labels : Option Datum := none) : Outcome FileTree Unit :=
  tree.save path (p.render labels)

/-- **Writes settings to a file**; `write` finds their text. -/
def saveSettings (tree : FileTree) (path : String) (s : Settings)
    (write : Settings → String := Settings.render) : Outcome FileTree Unit :=
  tree.save path (.ok (write s))

end MigrationPlan.Command
