import MigrationPlan.Variable.Batch

/-!
# Variable/Session — runs of operations over a list of variables

A session is a list of variables that grows by `create` and `copy` and whose elements change by the
writing steps.  `Session.apply` is one step and `Session.run` a whole run; a refused step leaves the
list as it was, with the exception stated at `Variable.writeInts`.
-/

namespace MigrationPlan

/-- What a variable is made from. -/
inductive VariableSpec where
  | real (lower upper : Datum) (value : Option Datum)
  | integer (lower upper : Datum) (value : Option Datum)
  | newInteger (lower upper : Datum)
  | newBinary (length : Datum)
  | binary (array : Datum)
  | subset (capacity lower upper members : Datum)
  | permutation (length : Datum) (order : Option Datum)

/-- Makes a variable. -/
def VariableSpec.create [Memory] : VariableSpec → Except Fault Variable
  | real lower upper value => (RealVariable.create lower upper value).map .real
  | integer lower upper value => (IntegerVariable.create lower upper value).map .integer
  | newInteger lower upper => (IntegerVariable.new lower upper).map .integer
  | newBinary length => (BinaryVariable.new length).map .binary
  | binary array => (BinaryVariable.create array).map .binary
  | subset capacity lower upper members =>
    (SubsetVariable.create capacity lower upper members).map .subset
  | permutation length order => (PermutationVariable.create length order).map .permutation

/-- An operation on the variables of a session, which it names by their positions; negative ones
count from the end.  A batch names its variables in order, and all of them if it names none. -/
inductive Step where
  | create (spec : VariableSpec)
  | copy (target : Datum)
  | text (target : Datum)
  | size (target : Datum)
  | asReal (target : Datum)
  | asInt (target : Datum)
  | asBinary (target : Datum)
  | asBitset (target : Datum)
  | asBoolean (target : Datum)
  | asSubset (target : Datum)
  | asPermutation (target : Datum)
  | setReal (target value : Datum)
  | setInt (target value : Datum)
  | setBinary (target array : Datum)
  | setBitset (target indices : Datum)
  | setBoolean (target value : Datum)
  | setSubset (target members : Datum)
  | setPermutation (target array : Datum)
  | encodeInto (source target : Datum) (gray : Bool)
  | decodeInto (source target : Datum) (gray : Bool)
  | asReals (batch : Option (List Datum)) (start : Datum) (stop : Option Datum)
  | asInts (batch : Option (List Datum)) (start : Datum) (stop : Option Datum)
  | setReals (batch : Option (List Datum)) (values start : Datum) (stop : Option Datum)
  | setInts (batch : Option (List Datum)) (values start : Datum) (stop : Option Datum)

/-- The answer to a step. -/
inductive Reply where
  | done
  | text (s : String)
  | number (x : Number)
  | numbers (xs : List Number)
  | bits (b : Bits)
  | boolean (b : Bool)

/-- A position among `n`; negative ones count from the end. -/
def position? (n : Nat) (d : Datum) : Except Fault Nat := do
  let i ← d.count?
  let i := if i < 0 then i + n else i
  if 0 ≤ i && i < n then .ok i.toNat else .error .positionOutside

/-- The variables of a session. -/
abbrev Session := List Variable

namespace Session

/-- The position that a step names. -/
def target? (s : Session) (d : Datum) : Except Fault Nat :=
  position? s.length d

/-- The variable at a position. -/
def get? (s : Session) (i : Nat) : Except Fault Variable :=
  Variable.at? s i

/-- Answers without a change. -/
def answer (s : Session) (reply : Except Fault Reply) : Outcome Session Reply :=
  ⟨s, reply⟩

/-- Adds a variable at the end and answers with its position. -/
def push (s : Session) (v : Except Fault Variable) : Outcome Session Reply :=
  Outcome.commit s (v.map fun v => (s ++ [v], .number (.whole s.length)))

/-- Reads one variable. -/
def read {α : Type} (s : Session) (target : Datum) (view : Variable → Except Fault α)
    (reply : α → Reply) : Outcome Session Reply :=
  s.answer do
    let v ← s.get? (← s.target? target)
    (view v).map reply

/-- Writes one variable. -/
def write (s : Session) (target : Datum) (change : Variable → Except Fault Variable) :
    Outcome Session Reply :=
  Outcome.commit s do
    let i ← s.target? target
    let v ← s.get? i
    (change v).map fun w => (s.set i w, .done)

/-- Writes one variable by what another holds. -/
def writeFrom (s : Session) (source target : Datum)
    (change : Variable → Variable → Except Fault Variable) : Outcome Session Reply :=
  Outcome.commit s do
    let v ← s.get? (← s.target? source)
    let j ← s.target? target
    let w ← s.get? j
    (change v w).map fun w => (s.set j w, .done)

/-- The positions of a batch: all of them if none are named. -/
def batch? (s : Session) : Option (List Datum) → Except Fault Batch
  | none => .ok (List.range s.length)
  | some names => names.mapM s.target?

/-- Writes a batch of variables. -/
def writeBatch (s : Session) (names : Option (List Datum))
    (change : Batch → Outcome (List Variable) Unit) : Outcome Session Reply :=
  match s.batch? names with
  | .error fault => ⟨s, .error fault⟩
  | .ok batch =>
    let out := change batch
    ⟨out.state, out.answer.map fun _ => .done⟩

def wholes (xs : List Int) : Reply :=
  .numbers (xs.map .whole)

def naturals (xs : List Nat) : Reply :=
  .numbers (xs.map fun (n : Nat) => .whole n)

/-- One step. -/
def apply [Memory] (s : Session) : Step → Outcome Session Reply
  | .create spec => s.push spec.create
  | .copy i => s.push do (← s.get? (← s.target? i)).copy
  | .text i => s.read i (fun v => .ok v.text) .text
  | .size i => s.read i Variable.size? .number
  | .asReal i => s.read i Variable.asReal .number
  | .asInt i => s.read i Variable.asInt (fun n => .number (.whole n))
  | .asBinary i => s.read i Variable.asBinary .bits
  | .asBitset i => s.read i Variable.asBitset naturals
  | .asBoolean i => s.read i Variable.asBoolean .boolean
  | .asSubset i => s.read i Variable.asSubset wholes
  | .asPermutation i => s.read i Variable.asPermutation naturals
  | .setReal i x => s.write i (·.setReal x)
  | .setInt i x => s.write i (·.setInt x)
  | .setBinary i a => s.write i (·.setBinary a)
  | .setBitset i xs => s.write i (·.setBitset xs)
  | .setBoolean i x => s.write i (·.setBoolean x.truth)
  | .setSubset i xs => s.write i (·.setSubset xs)
  | .setPermutation i a => s.write i (·.setPermutation a)
  | .encodeInto i j gray => s.writeFrom i j (·.encodeInto · gray)
  | .decodeInto i j gray => s.writeFrom i j (·.decodeInto · gray)
  | .asReals names start stop => s.answer do
      let xs ← Variable.asReals s (← s.batch? names) start stop
      .ok (.numbers (xs.map .real))
  | .asInts names start stop => s.answer do
      let xs ← Variable.asInts s (← s.batch? names) start stop
      .ok (wholes xs)
  | .setReals names values start stop =>
      s.writeBatch names (Variable.setReals s · values start stop)
  | .setInts names values start stop =>
      s.writeBatch names (Variable.setInts s · values start stop)

/-- A whole run: the state after each step, with its answer. -/
def run [Memory] (s : Session) : List Step → List (Outcome Session Reply)
  | [] => []
  | step :: steps =>
    let out := s.apply step
    out :: run out.state steps

end Session

end MigrationPlan
