import MigrationPlan.Numeric.Decimal

/-!
# Report — what the commands print

A report is a tree of values, printed as JSON: each item of a list and each entry of a record on a
line of its own, two columns further in than what holds it.
-/

namespace MigrationPlan

/-- A printed value. -/
inductive Report where
  | flag (b : Bool)
  | whole (i : Int)
  | real (x : Binary64)
  | text (s : String)
  | list (items : List Report)
  | record (entries : List (String × Report))

namespace Report

/-- Doubles in a list. -/
def reals (xs : List Binary64) : Report :=
  list (xs.map real)

/-- Positions in a list. -/
def positions (ns : List Nat) : Report :=
  list (ns.map fun (n : Nat) => whole n)

/-- Texts in a list. -/
def texts (ss : List String) : Report :=
  list (ss.map text)

/-- One character between double quotes.  The texts of reports are printable ASCII. -/
def quotedChar (c : Char) : List Char :=
  if c = '"' || c = '\\' then ['\\', c] else [c]

/-- A text in double quotes. -/
def quoted (s : String) : String :=
  "\"" ++ String.ofList (s.toList.flatMap quotedChar) ++ "\""

/-- How doubles are spelled in a report. -/
def layout : Layout := ⟨false, "NaN", "Infinity"⟩

/-- A new line with an indent. -/
def newLine (indent : Nat) : String :=
  "\n" ++ String.ofList (List.replicate indent ' ')

/-- Lines between brackets; nothing between them if there are none. -/
def bracketed (opening closing : String) (indent : Nat) (lines : List String) : String :=
  if lines.isEmpty then opening ++ closing
  else
    opening ++ newLine (indent + 2) ++ ("," ++ newLine (indent + 2)).intercalate lines
      ++ newLine indent ++ closing

mutual

/-- The text of a value that stands in a line with a given indent. -/
def render (indent : Nat) : Report → String
  | flag b => if b then "true" else "false"
  | whole i => toString i
  | real x => layout.write x
  | text s => quoted s
  | list items => bracketed "[" "]" indent (renderItems (indent + 2) items)
  | record entries => bracketed "\x7b" "\x7d" indent (renderEntries (indent + 2) entries)

def renderItems (indent : Nat) : List Report → List String
  | [] => []
  | item :: rest => render indent item :: renderItems indent rest

def renderEntries (indent : Nat) : List (String × Report) → List String
  | [] => []
  | (key, value) :: rest =>
    (quoted key ++ ": " ++ render indent value) :: renderEntries indent rest

end

/-- The whole text, which ends in a line feed. -/
def print (r : Report) : String :=
  render 0 r ++ "\n"

end Report

end MigrationPlan
