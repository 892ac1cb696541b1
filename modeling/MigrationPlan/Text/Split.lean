/-!
# Text/Split — the parts of a text between separators

`split` cuts at every separator, so that there is always one part more than there are separators;
`join` puts the separators back.
-/

namespace MigrationPlan.Text

/-- The parts of a text between separators. -/
def split (separator : Char) : List Char → List (List Char)
  | [] => [[]]
  | c :: cs =>
    if c = separator then [] :: split separator cs
    else match split separator cs with
      | part :: parts => (c :: part) :: parts
      | [] => [[c]]

/-- Parts with a separator between any two. -/
def join (separator : Char) : List (List Char) → List Char
  | [] => []
  | [part] => part
  | part :: parts => part ++ separator :: join separator parts

theorem split_ne_nil (separator : Char) (cs : List Char) : split separator cs ≠ [] := by
  cases cs with
  | nil => simp [split]
  | cons c cs =>
    rw [split]
    split
    · simp
    · split <;> simp

end MigrationPlan.Text
