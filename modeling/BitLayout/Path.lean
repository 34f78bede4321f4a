import BitLayout.Number.Integer

/-!
# Paths

Where in a value something went wrong: field names and list positions from the root on.

## Main definitions

* `PathElement`, `Path`
* `Path.render`: names joined by full stops, positions in brackets
-/

namespace BitLayout

/-- A step into a value. -/
inductive PathElement where
  | field (name : Text)
  | index (position : Integer)
deriving DecidableEq

/-- Steps from the root of a value. -/
abbrev Path := List PathElement

/-- The rendered path with one more step. A full stop stands only between texts. -/
def PathElement.renderAfter (rendered : Wording) : PathElement → Wording
  | .index position => rendered ++ "[" ++ position.written ++ "]"
  | .field name => if rendered.isEmpty then name else rendered ++ "." ++ name

/-- A path as a message shows it, empty for the root. -/
def Path.render (path : Path) : Wording := path.foldl PathElement.renderAfter (Wording.ofText [])

end BitLayout
