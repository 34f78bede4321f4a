import BitLayout.Layout.Printer
import BitLayout.Number.Decimal
import BitLayout.Value.Basic

/-!
# Written form of values

How a message shows a value.

## Main definitions

* `Value.written`
-/

namespace BitLayout.Value

mutual

/-- A value as a message shows it. -/
def written : Value → Wording
  | .null => writtenNothing
  | .bool b => Text.ofBool b
  | .int n => Wording.ofInt n
  | .float x => x.render
  | .text t => t.quoted
  | .bytes .fixed data => quotedBytes data
  | .bytes .growable data => quotedByteArray data
  | .bytes .view _ => "<memory>"
  | .list items => "[" ++ Wording.joined ", " (writtenItems items) ++ "]"
  | .tuple items => writtenTuple (writtenItems items)
  | .dict entries => "\x7b" ++ Wording.joined ", " (writtenEntries entries) ++ "\x7d"
  | .embedMarker => "EMBED"
  | .ofLayout layout => layout.written
  | .ofSlot slot => slot.written
  | .other _ written => written

/-- The items of a list one by one. -/
def writtenItems : List Value → List Wording
  | [] => []
  | item :: rest => item.written :: writtenItems rest

/-- The entries of a record one by one. -/
def writtenEntries : List (Value × Value) → List Wording
  | [] => []
  | (key, value) :: rest => (key.written ++ ": " ++ value.written) :: writtenEntries rest

end

end BitLayout.Value
