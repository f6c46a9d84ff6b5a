import Javelin.Text.JsonValue
import Javelin.Syntax.Node

/-!
# Trees as JSON

A node becomes an object with its kind, its place by lines and columns, its spelling, its marks and
its children.
-/

namespace Javelin.Node

def positionDocument (p : Position) : JsonValue :=
  .object (JsonValue.field "line" (.nat p.line) ++ JsonValue.field "column" (.nat p.column))

/-- The place of a node; a node without one has no such field. -/
def spanFields (s : Span) : List JsonField :=
  if s.start.line == 0 && s.stop.line == 0 then []
  else
    JsonValue.field "span" (.object
      (JsonValue.field "start" (positionDocument s.start) ++
        JsonValue.field "end" (positionDocument s.stop)))

/-- The document of a node and what is at most `depth` below it. -/
def documentAt : Nat → Node → JsonValue
  | 0, _ => .null
  | depth + 1, n =>
    .object (JsonValue.field "kind" (.string n.kind) ++ spanFields n.info.span ++
      JsonValue.textField "text" n.spelling ++
      JsonValue.listField "flags" (n.info.flags.names.map fun f : String => .string f) ++
      JsonValue.listField "children" (n.children.map (documentAt depth)))

end Javelin.Node
