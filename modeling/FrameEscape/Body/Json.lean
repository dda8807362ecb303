import FrameEscape.Body
import FrameEscape.Json

/-!
# Bodies as JSON

A node that has parts is an object with one member, keyed by the kind of the node; plain data
is the bare word. Reading accepts more spellings than writing has: unknown members beside the
known ones, an allocation without a shape, a word as an object with a null under it, and a
body, a node or a span as an array of its parts in order.
-/

namespace FrameEscape

/-! ## Writing -/

namespace Access

/-- The word for a way of access. -/
def word : Access → String
  | value => "Value"
  | ref => "Ref"

/-- The way of access that a word stands for. -/
def ofWord? (word : String) : Option Access :=
  if word = "Value" then some value else if word = "Ref" then some ref else none

end Access

namespace Region

/-- The word for a region. -/
def word : Region → String
  | stack => "Stack"
  | heap => "Heap"

/-- The region that a word stands for. -/
def ofWord? (word : String) : Option Region :=
  if word = "Stack" then some stack else if word = "Heap" then some heap else none

end Region

/-- A span as an object. -/
def Span.toJson (span : Span) : Json :=
  .obj [("start", .nat span.start.toNat), ("end", .nat span.stop.toNat)]

/-- An id as a number. -/
def NodeId.toJson (id : NodeId) : Json := .nat id.index

/-- Some ids as an array. -/
def NodeId.listToJson (ids : List NodeId) : Json := .arr (ids.map NodeId.toJson)

/-- An expression: its kind, and its parts. -/
def Expr.toJson : Expr NodeId → Json
  | .literal => .str "Literal"
  | .alloc region shape => .obj [("Alloc", .obj [
      ("region", .str region.word), ("shape", .ofOption .str shape)])]
  | .var name => .obj [("Var", .str name)]
  | .field base name => .obj [("Field", .obj [("base", base.toJson), ("field", .str name)])]
  | .call receiver method args => .obj [("MethodCall", .obj [
      ("receiver", receiver.toJson), ("method", .str method),
      ("args", NodeId.listToJson args)])]
  | .index base position access => .obj [("Index", .obj [
      ("base", base.toJson), ("index", position.toJson), ("access", .str access.word)])]
  | .slice base args => .obj [("Slice", .obj [
      ("base", base.toJson), ("args", NodeId.listToJson args)])]
  | .assign target value mode => .obj [("Assign", .obj [
      ("target", target.toJson), ("value", value.toJson), ("mode", .str mode.word)])]
  | .construct shape args => .obj [("Construct", .obj [
      ("shape", .str shape), ("args", NodeId.listToJson args)])]
  | .declare name init => .obj [("Let", .obj [("name", .str name), ("init", init.toJson)])]
  | .block stmts => .obj [("Block", NodeId.listToJson stmts)]
  | .ret value mode => .obj [("Return", .obj [
      ("value", value.toJson), ("mode", .str mode.word)])]

/-- A node as an object. -/
def Node.toJson (node : Node) : Json :=
  .obj [("kind", node.expr.toJson), ("span", node.span.toJson)]

/-- A body as an object. -/
def Body.toJson (body : Body) : Json :=
  .obj [("name", .str body.name), ("nodes", .arr (body.nodes.toList.map Node.toJson)),
    ("root", body.root.toJson)]

/-! ## Reading -/

namespace Json

/-- The text of a member. -/
def strMember? (json : Json) (key : String) : Option String := do
  (← json.member? key).str?

/-- The text of a member that may be null or missing. The outer option is none if the member
is something else. -/
def optionalStr? (json : Json) (key : String) : Option (Option String) :=
  match json.member? key with
  | none | some .null => some none
  | some value => value.str?.map some

end Json

/-- An offset, which is a 64-bit word. -/
def offsetOfJson? (json : Json) : Option UInt64 := (json.natBelow? UInt64.size).map UInt64.ofNat

/-- The span with these fields. -/
def Span.ofJson? (json : Json) : Option Span := do
  match ← json.fields? ["start", "end"] with
  | [start, stop] => pure ⟨← offsetOfJson? start, ← offsetOfJson? stop⟩
  | _ => none

/-- The way of access that a tag stands for. -/
def Access.ofJson? (json : Json) : Option Access := do Access.ofWord? (← json.tag?)

/-- The region that a tag stands for. -/
def Region.ofJson? (json : Json) : Option Region := do Region.ofWord? (← json.tag?)

/-- The id that a number stands for. -/
def NodeId.ofJson? (json : Json) : Option NodeId := (json.natBelow? UInt32.size).map NodeId.ofNat

/-- The ids that an array holds. -/
def NodeId.listOfJson? (json : Json) : Option (List NodeId) := do
  (← json.arr?).mapM NodeId.ofJson?

namespace Json

/-- The id of a member. -/
def idMember? (json : Json) (key : String) : Option NodeId := do
  NodeId.ofJson? (← json.member? key)

/-- The ids of a member. -/
def idsMember? (json : Json) (key : String) : Option (List NodeId) := do
  NodeId.listOfJson? (← json.member? key)

/-- The way of access of a member. -/
def accessMember? (json : Json) (key : String) : Option Access := do
  Access.ofJson? (← json.member? key)

end Json

/-- The expression of a kind with some parts. -/
def Expr.ofParts? (kind : String) (parts : Json) : Option (Expr NodeId) :=
  match kind with
  | "Literal" => match parts with
    | .null => some .literal
    | _ => none
  | "Alloc" => do
    let region ← Region.ofJson? (← parts.member? "region")
    pure (.alloc region (← parts.optionalStr? "shape"))
  | "Var" => parts.str?.map .var
  | "Field" => do pure (.field (← parts.idMember? "base") (← parts.strMember? "field"))
  | "MethodCall" => do
    pure (.call (← parts.idMember? "receiver") (← parts.strMember? "method")
      (← parts.idsMember? "args"))
  | "Index" => do
    pure (.index (← parts.idMember? "base") (← parts.idMember? "index")
      (← parts.accessMember? "access"))
  | "Slice" => do pure (.slice (← parts.idMember? "base") (← parts.idsMember? "args"))
  | "Assign" => do
    pure (.assign (← parts.idMember? "target") (← parts.idMember? "value")
      (← parts.accessMember? "mode"))
  | "Construct" => do
    pure (.construct (← parts.strMember? "shape") (← parts.idsMember? "args"))
  | "Let" => do pure (.declare (← parts.strMember? "name") (← parts.idMember? "init"))
  | "Block" => (NodeId.listOfJson? parts).map .block
  | "Return" => do
    pure (.ret (← parts.idMember? "value") (← parts.accessMember? "mode"))
  | _ => none

/-- The expression of a tag and the parts under it. -/
def Expr.ofJson? (json : Json) : Option (Expr NodeId) := do
  let (kind, parts) ← json.tagged?
  Expr.ofParts? kind parts

/-- The node with these fields. -/
def Node.ofJson? (json : Json) : Option Node := do
  match ← json.fields? ["kind", "span"] with
  | [kind, span] => pure ⟨← Expr.ofJson? kind, ← Span.ofJson? span⟩
  | _ => none

/-- The body with these fields. -/
def Body.ofJson? (json : Json) : Option Body := do
  match ← json.fields? ["name", "nodes", "root"] with
  | [name, nodes, root] =>
    let name ← name.str?
    let nodes ← (← nodes.arr?).mapM Node.ofJson?
    let root ← NodeId.ofJson? root
    pure ⟨name, nodes.toArray, root⟩
  | _ => none

end FrameEscape
