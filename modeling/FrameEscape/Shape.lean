import FrameEscape.Level
import FrameEscape.NameTable

/-!
# Shapes

A shape is the checker's view of a struct: its fields, how far each of them may escape, and
what each method promises about its result. Those promises are the only place where code
that is not seen is trusted, so they can be listed.
-/

namespace FrameEscape

/-- What a member's result is allowed to point at. -/
inductive ReturnKind where
  /-- Nothing is returned. -/
  | unit
  /-- A result by value, with no claim of independence from the receiver. -/
  | value
  /-- A result by reference, with no claim of independence from the receiver. -/
  | ref
  /-- A result by reference that is promised never to point into the receiver's storage. -/
  | refIndependent
  /-- A reference to one of the receiver's fields. -/
  | refToSelfField
  deriving DecidableEq

/-- Whether the result is a reference. -/
def ReturnKind.isRef : ReturnKind → Bool
  | .ref | .refIndependent | .refToSelfField => true
  | .unit | .value => false

/-- A field of a shape. Its level bounds from above whatever is read through it. -/
structure Field where
  name : String
  level : Level
  shape : Option String
  deriving DecidableEq

/-- A method of a shape, as far as escapes are concerned. -/
structure Method where
  name : String
  /-- How the receiver is passed. -/
  receiver : Access
  /-- How each argument is passed. Further ones go by value. -/
  params : List Access
  returns : ReturnKind
  /-- The shape of the result. -/
  result : Option String
  deriving DecidableEq

/-- How the argument at a place, counted from zero, is passed. -/
def Method.paramMode (method : Method) (i : Nat) : Access := method.params.getD i .value

/-- Access to elements by index. What is read by value depends on the receiver in any case;
`byRef` is the promise made for references. -/
structure Indexer where
  element : Option String
  byRef : ReturnKind
  deriving DecidableEq

/-- What is known of a struct besides its name. -/
structure Shape where
  fields : List Field
  methods : List Method
  indexer : Option Indexer
  deriving DecidableEq

namespace Shape

/-- The first field with the name. -/
def field? (shape : Shape) (name : String) : Option Field :=
  shape.fields.find? (·.name == name)

/-- The first method with the name. -/
def method? (shape : Shape) (name : String) : Option Method :=
  shape.methods.find? (·.name == name)

/-- A struct is only as safe as its least safe field. -/
def level (shape : Shape) : Level := Level.meetAll (shape.fields.map (·.level))

/-- The names of the fields and then of the methods, as declared. -/
def memberNames (shape : Shape) : List String :=
  shape.fields.map (·.name) ++ shape.methods.map (·.name)

/-- The members that are trusted not to refer to their receiver, by their full names. -/
def trustedMembers (name : String) (shape : Shape) : List String :=
  (shape.methods.filter (·.returns == .refIndependent)).map (name ++ "." ++ ·.name) ++
    match shape.indexer with
    | some indexer => if indexer.byRef = .refIndependent then [name ++ "[]"] else []
    | none => []

end Shape

/-- The shapes that a body may mention, by name. -/
abbrev Shapes := NameTable Shape

/-- Every member of every shape that is trusted not to refer to its receiver, in order. -/
def Shapes.trustedMembers (shapes : Shapes) : List String :=
  Names.sort (shapes.entries.flatMap fun (name, shape) => shape.trustedMembers name)

end FrameEscape
