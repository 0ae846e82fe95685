/-
# The JSON form of render-function code

A node is an object whose field `type` names its shape; the other fields hold the
parts.  Reading does not depend on the order of the fields and ignores unknown
ones.  A node may also be a list: the name of the shape, then the parts in order;
and inside another node the shape may be given by its number.
-/

import ReactiveView.Json
import ReactiveView.Code

namespace ReactiveView
namespace Code

/-- The six shapes of a node. -/
inductive Shape where
  | function
  | ret
  | call
  | array
  | string
  | identifier
  deriving DecidableEq, Repr

namespace Shape

/-- The shapes in the order of their numbers. -/
def all : List Shape := [function, ret, call, array, string, identifier]

/-- The name of a shape in the JSON form. -/
def label : Shape → String
  | function => "FunctionDecl"
  | ret => "ReturnStatement"
  | call => "CallExpression"
  | array => "ArrayExpression"
  | string => "StringLiteral"
  | identifier => "Identifier"

/-- The fields that hold the parts of a node of this shape, in order. -/
def fieldNames : Shape → List String
  | function => ["id", "params", "body"]
  | ret => ["return"]
  | call => ["callee", "arguments"]
  | array => ["elements"]
  | string => ["value"]
  | identifier => ["name"]

/-- The shape of a name. -/
def ofLabel? (label : String) : Option Shape :=
  all.find? fun shape => shape.label == label

end Shape

/-- The shape of a node. -/
def shape : Code → Shape
  | function .. => .function
  | ret .. => .ret
  | call .. => .call
  | array .. => .array
  | string .. => .string
  | identifier .. => .identifier

mutual

/-- The JSON form of a node, `type` first and the parts in order. -/
def toJson : Code → Json
  | function id params body =>
    .object [("type", .string Shape.function.label), ("id", toJson id),
      ("params", .array (toJsons params)), ("body", .array (toJsons body))]
  | ret value => .object [("type", .string Shape.ret.label), ("return", toJson value)]
  | call callee arguments =>
    .object [("type", .string Shape.call.label), ("callee", toJson callee),
      ("arguments", .array (toJsons arguments))]
  | array elements =>
    .object [("type", .string Shape.array.label), ("elements", .array (toJsons elements))]
  | string value => .object [("type", .string Shape.string.label), ("value", .string value)]
  | identifier name => .object [("type", .string Shape.identifier.label), ("name", .string name)]

/-- The JSON forms of several nodes. -/
def toJsons : List Code → List Json
  | [] => []
  | code :: rest => toJson code :: toJsons rest

end

/-- What a JSON value is when it stands as a part of a node: a shape, a text, a
node or a list of nodes, as far as it can be read so. -/
structure Reading where
  /-- The shape that the value names or numbers. -/
  shape : Option Shape
  /-- The value as a text. -/
  text : Option String
  /-- The value as a node. -/
  node : Option Code
  /-- The value as a list of nodes. -/
  nodes : Option (List Code)

/-- A node of a shape from its parts, if they are there and of the right form. -/
def ofParts? : Shape → List (Option Reading) → Option Code
  | .function, [id, params, body] => do
    return function (← (← id).node) (← (← params).nodes) (← (← body).nodes)
  | .ret, [value] => do return ret (← (← value).node)
  | .call, [callee, arguments] => do return call (← (← callee).node) (← (← arguments).nodes)
  | .array, [elements] => do return array (← (← elements).nodes)
  | .string, [value] => do return string (← (← value).text)
  | .identifier, [name] => do return identifier (← (← name).text)
  | _, _ => none

/-- The node that an object holds, from the readings of its fields. -/
def ofFields? (fields : List (String × Reading)) : Option Code := do
  let shape ← (← fields.lookup "type").shape
  ofParts? shape (shape.fieldNames.map fun name => fields.lookup name)

/-- The node that a list holds, from the readings of its elements. -/
def ofElements? : List Reading → Option Code
  | [] => none
  | first :: parts => do ofParts? (← first.shape) (parts.map some)

mutual

/-- Reads a JSON value in every way at once, each part before the whole. -/
def reading : Json → Reading
  | .string s => ⟨Shape.ofLabel? s, some s, none, none⟩
  | .number (.ofNat n) 0 => ⟨Shape.all[n]?, none, none, none⟩
  | .array elements =>
    let parts := readings elements
    ⟨none, none, ofElements? parts, parts.mapM Reading.node⟩
  | .object fields => ⟨none, none, ofFields? (fieldReadings fields), none⟩
  | _ => ⟨none, none, none, none⟩

/-- The readings of several values. -/
def readings : List Json → List Reading
  | [] => []
  | j :: rest => reading j :: readings rest

/-- The readings of the fields of an object. -/
def fieldReadings : List (String × Json) → List (String × Reading)
  | [] => []
  | (name, j) :: rest => (name, reading j) :: fieldReadings rest

end

/-- The shape of an outermost node is given by its name, not by a number. -/
def isNamed : Json → Bool
  | .object fields => (fields.lookup "type").any Json.isString
  | .array elements => elements.head?.any Json.isString
  | _ => false

/-- The node that a JSON value holds. -/
def ofJson? (j : Json) : Option Code :=
  if isNamed j then (reading j).node else none

end Code
end ReactiveView
