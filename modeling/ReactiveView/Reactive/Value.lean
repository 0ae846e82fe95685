/-
# Values

The values that objects and cells hold: undefined, null, booleans, binary64
numbers, texts, and references to objects.  A reference is raw or a *wrapper*;
reading through a wrapper is recorded, and every object has one wrapper, so a
wrapper is known by its object.
-/

import ReactiveView.KeyTable
import ReactiveView.Number.Text
import ReactiveView.Text.Quoted

namespace ReactiveView
namespace Reactive

/-- The identity of an object. -/
structure ObjectId where
  index : Nat
  deriving DecidableEq, Repr

/-- The identity of a cell, the place of a single reactive value. -/
structure CellId where
  index : Nat
  deriving DecidableEq, Repr

/-- A dynamically typed value. -/
inductive Value where
  | undefined
  | null
  | bool (value : Bool)
  | number (value : Float)
  | text (value : String)
  /-- A raw reference. -/
  | object (target : ObjectId)
  /-- A wrapper. -/
  | reactive (target : ObjectId)
  deriving Repr, Inhabited

namespace Value

/-- Values are compared by content, objects by identity.  An undefined number
differs from itself, both zeros are equal, and a wrapper differs from its
object. -/
def same : Value → Value → Bool
  | undefined, undefined => true
  | null, null => true
  | bool a, bool b => a == b
  | number a, number b => a == b
  | text a, text b => a == b
  | object a, object b => a == b
  | reactive a, reactive b => a == b
  | _, _ => false

instance : BEq Value := ⟨same⟩

/-- The wrapper of a raw reference; other values are unchanged. -/
def wrap : Value → Value
  | object target => reactive target
  | value => value

/-- The raw reference of a wrapper; other values are unchanged. -/
def raw : Value → Value
  | reactive target => object target
  | value => value

/-- The object that a reference or wrapper leads to. -/
def target? : Value → Option ObjectId
  | object target => some target
  | reactive target => some target
  | _ => none

/-- The value is a reference, raw or not. -/
def isObject (value : Value) : Bool := value.target?.isSome

/-- The value is undefined or null. -/
def isNullish : Value → Bool
  | undefined => true
  | null => true
  | _ => false

/-- The value is a wrapper. -/
def isReactive : Value → Bool
  | reactive _ => true
  | _ => false

/-- The value is a raw reference. -/
def isRaw : Value → Bool
  | object _ => true
  | _ => false

/-- The boolean that the value is. -/
def bool? : Value → Option Bool
  | bool b => some b
  | _ => none

/-- The number that the value is. -/
def number? : Value → Option Float
  | number x => some x
  | _ => none

/-- The text that the value is. -/
def text? : Value → Option String
  | text s => some s
  | _ => none

/-- The value counts as true: undefined, null, false, the zeros, the undefined
number and the empty text do not. -/
def truthy : Value → Bool
  | undefined => false
  | null => false
  | bool b => b
  | number x => !(x == 0) && !x.isNaN
  | text s => !s.isEmpty
  | object _ => true
  | reactive _ => true

/-- A boolean as a word. -/
def boolText (b : Bool) : String := if b then "true" else "false"

/-- The value as readers see it. -/
def display : Value → String
  | undefined => "undefined"
  | null => "null"
  | bool b => boolText b
  | number x => Number.display x
  | text s => s
  | object _ => "[object Object]"
  | reactive _ => "[object Object]"

/-- An object in a debug text: its keys, since objects may hold each other. -/
def debugObject (keys : List String) : String :=
  "Object \x7b id: TargetId(_), keys: [" ++ ", ".intercalate (keys.map Text.quoted) ++ "] \x7d"

/-- The value in a debug text, from the keys of the objects. -/
def debug (keysOf : ObjectId → List String) : Value → String
  | undefined => "Undefined"
  | null => "Null"
  | bool b => "Bool(" ++ boolText b ++ ")"
  | number x => "Number(" ++ Number.plain x ++ ")"
  | text s => "String(" ++ Text.quoted s ++ ")"
  | object target => debugObject (keysOf target)
  | reactive target => "Reactive(" ++ debugObject (keysOf target) ++ ")"

end Value
end Reactive
end ReactiveView
