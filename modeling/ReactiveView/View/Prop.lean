/-
# Props

A prop is what a virtual node says under one key: the value of an attribute or of
a property of its element, or the handlers of an event.
-/

import ReactiveView.Reactive.Program

namespace ReactiveView
namespace View

open Reactive (CallbackId)

/-- The value of a prop.  Handlers are known by their identity. -/
inductive PropValue where
  | null
  | bool (value : Bool)
  | number (value : Float)
  | text (value : String)
  | handler (callback : CallbackId)
  | handlers (callbacks : List CallbackId)
  deriving Repr, Inhabited

/-- The props of a virtual node. -/
abbrev Props := KeyTable PropValue

namespace PropValue

/-- Props are compared by content; an undefined number differs from itself, and
one handler differs from the list of it. -/
def same : PropValue → PropValue → Bool
  | null, null => true
  | bool a, bool b => a == b
  | number a, number b => a == b
  | text a, text b => a == b
  | handler a, handler b => a == b
  | handlers a, handlers b => a == b
  | _, _ => false

instance : BEq PropValue := ⟨same⟩

/-- The prop is null. -/
def isNull : PropValue → Bool
  | null => true
  | _ => false

/-- The handlers that the prop holds, in order, if it holds any kind of them. -/
def callbacks? : PropValue → Option (List CallbackId)
  | handler callback => some [callback]
  | handlers callbacks => some callbacks
  | _ => none

/-- The prop holds handlers. -/
def isHandler (prop : PropValue) : Bool := prop.callbacks?.isSome

/-- The prop counts as true. -/
def truthy : PropValue → Bool
  | null => false
  | bool b => b
  | number x => !(x == 0) && !x.isNaN
  | text s => !s.isEmpty
  | handler _ => true
  | handlers _ => true

/-- The prop as the value of an attribute. -/
def display : PropValue → String
  | null => "null"
  | bool b => Reactive.Value.boolText b
  | number x => Number.display x
  | text s => s
  | handler _ => "[function]"
  | handlers _ => "[function]"

/-- The prop in a debug text. -/
def debug : PropValue → String
  | null => "Null"
  | bool b => "Bool(" ++ Reactive.Value.boolText b ++ ")"
  | number x => "Number(" ++ Number.plain x ++ ")"
  | text s => "Str(" ++ Text.quoted s ++ ")"
  | handler _ => "Handler(<callback>)"
  | handlers callbacks => "Handlers(<" ++ Nat.repr callbacks.length ++ " callbacks>)"

/-- The prop that a value becomes: what is neither nullish, a boolean nor a number
is displayed. -/
def ofValue : Reactive.Value → PropValue
  | .undefined => null
  | .null => null
  | .bool b => bool b
  | .number x => number x
  | value => text value.display

end PropValue

/-- A text with its ASCII capitals made small. -/
def asciiLower (s : String) : String := String.ofList (s.toList.map Char.toLower)

/-- The event that a key binds: the key begins with `on` and goes on, and the rest
in small ASCII letters is the event. -/
def eventName? (key : String) : Option String :=
  match key.toList with
  | 'o' :: 'n' :: c :: rest => some (asciiLower (String.ofList (c :: rest)))
  | _ => none

/-- The key that binds an event: `on` and the event with its first letter
capital. -/
def eventKey (event : String) : String :=
  match event.toList with
  | [] => "on"
  | c :: rest => String.ofList ('o' :: 'n' :: c.toUpper :: rest)

end View
end ReactiveView
