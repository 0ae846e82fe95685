/-
# Running scripts

A session is a world that statements change one after the other.  A statement
that fails ends alone: what it did stays, and the next one runs.
-/

import ReactiveView.Script.Meaning

namespace ReactiveView
namespace Script

open Reactive (Value World Program)
open View (PropValue VNode)
open Reactive.Program Prog

/-- The world of a script between two statements. -/
abbrev Session := World Host

/-- What one statement did. -/
structure Report where
  answer : Answer
  /-- The lines that it logged. -/
  log : Array (List Shown)
  /-- The operations on the document that it performed. -/
  ops : Array View.HostOp

namespace Session

/-- An empty session with a clock. -/
def start (clock : View.Clock) : Session :=
  World.start ⟨.empty clock, #[], #[], ⟨.empty, #[], .null, [], []⟩⟩

/-- Changes the locals. -/
def modifyLocals (session : Session) (change : Locals → Locals) : Session :=
  { session with host := session.host.modifyRest change }

/-- Runs a program that leaves its answer in the locals; a failure is the answer
instead. -/
def run (session : Session) (prog : (Answer → Prog) → Prog) : Answer × Session :=
  let program := prog fun answer => changeHost (·.modifyRest fun l => { l with answer }) done
  match program.run session with
  | some (.value _, session) => (session.host.rest.answer, session)
  | some (.thrown message, session) => (.thrown message, session)
  | some (.aborted, session) => (.null, session)
  | none => (.null, session)

/-- Runs a statement; its log and its operations are taken out of the session. -/
def perform (session : Session) (s : Stmt) : Report × Session :=
  let (answer, session) := session.run (s.prog .empty)
  let host := session.host
  (⟨answer, host.rest.log, host.document.ops⟩,
    { session with
      host := (host.modifyDocument (·.clearOps)).modifyRest fun l =>
        { l with log := #[], held := [], paths := [] } })

/-- Runs statements one after the other. -/
def performAll (session : Session) : List Stmt → List Report × Session
  | [] => ([], session)
  | s :: rest =>
    let (report, session) := session.perform s
    let (reports, session) := performAll session rest
    (report :: reports, session)

/-- The value of an expression, undefined if it fails. -/
def eval (session : Session) (e : Expr) : Value × Session :=
  match (e.prog .empty ret).run session with
  | some (.value value, session) => (value, session)
  | some (_, session) => (.undefined, session)
  | none => (.undefined, session)

/-- The values of several expressions. -/
def evalEach (session : Session) : List Expr → List Value × Session
  | [] => ([], session)
  | e :: rest =>
    let (value, session) := session.eval e
    let (values, session) := evalEach session rest
    (value :: values, session)

/-- A property of a value, as answers show it. -/
def shownProperty (session : Session) (value : Value) (key : String) : Answer :=
  (session.run fun next => getProperty value key fun v => shownOf v fun s => next (.shown s)).1

/-- The debug text of a value. -/
def debug (session : Session) (value : Value) : String :=
  value.debug fun o => (session.table o).keys

/-- The prop that a term gives. -/
def evalProp (session : Session) (term : PropTerm) : PropValue × Session :=
  match session.run fun next => term.prog .empty fun prop => next (.prop prop) with
  | (.prop prop, session) => (prop, session)
  | (_, session) => (.null, session)

/-- The props that several terms give. -/
def evalProps (session : Session) : List PropTerm → List PropValue × Session
  | [] => ([], session)
  | term :: rest =>
    let (prop, session) := session.evalProp term
    let (props, session) := evalProps session rest
    (prop :: props, session)

/-- The virtual nodes that terms give. -/
def evalViews (session : Session) (views : List ViewTerm) : List VNode × Session :=
  match session.run fun next => viewsProg .empty views fun vs => next (.views vs) with
  | (.views vs, session) => (vs, session)
  | (_, session) => ([], session)

end Session
end Script
end ReactiveView
