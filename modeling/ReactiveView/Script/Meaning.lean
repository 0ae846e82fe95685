/-
# What scripts mean

The program of every term of the script language.  Bodies of effects, getters,
cleanups and handlers look slots up when they run.  The argument of an update and
the event being handled are visible to the statements nested in place, not to
bodies that run later.
-/

import ReactiveView.Script.Session
import ReactiveView.Script.Term

namespace ReactiveView
namespace Script

open Reactive (Value ObjectId CellId EffectId ScopeId CallbackId Computed Program Entry)
open View (NodeId ContainerId EventId Stage VNode PropValue Props Children)
open Reactive.Program Prog

/-- What the terms around a term make visible to it. -/
structure Env where
  /-- The argument of the update or the index of the repetition. -/
  it : Option Value
  /-- The event being handled. -/
  event : Option EventId

/-- Nothing is visible. -/
def Env.empty : Env := ⟨none, none⟩

/-- The number that a value is; what is not a number counts as zero. -/
def numberOf (value : Value) : Float := value.number?.getD 0

/-- The number of repetitions that a value stands for. -/
def countOf (value : Value) : Nat := (numberOf value).toUInt64.toNat

/-- A function of one value. -/
def Unary.apply : Unary → Value → Value
  | wrap, value => value.wrap
  | wrapRaw, value =>
    match value with
    | .object o => .reactive o
    | _ => .undefined
  | raw, value => value.raw
  | isReactive, value => .bool value.isReactive
  | display, value => .text value.display
  | truthy, value => .bool value.truthy
  | not, value => .bool (!value.truthy)

/-- A function of two values. -/
def Binary.apply : Binary → Value → Value → Value
  | add, a, b => .number (numberOf a + numberOf b)
  | less, a, b => .bool (numberOf a < numberOf b)
  | equal, a, b => .bool (a == b)
  | sameTarget, a, b => .bool (a.target?.isSome && a.target? == b.target?)

/-- What a question about properties answers for an object. -/
def TableQuery.ask : TableQuery → KeyTable Value → Value
  | keys, table => .text (",".intercalate table.keys)
  | contains key, table => .bool (table.contains key)
  | size, table => .number (Float.ofNat table.size)
  | isEmpty, table => .bool table.entries.isEmpty

/-- What a question about properties answers for other values. -/
def TableQuery.absent : TableQuery → Value
  | keys => .undefined
  | contains _ => .bool false
  | size => .undefined
  | isEmpty => .bool false

/-- The key that a name stands for; none stands for the key set. -/
def keyOf : Option String → Reactive.Key
  | some name => .property name
  | none => .iterate

/-- What a node of the document answers to a question. -/
def NodeQuery.ask (d : View.Document) (n : NodeId) : NodeQuery → Answer
  | html => .text (d.tree n).html
  | text => .text (d.tree n).textContent
  | debug => .text ("DomNode(" ++ (d.tree n).html ++ ")")
  | inspect =>
    let e := d.element? n
    .inspection
      { tag := e.map View.Element.tag
        isText := match (d.node n).data with | .text _ => true | _ => false
        isComment := match (d.node n).data with | .comment _ => true | _ => false
        className := (e.map View.Element.className).getD ""
        text := (d.tree n).textContent
        children := (d.children n).map fun child => (d.tree child).html
        hasParent := (d.parent n).isSome }
  | attr name => ((d.element? n).bind (·.attributes.get? name)).elim .null .text
  | property name => ((d.element? n).bind (·.properties.get? name)).elim .null .property
  | listens event => .bool !(d.listenersFor n event).isEmpty

/-- Makes a node with some content. -/
def NodeForm.create : NodeForm → String → View.Document → NodeId × View.Document
  | element, tag, d => d.createElement tag
  | text, content, d => d.createText content
  | comment, content, d => d.createComment content

/-- Changes the content of a node. -/
def NodeForm.setContent (n : NodeId) (content : String) : NodeForm → View.Document → View.Document
  | element, d => d.setElementText n content
  | text, d => d.setText n content
  | comment, d => d.setComment n content

namespace Prog

/-- The entry of a cell in a slot. -/
def cellEntry (name : String) (key : Option String) (next : Option Entry → Prog) : Prog :=
  lookup name fun
    | some (.cell c) => next (some ⟨.cell c, keyOf key⟩)
    | _ => next none

/-- The debug text of what a slot holds. -/
def debugSlot (name : String) (next : Answer → Prog) : Prog :=
  let effect := "Effect \x7b id: EffectId(_) \x7d"
  lookup name fun
    | some (.value value) => debugValue value fun s => next (.text s)
    | some (.cell c) => op (.peek c) fun value => debugValue value.raw fun s =>
      next (.text ("Ref \x7b id: TargetId(_), value: " ++ s ++ " \x7d"))
    | some (.property o key) => debugValue (.reactive o) fun s =>
      next (.text ("PropertyRef \x7b source: " ++ s ++ ", key: " ++ Text.quoted key ++ " \x7d"))
    | some (.computed c) => op (.peek c.cell) fun value => debugValue value fun s =>
      next (.text ("Computed \x7b value: " ++ s ++ ", effect: " ++ effect ++ " \x7d"))
    | some (.effect _) => next (.text effect)
    | _ => next .null

/-- Does something about a node that must be there. -/
def needNode (name : String) (next : Answer → Prog) (use : NodeId → Prog) : Prog :=
  nodeOf name fun
    | some n => use n
    | none => next (.missing name)

/-- The node below another one by the positions of children. -/
def descend (d : View.Document) : List Nat → NodeId → Option NodeId
  | [], n => some n
  | i :: rest, n => ((d.children n)[i]?).bind (descend d rest)

/-- Delivers an event with a time stamp. -/
def deliver (n : NodeId) (kind : String) (time : Int) (next : Answer → Prog) : Prog :=
  View.withEvent kind time fun e => alongPath n (View.dispatch e n) fun ran =>
    readHost fun s => next (.dispatched ran (s.event e).stopped)

end Prog

mutual

/-- The program of an expression. -/
def Expr.prog (env : Env) : Expr → (Value → Prog) → Prog
  | .const value, next => next value
  | .object fields, next => fieldsProg env fields fun fields =>
    op (.newObject (.ofList fields)) fun o => next (.object o)
  | .var name, next => valueOf name next
  | .unary f e, next => e.prog env fun a => next (f.apply a)
  | .binary f a b, next => a.prog env fun a => holding a (b.prog env) fun b => next (f.apply a b)
  | .get e key, next => e.prog env fun value => getProperty value key next
  | .has e key, next => e.prog env fun
    | .reactive o => op (.has o key) fun b => next (.bool b)
    | _ => next (.bool false)
  | .keys e, next => e.prog env fun
    | .reactive o => op (.keys o) fun ks => next (.text (",".intercalate ks))
    | _ => next .undefined
  | .table q e, next => e.prog env fun value =>
    match value.target? with
    | some o => op (.peekTable o) fun table => next (q.ask table)
    | none => next q.absent
  | .read name, next => readSlot name next
  | .peek name, next => peekSlot name next
  | .keyOf name, next => lookup name fun
    | some (.property _ key) => next (.text key)
    | _ => next .undefined
  | .concat parts, next => exprsProg env parts fun values =>
    next (.text (String.join (values.map Value.display)))
  | .cond test yes no, next => test.prog env fun value =>
    if value.truthy then yes.prog env next else no.prog env next
  | .untracked e, next => Program.untracked (e.prog env ret) next
  | .after body e, next => stmtsProg env body fun _ => e.prog env next
  | .it, next => next (env.it.getD .undefined)
  | .event, next =>
    match env.event with
    | some e => readHost fun s => next (.text (s.event e).kind)
    | none => next .undefined
  | .eventStopped, next =>
    match env.event with
    | some e => readHost fun s => next (.bool (s.event e).stopped)
    | none => next (.bool false)
  | .eventTime, next =>
    match env.event with
    | some e => readHost fun s => next (.number (Number.ofInt (s.event e).time))
    | none => next .undefined

/-- The program of several expressions. -/
def exprsProg (env : Env) : List Expr → (List Value → Prog) → Prog
  | [], next => next []
  | e :: rest, next =>
    e.prog env fun v => holding v (exprsProg env rest) fun vs => next (v :: vs)

/-- The program of the properties of a new object. -/
def fieldsProg (env : Env) : List (String × Expr) → (List (String × Value) → Prog) → Prog
  | [], next => next []
  | (key, e) :: rest, next =>
    e.prog env fun v => holding v (fieldsProg env rest) fun vs => next ((key, v) :: vs)

/-- The entry that a place and a key name, if there is such a place.  Of an object only the
identity is kept. -/
def Place.prog (env : Env) (key : Option String) : Place → (Option Entry → Prog) → Prog
  | .cell name, next => cellEntry name key next
  | .object e, next => e.prog env fun value =>
    match value.target? with
    | some o => letGo o (next (some ⟨.object o, Script.keyOf key⟩))
    | none => next none

/-- The program of a prop. -/
def PropTerm.prog (env : Env) : PropTerm → (PropValue → Prog) → Prog
  | .const prop, next => next prop
  | .handler name, next => handlersOf [name] fun cs =>
    next (cs.head?.elim .null PropValue.handler)
  | .handlers names, next => handlersOf names fun cs => next (.handlers cs)
  | .body body, next =>
    callback (fun e => stmtsProg ⟨none, some ⟨e⟩⟩ body fun _ => done) fun c => next (.handler c)
  | .value e, next => e.prog env fun value => next (.ofValue value)

/-- The program of the props of a virtual node, from those it has. -/
def propsProg (env : Env) (props : Props) :
    List (String × PropTerm) → (Props → Prog) → Prog
  | [], next => next props
  | (key, term) :: rest, next =>
    term.prog env fun prop => propsProg env (props.insert key prop) rest next

/-- The program of children, from those a node has. -/
def Content.prog (env : Env) (children : Children) : Content → (Children → Prog) → Prog
  | .keep, next => next children
  | .none, next => next .none
  | .text e, next => e.prog env fun value => next (.text value.display)
  | .nodes views, next => viewsProg env views fun vs => next (.nodes vs)

/-- The program of virtual nodes. -/
def ViewTerm.prog (env : Env) : ViewTerm → (List VNode → Prog) → Prog
  | .node kind initial given props final, next =>
    initial.prog env .none fun children =>
      propsProg env .empty props fun table =>
        final.prog env children fun children =>
          next [.new kind (if given || !props.isEmpty then some table else none) children]
  | .cond test yes no, next => test.prog env fun value =>
    if value.truthy then viewsProg env yes next else viewsProg env no next
  | .nest count tag view, next => view.prog env fun vs => next (vs.map fun v => v.nest tag count)
  | .times count view, next => count.prog env fun value =>
    collect (fun i next => view.prog { env with it := some (.number (Float.ofNat i)) } next)
      (countOf value) next

/-- The program of several terms for virtual nodes. -/
def viewsProg (env : Env) : List ViewTerm → (List VNode → Prog) → Prog
  | [], next => next []
  | view :: rest, next =>
    view.prog env fun vs => viewsProg env rest fun more => next (vs ++ more)

/-- The program of statements; it answers the list of their answers. -/
def stmtsProg (env : Env) : List Stmt → (List Answer → Prog) → Prog
  | [], next => next []
  | s :: rest, next => s.prog env fun a => stmtsProg env rest fun as => next (a :: as)

/-- The program of a statement. -/
def Stmt.prog (env : Env) : Stmt → (Answer → Prog) → Prog
  | .expr e, next => e.prog env fun value => shownOf value fun s => next (.shown s)
  | .bind name e, next => e.prog env fun value => bindSlot name (.value value) (next .null)
  | .log values, next => exprsProg env values fun values =>
    showEach values fun line => logLine line (next .null)
  | .set target key value, next => target.prog env fun target =>
    holding target (fun done => value.prog env fun value => setProperty target key value done)
      fun b => next (.bool b)
  | .delete target key, next => target.prog env fun
    | .reactive o => holding (.reactive o) (write (.delete o key)) fun b => next (.bool b)
    | _ => next (.bool false)
  | .insert target key value, next => target.prog env fun target =>
    holding target (value.prog env) fun value =>
    match target.target? with
    | some o => op (.insert o key value) fun
      | some old => shownOf old fun s => next (.shown s)
      | none => next .nothing
    | none => next .nothing
  | .remove target key, next => target.prog env fun target =>
    match target.target? with
    | some o => op (.remove o key) fun
      | some old => shownOf old fun s => next (.shown s)
      | none => next .nothing
    | none => next .nothing
  | .newCell name value, next => value.prog env fun value =>
    op (.newCell value) fun c => bindSlot name (.cell c) (next .null)
  | .store name value quiet, next => value.prog env fun value =>
    storeSlot name value fun
      | some b => next (if quiet then .null else .bool b)
      | none => next .null
  | .update name value, next => lookup name fun
    | some (.cell c) => op (.peek c) fun current =>
      holding current (value.prog { env with it := some current }) fun value =>
        write (.store c value) fun b => next (.bool b)
    | _ => next .null
  | .computed name getter, next =>
    Program.computed (getter.prog .empty ret) fun c => bindSlot name (.computed c) (next .null)
  | .toRef name target key, next => target.prog env fun
    | .reactive o => bindSlot name (.property o key) (next .null)
    | _ => next .null
  | .toRefs start target, next => target.prog env fun
    | .reactive o => op (.peekTable o) fun table =>
      bindRefs start o table.keys (next (.list (table.keys.map .text)))
    | _ => next .null
  | .effect name body, next =>
    Program.effect (stmtsProg .empty body fun _ => done) fun id =>
      match name with
      | some name => bindSlot name (.effect id) (next .null)
      | none => next .null
  | .effectOf name computed, next => lookup computed fun
    | some (.computed c) => bindSlot name (.effect c.effect) (next .null)
    | _ => next .null
  | .stop name, next => effectOf name fun
    | some id => op (.stop id) fun _ => next .null
    | none => next .null
  | .rerun name, next => effectOf name fun
    | some id => Program.rerun id (next .null)
    | none => next .null
  | .isActive name, next => effectOf name fun
    | some id => op (.isActive id) fun b => next (.bool b)
    | none => next .null
  | .dependencyCount name, next => effectOf name fun
    | some id => op (.dependencyCount id) fun n => next (.number n)
    | none => next .null
  | .sameEffect a b, next => effectOf a fun a => effectOf b fun b =>
    match a, b with
    | some a, some b => next (.bool (a == b))
    | _, _ => next .null
  | .observers place key, next => place.prog env key fun
    | some entry => op (.observerCount entry) fun n => next (.number n)
    | none => next .null
  | .trigger place key, next => place.prog env key fun
    | some entry => Program.trigger entry (next .null)
    | none => next .null
  | .track place key, next => place.prog env key fun
    | some entry => op (.track entry) fun _ => next .null
    | none => next .null
  | .describeKey key, next => next (.text (Script.keyOf key).describe)
  | .scope name, next => op .newScope fun s => bindSlot name (.scope s) (next .null)
  | .child name parent, next => scopeOf parent fun
    | some parent => op (.newChild parent) fun s => bindSlot name (.scope s) (next .null)
    | none => next .null
  | .inScope name body, next => scopeOf name fun
    | some s => Program.inScope s (stmtsProg env body fun _ => done) fun _ => next .null
    | none => next .null
  | .onDispose name body, next => scopeOf name fun
    | some s => Program.onDispose s (stmtsProg .empty body fun _ => done) (next .null)
    | none => next .null
  | .dispose name, next => scopeOf name fun
    | some s => Program.dispose s (next .null)
    | none => next .null
  | .currentScope name, next => op .currentScope fun
    | some s => op (.hold s) fun _ => bindSlot name (.scope s) (next (.bool true))
    | none => next (.bool false)
  | .drop name, next => dropSlot name fun b => next (.bool b)
  | .when test yes no, next => test.prog env fun value =>
    if value.truthy then stmtsProg env yes fun _ => next .null
    else stmtsProg env no fun _ => next .null
  | .untracked body, next =>
    Program.untracked (stmtsProg env body fun _ => done) fun _ => next .null
  | .seq body, next => stmtsProg env body fun answers => next (.list answers)
  | .throw message, _ => Program.throw message
  | .catch body, next => readHost fun s =>
    Program.catch (stmtsProg env body fun _ => done) fun
      | some message =>
        changeHost
          (·.modifyRest fun l => { l with held := s.rest.held, paths := s.rest.paths })
          (next (.thrown message))
      | none => next (.text "ok")
  | .debugOf name, next => debugSlot name next
  | .container name tag, next => nodeOf tag fun bound => readHost fun s =>
    let made := s.document.mountPoint tag
    let node := bound.getD made.1
    let document := if bound.isSome then s.document else made.2
    changeHost (fun s => { s with document, containers := s.containers.push ⟨node, none⟩ })
      (bindSlot name (.container ⟨s.containers.size⟩) (next .null))
  | .render container view, next => containerOf container fun
    | some c => viewsProg env view fun vs => sweepHolding (some (.container c)) <| readHost fun s =>
      changeHost (fun s => (s.render c vs.head?).2)
        (match (s.render c vs.head?).1 with
          | .ok () => next (.text "ok")
          | .error error => next (.refused error))
    | none => next .null
  | .hasTree container, next => containerOf container fun
    | some _ => treeOf container fun tree => next (.bool tree.isSome)
    | none => next .null
  | .treeDebug container, next => treeOf container fun tree =>
    next (tree.elim .null fun v => .text v.debug)
  | .mountedNode name container, next => treeOf container fun tree =>
    match tree.bind VNode.el with
    | some n => bindSlot name (.node n) (next (.bool true))
    | none => next (.bool false)
  | .unmount view, next => view.prog env fun
    | v :: _ => work v.unmount next
    | [] => next .null
  | .unmountClone container, next => treeOf container fun
    | some v => work v.clone.unmount next
    | none => next .null
  | .unmountMounted container, next => treeOf container fun
    | some v => work v.unmount next
    | none => next .null
  | .descend name node path, next => nodeOf node fun n => readHost fun s =>
    match n.bind (descend s.document path) with
    | some n => bindSlot name (.node n) (next (.bool true))
    | none => next (.bool false)
  | .parent node name, next => needNode node next fun n => sweep <| readHost fun s =>
    match s.document.parent n with
    | some p => bindSlot name (.node p) (next (.bool true))
    | none => next (.bool false)
  | .sameNode a b, next => needNode a next fun a => nodeOf b fun b =>
    next (.bool (some a == b))
  | .query q node, next => needNode node next fun n => sweep <| readHost fun s =>
    next (q.ask s.document n)
  | .create form name content, next => bindNew name (form.create content) (next .null)
  | .setContent form node content, next => needNode node next fun n =>
    changeDocument (form.setContent n content) (next .null)
  | .insertNode node parent anchor, next => needNode node next fun n => nodeOf parent fun
    | some p => match anchor with
      | some anchor => nodeOf anchor fun anchor =>
        changeDocument (·.insert n p anchor) (next .null)
      | none => changeDocument (·.insert n p none) (next .null)
    | none => next .null
  | .removeNode parent node, next => needNode parent next fun p => nodeOf node fun
    | some n => changeDocument (·.remove p n) (next .null)
    | none => next .null
  | .patchProp node key prop, next => needNode node next fun n =>
    match prop with
    | [] => changeDocument (·.patchProp n key none) (next .null)
    | term :: _ => term.prog env fun prop =>
      changeDocument (·.patchProp n key (some prop)) (next .null)
  | .countOps label, next => readHost fun s =>
    next (.number (s.document.ops.toList.countP fun op => op.label == label))
  | .clearOps, next => changeDocument (·.clearOps) (next .null)
  | .handler name body, next =>
    callback (fun e => stmtsProg ⟨none, some ⟨e⟩⟩ body fun _ => done) fun c =>
      bindSlot name (.handler c) (next .null)
  | .click node, next => needNode node next fun n =>
    alongPath n (View.click n) fun ran => next (.number ran)
  | .dispatch node kind time, next => needNode node next fun n =>
    match time with
    | some time => deliver n kind time next
    | none => View.readClock fun now => deliver n kind now next
  | .stopPropagation, next =>
    match env.event with
    | some e => changeHost (·.stopEvent e) (next .null)
    | none => next .null
  | .advance ms, next => changeDocument (·.advance ms) (next .null)
  | .now, next => View.readClock fun now => next (.number now)

end

end Script
end ReactiveView
