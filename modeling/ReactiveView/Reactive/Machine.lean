/-
# Running programs

The machine runs a program one small step at a time.  What is still to be done
around the current program is a list of frames, innermost first; a failure
unwinds them, and every frame that a program left something in (the stack of
observers, the current scope, handles of scopes) puts it right on both ways out.

A trigger runs the observers of an entry in ascending order, from the list as it
was when the pass began; an observer that was stopped in between, or whose body
is running, is passed over.  Disposing a scope first takes out what it owns, then
disposes its child scopes in order, giving back each handle, then runs the
cleanups in order.  A failure abandons passes and disposals; the handles of child
scopes that an abandoned disposal had taken out are still given back.

A step runs the program, or hands the innermost frame a value or a failure
(`Machine.Steps`).
-/

import ReactiveView.Reactive.World

namespace ReactiveView
namespace Reactive

/-- What is left to do around a running program. -/
inductive Frame (σ : Type) where
  /-- Goes on with the value. -/
  | bind (next : Value → Program σ)
  /-- Takes the top off the stack of observers. -/
  | leave
  /-- Makes the scope current again that was so before. -/
  | restoreScope (outer : Option ScopeId)
  /-- Stops a failure. -/
  | catch (next : Option String → Program σ)
  /-- Runs the observers `now` of the current pass, then passes over the entries
  `later`. -/
  | notify (now : List EffectId) (later : List Entry)
  /-- Disposes child scopes, then runs cleanups. -/
  | disposing (scopes : List ScopeId) (cleanups : List (Cleanup σ))
  /-- Gives a handle of a scope back. -/
  | release (s : ScopeId)
  /-- Goes on with a failure that was set aside. -/
  | rethrow (message : String)

/-- What the machine has before it. -/
inductive Focus (σ : Type) where
  /-- A program to run. -/
  | run (program : Program σ)
  /-- A value for the innermost frame. -/
  | value (value : Value)
  /-- A failure that unwinds. -/
  | throwing (message : String)

/-- A state of the machine. -/
structure Machine (σ : Type) where
  world : World σ
  focus : Focus σ
  frames : List (Frame σ)

namespace Machine

variable {σ : Type}

/-- Begins a run of an effect under some frames; a stopped effect does nothing. -/
def runEffect (w : World σ) (id : EffectId) (frames : List (Frame σ)) : Machine σ :=
  match w.beginRun id with
  | some (body, w) => ⟨w, .run body, .leave :: frames⟩
  | none => ⟨w, .value .undefined, frames⟩

/-- Begins the disposal of what a scope owns. -/
def disposeOwned (w : World σ) (s : ScopeId) (frames : List (Frame σ)) : Machine σ :=
  let taken := w.takeOwned s
  ⟨taken.2.2, .value .undefined, .disposing taken.1 taken.2.1 :: frames⟩

/-- One step of a program. -/
def exec (w : World σ) (frames : List (Frame σ)) : Program σ → Machine σ
  | .ret value => ⟨w, .value value, frames⟩
  | .throw message => ⟨w, .throwing message, frames⟩
  | .op op next =>
    let done := w.perform op
    ⟨done.2, .run (next done.1), frames⟩
  | .readHost next => ⟨w, .run (next w.host), frames⟩
  | .changeHost change next => ⟨{ w with host := change w.host }, .run next, frames⟩
  | .write write next =>
    match w.write write with
    | some (w, entries) =>
      ⟨w, .value .undefined, .notify [] entries :: .bind (fun _ => next true) :: frames⟩
    | none => ⟨w, .run (next false), frames⟩
  | .trigger entry next =>
    ⟨w, .value .undefined, .notify [] [entry] :: .bind (fun _ => next) :: frames⟩
  | .effect body next =>
    let made := w.newEffect body
    runEffect made.2 made.1 (.bind (fun _ => next made.1) :: frames)
  | .rerun id next => runEffect w id (.bind (fun _ => next) :: frames)
  | .untracked body next =>
    ⟨{ w with observers := none :: w.observers }, .run body, .leave :: .bind next :: frames⟩
  | .inScope s body next =>
    ⟨{ w.hold s with currentScope := some s }, .run body,
      .restoreScope w.currentScope :: .release s :: .bind next :: frames⟩
  | .onDispose s cleanup next => ⟨w.own s (.cleanup (.program cleanup)), .run next, frames⟩
  | .dispose s next => disposeOwned (w.hold s) s (.release s :: .bind (fun _ => next) :: frames)
  | .release s next => ⟨w, .value .undefined, .release s :: .bind (fun _ => next) :: frames⟩
  | .catch body next => ⟨w, .run body, .catch next :: frames⟩
  | .callback body next =>
    ⟨{ w with callbacks := w.callbacks.push body }, .run (next ⟨w.callbacks.size⟩), frames⟩
  | .call callback argument next =>
    match w.callbacks[callback.index]? with
    | some body => ⟨w, .run (body argument), .bind (fun _ => next) :: frames⟩
    | none => ⟨w, .run next, frames⟩

/-- One step of a frame that receives a value. -/
def resume (w : World σ) (value : Value) (frames : List (Frame σ)) : Frame σ → Machine σ
  | .bind next => ⟨w, .run (next value), frames⟩
  | .leave => ⟨{ w with observers := w.observers.tail }, .value value, frames⟩
  | .restoreScope outer => ⟨{ w with currentScope := outer }, .value value, frames⟩
  | .catch next => ⟨w, .run (next none), frames⟩
  | .notify [] [] => ⟨w, .value value, frames⟩
  | .notify [] (entry :: later) =>
    ⟨w, .value value, .notify (w.registry.observers entry) later :: frames⟩
  | .notify (id :: now) later =>
    if w.isRunning id then ⟨w, .value value, .notify now later :: frames⟩
    else runEffect w id (.notify now later :: frames)
  | .disposing (child :: scopes) cleanups =>
    disposeOwned w child (.release child :: .disposing scopes cleanups :: frames)
  | .disposing [] (.stop id :: cleanups) =>
    ⟨w.stop id, .value value, .disposing [] cleanups :: frames⟩
  | .disposing [] (.program body :: cleanups) => ⟨w, .run body, .disposing [] cleanups :: frames⟩
  | .disposing [] [] => ⟨w, .value value, frames⟩
  | .release s =>
    match w.giveBack s with
    | (true, w) => disposeOwned w s (.bind (fun _ => .ret value) :: frames)
    | (false, w) => ⟨w, .value value, frames⟩
  | .rethrow message => ⟨w, .throwing message, frames⟩

/-- One step of a frame that a failure reaches; nothing for a second failure
during unwinding, which ends everything. -/
def unwind (w : World σ) (message : String) (frames : List (Frame σ)) :
    Frame σ → Option (Machine σ)
  | .bind _ => some ⟨w, .throwing message, frames⟩
  | .leave => some ⟨{ w with observers := w.observers.tail }, .throwing message, frames⟩
  | .restoreScope outer => some ⟨{ w with currentScope := outer }, .throwing message, frames⟩
  | .catch next => some ⟨w, .run (next (some message)), frames⟩
  | .notify _ _ => some ⟨w, .throwing message, frames⟩
  | .disposing scopes _ =>
    some ⟨w, .value .undefined, scopes.map .release ++ .rethrow message :: frames⟩
  | .release s =>
    match w.giveBack s with
    | (true, w) => some (disposeOwned w s (.rethrow message :: frames))
    | (false, w) => some ⟨w, .throwing message, frames⟩
  | .rethrow _ => none

/-- One step; nothing at the end. -/
def step? (m : Machine σ) : Option (Machine σ) :=
  match m.focus, m.frames with
  | .run program, frames => some (exec m.world frames program)
  | .value _, [] => none
  | .value value, frame :: frames => some (resume m.world value frames frame)
  | .throwing _, [] => none
  | .throwing message, frame :: frames => unwind m.world message frames frame

/-- The three kinds of step. -/
inductive Steps : Machine σ → Machine σ → Prop where
  | exec (w : World σ) (frames : List (Frame σ)) (program : Program σ) :
      Steps ⟨w, .run program, frames⟩ (exec w frames program)
  | resume (w : World σ) (value : Value) (frames : List (Frame σ)) (frame : Frame σ) :
      Steps ⟨w, .value value, frame :: frames⟩ (resume w value frames frame)
  | unwind (w : World σ) (message : String) (frames : List (Frame σ)) (frame : Frame σ)
      {m' : Machine σ} (unwinds : unwind w message frames frame = some m') :
      Steps ⟨w, .throwing message, frame :: frames⟩ m'

/-- **A step runs the program, or hands the innermost frame a value or a failure.** -/
theorem steps_of_step? {m m' : Machine σ} (h : m.step? = some m') : Steps m m' := by
  obtain ⟨w, focus, frames⟩ := m
  cases focus with
  | run program =>
    obtain rfl := Option.some.inj h
    exact .exec w frames program
  | value value =>
    cases frames with
    | nil => exact absurd h (by simp [step?])
    | cons frame frames =>
      obtain rfl := Option.some.inj h
      exact .resume w value frames frame
  | throwing message =>
    cases frames with
    | nil => exact absurd h (by simp [step?])
    | cons frame frames => exact .unwind w message frames frame h

/-- At most `count` steps; nothing if they do not suffice. -/
def run : (count : Nat) → Machine σ → Option (Machine σ)
  | 0, _ => none
  | count + 1, m =>
    match m.step? with
    | some m => run count m
    | none => some m

/-- How a program ended. -/
inductive Outcome where
  | value (value : Value)
  | thrown (message : String)
  /-- A failure during unwinding. -/
  | aborted

/-- How the machine ended. -/
def outcome (m : Machine σ) : Outcome :=
  match m.focus, m.frames with
  | .value value, _ => .value value
  | .throwing message, [] => .thrown message
  | .throwing _, _ => .aborted
  | .run _, _ => .aborted

end Machine

/-- How many steps a top-level operation may take. -/
def stepLimit : Nat := Nat.pow 2 60

/-- Runs a program from a world: how it ends, and the world at the end; nothing if
it does not end within the limit. -/
def Program.run {σ : Type} (program : Program σ) (w : World σ) :
    Option (Machine.Outcome × World σ) :=
  (Machine.run stepLimit ⟨w, .run program, []⟩).map fun m => (m.outcome, m.world)

end Reactive
end ReactiveView
