/-
# Every exit puts things right

Around every program stand the stack of observers and the current scope, its
*surroundings*.  The run of an effect, a stretch of unrecorded reads and a program in a scope
change them for a while; whatever is under way then, passes, disposals and unwindings
included, lies above a frame that puts them right (`Frame.putsBack`).

One step pushes frames, takes one off, or puts others in the place of one that puts nothing
right, and what the frames will put right in the end stays the same (`Machine.Exchanges`).
So an operation, however it is left, by a value or by a failure, leaves the surroundings that
it found (`surroundings_restored`), and between two operations nobody observes and no scope
is current.
-/

import Mathlib.Tactic.IntervalCases
import ReactiveView.Proofs.Effects.Stopping

namespace ReactiveView
namespace Reactive

variable {σ : Type}

/-- What stands around a program: the stack of observers and the current scope. -/
@[ext]
structure Surroundings where
  observers : List (Option EffectId)
  scope : Option ScopeId

/-- The surroundings that a frame leaves, on both ways out. -/
def Frame.putsBack : Frame σ → Surroundings → Surroundings
  | .leave, around => { around with observers := around.observers.tail }
  | .restoreScope outer, around => { around with scope := outer }
  | _, around => around

/-- The surroundings that several frames leave, the innermost first. -/
def putBackAll (frames : List (Frame σ)) (around : Surroundings) : Surroundings :=
  frames.foldl (fun around frame => frame.putsBack around) around

@[simp] theorem putBackAll_nil (around : Surroundings) :
    putBackAll ([] : List (Frame σ)) around = around := rfl

@[simp] theorem putBackAll_cons (frame : Frame σ) (frames : List (Frame σ))
    (around : Surroundings) :
    putBackAll (frame :: frames) around = putBackAll frames (frame.putsBack around) := rfl

/-- Frames put things right from the inside out. -/
theorem putBackAll_append (frames frames' : List (Frame σ)) (around : Surroundings) :
    putBackAll (frames ++ frames') around = putBackAll frames' (putBackAll frames around) :=
  List.foldl_append

/-- Handles of scopes that are to be given back put nothing right. -/
theorem putBackAll_releases (scopes : List ScopeId) (around : Surroundings) :
    putBackAll (scopes.map (Frame.release (σ := σ))) around = around := by
  induction scopes with
  | nil => rfl
  | cons s scopes ih => exact ih

namespace World

variable {w w' : World σ}

/-- The surroundings of a program that runs in the world. -/
def surroundings (w : World σ) : Surroundings := ⟨w.observers, w.currentScope⟩

/-! ## What leaves the surroundings -/

/-- Nothing that the operations do to stores, effects and scopes is done to the surroundings. -/
@[simp] theorem surroundings_track (entry : Entry) :
    (w.track entry).surroundings = w.surroundings := by
  rcases w.track_cases entry with h | ⟨id, -, h⟩ <;> rw [h]
  rfl

@[simp] theorem surroundings_stop (id : EffectId) :
    (w.stop id).surroundings = w.surroundings := by
  unfold stop
  split <;> rfl

@[simp] theorem surroundings_finish (target : Target) (held : Bool) :
    (w.finish target held).surroundings = w.surroundings := by
  obtain ⟨_, _, _, h⟩ := w.finish_eq target held
  rw [h]
  rfl

@[simp] theorem surroundings_perform (op : Op) :
    (w.perform op).2.surroundings = w.surroundings := by
  cases hentry : op.entry? with
  | some entry => rw [perform_of_entry hentry, surroundings_track]
  | none =>
    rw [perform_of_entry_none hentry]
    cases op
    case stop id => exact surroundings_stop id
    case endCell | letGo => exact surroundings_finish _ _
    all_goals rfl

/-- So a write leaves them; the passes that it begins have frames of their own. -/
theorem surroundings_write {write : Write} {entries : List Entry}
    (h : w.write write = some (w', entries)) : w'.surroundings = w.surroundings := by
  rcases write_cases h with ⟨o, table, rfl⟩ | ⟨c, old, value, -, rfl⟩ <;> rfl

@[simp] theorem surroundings_takeOwned (s : ScopeId) :
    (w.takeOwned s).2.2.surroundings = w.surroundings := by
  unfold takeOwned
  split <;> rfl

/-- A scope that loses its last handle is disposed, but it stays current if it was. -/
theorem surroundings_giveBack (w : World σ) (s : ScopeId) :
    (w.giveBack s).2.surroundings = w.surroundings := by
  unfold giveBack
  split <;> rfl

@[simp] theorem surroundings_newEffect (body : Program σ) :
    (w.newEffect body).2.surroundings = w.surroundings := by
  unfold newEffect
  simp only
  split <;> rfl

/-- The beginning of a run pushes the effect. -/
theorem surroundings_beginRun {id : EffectId} {body : Program σ}
    (h : w.beginRun id = some (body, w')) :
    w'.surroundings = ⟨some id :: w.observers, w.currentScope⟩ := by
  obtain ⟨_, -, rfl, rfl⟩ := beginRun_eq_some_iff.1 h
  rfl

end World

/-! ## Steps -/

namespace Machine

variable {m m' : Machine σ}

/-- What a step does to the frames, and what these will put right. -/
inductive Exchanges : Machine σ → Machine σ → Prop
  | pushes {m m' : Machine σ} (on : List (Frame σ)) (frames : m'.frames = on ++ m.frames)
      (same : putBackAll on m'.world.surroundings = m.world.surroundings) : Exchanges m m'
  | pops {m m' : Machine σ} (off : Frame σ) (frames : m.frames = off :: m'.frames)
      (same : m'.world.surroundings = off.putsBack m.world.surroundings) : Exchanges m m'
  /-- A frame that puts nothing right gives way to others. -/
  | replaces {m m' : Machine σ} (off : Frame σ) (on rest : List (Frame σ))
      (idle : ∀ around, off.putsBack around = around) (frames : m.frames = off :: rest)
      (frames' : m'.frames = on ++ rest)
      (same : putBackAll on m'.world.surroundings = m.world.surroundings) : Exchanges m m'

/-- The run of an effect that begins puts the stack right in the end. -/
theorem runEffect_putsBack (w : World σ) (id : EffectId) (frames : List (Frame σ)) :
    ∃ on, (runEffect w id frames).frames = on ++ frames ∧
      putBackAll on (runEffect w id frames).world.surroundings = w.surroundings := by
  unfold runEffect
  cases hbegin : w.beginRun id with
  | none => exact ⟨[], rfl, rfl⟩
  | some begun =>
    refine ⟨[.leave], rfl, ?_⟩
    simp only [putBackAll_cons, putBackAll_nil, World.surroundings_beginRun hbegin]
    rfl

/-- **The first step of a program** pushes what will put right whatever it changes. -/
theorem exec_exchanges (w : World σ) (frames : List (Frame σ)) (program : Program σ) :
    Exchanges ⟨w, .run program, frames⟩ (exec w frames program) := by
  cases program with
  | op op next => exact .pushes [] rfl (World.surroundings_perform op)
  | write write next =>
    simp only [exec]
    split
    · rename_i w' entries hwrite
      exact .pushes [_, _] rfl (World.surroundings_write hwrite)
    · exact .pushes [] rfl rfl
  | trigger entry next => exact .pushes [_, _] rfl rfl
  | effect body next =>
    obtain ⟨on, hframes, hsame⟩ := runEffect_putsBack (w.newEffect body).2 (w.newEffect body).1
      (.bind (fun _ => next (w.newEffect body).1) :: frames)
    refine .pushes (on ++ [.bind fun _ => next (w.newEffect body).1]) ?_ ?_
    · rw [List.append_assoc]
      exact hframes
    · rw [putBackAll_append]
      exact hsame.trans (World.surroundings_newEffect body)
  | rerun id next =>
    obtain ⟨on, hframes, hsame⟩ := runEffect_putsBack w id (.bind (fun _ => next) :: frames)
    refine .pushes (on ++ [.bind fun _ => next]) ?_ ?_
    · rw [List.append_assoc]
      exact hframes
    · rw [putBackAll_append]
      exact hsame
  | untracked body next => exact .pushes [_, _] rfl rfl
  | inScope s body next => exact .pushes [_, _, _] rfl rfl
  | dispose s next => exact .pushes [_, _, _] rfl (World.surroundings_takeOwned s)
  | release s next => exact .pushes [_, _] rfl rfl
  | «catch» body next => exact .pushes [_] rfl rfl
  | call callback argument next =>
    simp only [exec]
    split
    · exact .pushes [_] rfl rfl
    · exact .pushes [] rfl rfl
  | _ => exact .pushes [] rfl rfl

/-- **A value that comes back** takes a frame off, with what this puts right, or exchanges
it. -/
theorem resume_exchanges (w : World σ) (value : Value) (frames : List (Frame σ))
    (frame : Frame σ) :
    Exchanges ⟨w, .value value, frame :: frames⟩ (resume w value frames frame) := by
  cases frame with
  | notify now later =>
    rcases now with _ | ⟨id, now⟩
    · rcases later with _ | ⟨entry, later⟩
      · exact .pops _ rfl rfl
      · exact .replaces _ [_] frames (fun _ => rfl) rfl rfl rfl
    · simp only [resume]
      split
      · exact .replaces _ [_] frames (fun _ => rfl) rfl rfl rfl
      · obtain ⟨on, hframes, hsame⟩ := runEffect_putsBack w id (.notify now later :: frames)
        refine .replaces _ (on ++ [.notify now later]) frames (fun _ => rfl) rfl ?_ ?_
        · rw [List.append_assoc]
          exact hframes
        · rw [putBackAll_append]
          exact hsame
  | disposing scopes cleanups =>
    rcases scopes with _ | ⟨child, scopes⟩
    · rcases cleanups with _ | ⟨id | body, cleanups⟩
      · exact .pops _ rfl rfl
      · exact .replaces _ [_] frames (fun _ => rfl) rfl rfl (World.surroundings_stop id)
      · exact .replaces _ [_] frames (fun _ => rfl) rfl rfl rfl
    · exact .replaces _ [_, _, _] frames (fun _ => rfl) rfl rfl
        (World.surroundings_takeOwned child)
  | release s =>
    have hsame := w.surroundings_giveBack s
    simp only [resume]
    split <;> rename_i w' hback <;> rw [hback] at hsame
    · exact .replaces _ [_, _] frames (fun _ => rfl) rfl rfl
        ((World.surroundings_takeOwned s).trans hsame)
    · exact .pops _ rfl hsame
  | _ => exact .pops _ rfl rfl

/-- **A failure on its way up** does the same as a value: the frames that put things right do it
on both ways out. -/
theorem unwind_exchanges {w : World σ} {message : String} {frames : List (Frame σ)}
    {frame : Frame σ} (h : unwind w message frames frame = some m') :
    Exchanges ⟨w, .throwing message, frame :: frames⟩ m' := by
  cases frame with
  | disposing scopes cleanups =>
    obtain rfl := Option.some.inj h
    refine .replaces _ (scopes.map .release ++ [.rethrow message]) frames (fun _ => rfl) rfl ?_ ?_
    · rw [List.append_assoc]
      rfl
    · rw [putBackAll_append, putBackAll_releases]
      rfl
  | release s =>
    have hsame := w.surroundings_giveBack s
    simp only [unwind] at h
    split at h <;> rename_i w' hback <;> rw [hback] at hsame <;> obtain rfl := Option.some.inj h
    · exact .replaces _ [_, _] frames (fun _ => rfl) rfl rfl
        ((World.surroundings_takeOwned s).trans hsame)
    · exact .pops _ rfl hsame
  | rethrow message => exact absurd h (by simp [unwind])
  | _ =>
    obtain rfl := Option.some.inj h
    exact .pops _ rfl rfl

/-- **What one step does to the frames**, and what these will put right. -/
theorem step_exchanges (h : m.step? = some m') : Exchanges m m' := by
  cases steps_of_step? h with
  | exec w frames program => exact exec_exchanges w frames program
  | resume w value frames frame => exact resume_exchanges w value frames frame
  | unwind w message frames frame unwinds => exact unwind_exchanges unwinds

/-- Every step is one of the three. -/
theorem Next.exchanges (h : Next m m') : Exchanges m m' := by
  cases h with
  | step step => exact step_exchanges step
  | begin | recover => exact .pushes [] rfl rfl

/-! ## Operations -/

/-- Above some frames that a step leaves in place, the others put the same right after the
step as before. -/
theorem Exchanges.keeps {above base : List (Frame σ)} (h : Exchanges m m')
    (hframes : m.frames = above ++ base) (hbase : base <:+ m'.frames) :
    ∃ above', m'.frames = above' ++ base ∧
      putBackAll above' m'.world.surroundings = putBackAll above m.world.surroundings := by
  cases h with
  | pushes on frames same =>
    refine ⟨on ++ above, by rw [frames, hframes, List.append_assoc], ?_⟩
    rw [putBackAll_append, same]
  | pops off frames same =>
    cases above with
    | nil =>
      -- the frame taken off is the first of `base`, which would not be there any more
      have hlength := hbase.length_le
      rw [← List.nil_append base, ← hframes, frames, List.length_cons] at hlength
      omega
    | cons frame above =>
      obtain ⟨rfl, hrest⟩ := List.cons.inj (frames.symm.trans hframes)
      exact ⟨above, hrest, by rw [same]; rfl⟩
  | replaces off on rest idle frames frames' same =>
    cases above with
    | nil =>
      -- what has come in the place of the first frame of `base` ends with that frame again
      obtain rfl : off :: rest = base := frames.symm.trans hframes
      obtain ⟨above', habove⟩ := hbase
      have hon : on = above' ++ [off] := by
        have heq : on ++ rest = (above' ++ [off]) ++ rest := by
          rw [← frames', ← habove, List.append_assoc, List.singleton_append]
        exact List.append_cancel_right heq
      refine ⟨above', habove.symm, ?_⟩
      rw [hon, putBackAll_append] at same
      exact (idle _).symm.trans same
    | cons frame above =>
      obtain ⟨rfl, hrest⟩ := List.cons.inj (frames.symm.trans hframes)
      refine ⟨on ++ above, ?_, ?_⟩
      · rw [frames', hrest]
        exact (List.append_assoc ..).symm
      · rw [putBackAll_append, same, putBackAll_cons, idle]

/-- A step that does not leave some frames in place finds nothing above them. -/
theorem Exchanges.exposed {base : List (Frame σ)} (h : Exchanges m m')
    (hbase : base <:+ m.frames) (hgone : ¬ base <:+ m'.frames) : m.frames = base := by
  obtain ⟨above, habove⟩ := hbase
  cases above with
  | nil => exact habove.symm
  | cons frame above =>
    refine absurd ?_ hgone
    cases h with
    | pushes on frames same =>
      exact ⟨on ++ frame :: above, by rw [frames, ← habove, List.append_assoc]⟩
    | pops off frames same =>
      obtain ⟨-, hrest⟩ := List.cons.inj (frames.symm.trans habove.symm)
      exact ⟨above, hrest.symm⟩
    | replaces off on rest idle frames frames' same =>
      obtain ⟨-, hrest⟩ := List.cons.inj (frames.symm.trans habove.symm)
      refine ⟨on ++ above, ?_⟩
      rw [frames', hrest]
      exact List.append_assoc ..

namespace IsRun

variable {t : Nat → Machine σ} {i j n : Nat}

/-- As long as the frames of a state are in place, those above them put the surroundings of
that state right. -/
theorem putBackAll_eq (hrun : IsRun t n) (hij : i ≤ j) (hj : j ≤ n)
    (hpending : ∀ k, i ≤ k → k ≤ j → (t i).frames <:+ (t k).frames) :
    ∃ above, (t j).frames = above ++ (t i).frames ∧
      putBackAll above (t j).world.surroundings = (t i).world.surroundings := by
  induction j, hij using Nat.le_induction with
  | base => exact ⟨[], rfl, rfl⟩
  | succ j hij ih =>
    obtain ⟨above, habove, hsame⟩ := ih (Nat.le_of_succ_le hj) fun k hik hkj =>
      hpending k hik (Nat.le_succ_of_le hkj)
    obtain ⟨above', habove', hsame'⟩ := (hrun.next j hj).exchanges.keeps habove
      (hpending (j + 1) (Nat.le_succ_of_le hij) (Nat.le_refl _))
    exact ⟨above', habove', hsame'.trans hsame⟩

/-- While the frames of a state are in place and nothing lies above them, the surroundings
are those of that state. -/
theorem surroundings_eq (hrun : IsRun t n) (hij : i ≤ j) (hj : j ≤ n)
    (hpending : ∀ k, i ≤ k → k ≤ j → (t i).frames <:+ (t k).frames)
    (hback : (t j).frames = (t i).frames) :
    (t j).world.surroundings = (t i).world.surroundings := by
  obtain ⟨above, habove, hsame⟩ := hrun.putBackAll_eq hij hj hpending
  have hnil : above = [] := by
    have hlength := congrArg List.length (habove.symm.trans hback)
    rw [List.length_append] at hlength
    exact List.length_eq_zero_iff.1 (by omega)
  rw [hnil] at hsame
  exact hsame

end IsRun
end Machine

open Machine

/-- **The observers and the current scope are restored on every exit.**  Take a run of any
programs and a state of it, and let the frames of that state be in place from then on, so
that what was to be done after the operation of that state is still to be done.  Whenever
nothing lies above these frames, be it that the operation has come to a value, that it goes on
with what follows it, or that a failure leaves it, the stack of observers and the current
scope are what they were in that state.  And there is no way out but through such a moment.
So whenever there is nothing left to do, after values and failures alike, nobody observes and
no scope is current. -/
theorem surroundings_restored {t : Nat → Machine σ} {i j n : Nat} (hrun : IsRun t n)
    (hij : i ≤ j) (hj : j ≤ n)
    (hpending : ∀ k, i ≤ k → k ≤ j → (t i).frames <:+ (t k).frames) :
    ((t j).frames = (t i).frames →
      (t j).world.observers = (t i).world.observers ∧
        (t j).world.currentScope = (t i).world.currentScope) ∧
    (∀ m, Next (t j) m → ¬ (t i).frames <:+ m.frames → (t j).frames = (t i).frames) ∧
    ((t j).frames = [] → (t j).world.observers = [] ∧ (t j).world.currentScope = none) := by
  refine ⟨?back, ?exit, ?rest⟩
  case back =>
    intro hback
    have hsame := hrun.surroundings_eq hij hj hpending hback
    exact ⟨congrArg Surroundings.observers hsame, congrArg Surroundings.scope hsame⟩
  case exit =>
    intro m hnext hgone
    exact hnext.exchanges.exposed (hpending j hij (Nat.le_refl _)) hgone
  case rest =>
    intro hnil
    obtain ⟨host, hstart⟩ := hrun.start
    have hframes : (t 0).frames = [] := by rw [hstart]; rfl
    have hsame := hrun.surroundings_eq (Nat.zero_le j) hj
      (fun k _ _ => by rw [hframes]; exact List.nil_suffix) (hnil.trans hframes.symm)
    rw [hstart] at hsame
    exact ⟨congrArg Surroundings.observers hsame, congrArg Surroundings.scope hsame⟩

/-- In a scope, an effect whose body fails while its reads are not recorded. -/
def failsInScope : Program Unit :=
  .op .newScope fun s =>
    .inScope s (.effect (.untracked (.throw "no") fun _ => .done) fun _ => .done) fun _ => .done

/-- The hypotheses of `surroundings_restored` are met by the run of `failsInScope`.  In state 3
the effect is to be created, in state 5 its body is about to fail, and in state 10 the failure
has left it; in state 13 nothing is left to do. -/
theorem surroundings_restored_failsInScope :
    (Machine.states () failsInScope 5).world.observers = [none, some ⟨0, 0⟩] ∧
      (Machine.states () failsInScope 10).world.observers =
        (Machine.states () failsInScope 3).world.observers ∧
      (Machine.states () failsInScope 10).world.currentScope = some ⟨0⟩ ∧
      (Machine.states () failsInScope 13).world.currentScope = none := by
  have hgoes : ∀ k < 13, 0 < k → (Machine.states () failsInScope k).GoesOn := by decide
  have hrun : IsRun (Machine.states () failsInScope) 13 :=
    Machine.isRun_states hgoes
  have hpending : ∀ k, 3 ≤ k → k ≤ 10 → (Machine.states () failsInScope 3).frames <:+
      (Machine.states () failsInScope k).frames := by
    intro k hk hk'
    interval_cases k
    case «4» => exact ⟨[_, _], rfl⟩
    case «5» => exact ⟨[_, _, _, _], rfl⟩
    case «6» => exact ⟨[_, _, _, _], rfl⟩
    case «7» => exact ⟨[_, _, _], rfl⟩
    case «8» => exact ⟨[_, _], rfl⟩
    case «9» => exact ⟨[_], rfl⟩
    all_goals exact ⟨[], rfl⟩
  obtain ⟨hback, -, -⟩ := surroundings_restored hrun (by decide) (by decide) hpending
  obtain ⟨hobservers, hscope⟩ := hback rfl
  obtain ⟨-, -, hrest⟩ := surroundings_restored hrun (Nat.zero_le 13) (Nat.le_refl _)
    fun k _ _ => List.nil_suffix
  exact ⟨rfl, hobservers, hscope.trans rfl, (hrest rfl).2⟩

end Reactive
end ReactiveView
