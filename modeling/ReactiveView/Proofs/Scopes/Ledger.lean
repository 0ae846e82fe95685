/-
# The books of scopes

What scopes own, and what the disposals under way have taken out, is the *estate* of a state
of the machine (`Machine.estate`).  While no failure is under way, every step changes it by
one event, which can be read off the state (`Machine.event`, `Machine.Next.estate`).

A cleanup may be registered many times, so of two equal cleanups one cannot say which has run.
The *ledger* of a run has numbers in the place of cleanups: the number of the step that
registered it (`ledger`, `done`).  It is kept by the events alone; that the machine does what
the ledger says is `ledger_faithful`.
-/

import ReactiveView.Proofs.Effects.Stopping
import ReactiveView.Proofs.Scopes.Estate

namespace ReactiveView
namespace Reactive

variable {σ : Type}

namespace World

variable {w w' : World σ} {s : ScopeId}

/-! ## What scopes own -/

/-- What a scope owns, in the order in which it was added. -/
def owned (w : World σ) (s : ScopeId) : List (Owned σ) :=
  (w.scopes[s.index]?.map Scope.owned).getD []

/-- The estate of scopes, beside disposals under way. -/
def estate (w : World σ) (disposals : List (List ScopeId × List (Cleanup σ))) :
    Estate (Cleanup σ) where
  children s := (w.owned s).filterMap Owned.scope?
  cleanups s := (w.owned s).filterMap Owned.cleanup?
  disposals := disposals

/-- What is owned is read off the scopes. -/
theorem owned_congr (h : w'.scopes = w.scopes) : w'.owned = w.owned := by
  funext s
  rw [owned, owned, h]

/-- What a change of a scope does to what scopes own. -/
theorem owned_modifyScope (w : World σ) (s : ScopeId) (change : Scope σ → Scope σ)
    {list : List (Owned σ)}
    (hchange : ∀ scope, w.scopes[s.index]? = some scope → (change scope).owned = list)
    (hnone : w.scopes[s.index]? = none → list = []) :
    (w.modifyScope s change).owned = Function.update w.owned s list := by
  funext s'
  by_cases hs : s' = s
  · subst hs
    rw [Function.update_self]
    simp only [owned, modifyScope, Array.getElem?_modify, if_pos]
    cases hscope : w.scopes[s'.index]? with
    | none => exact (hnone hscope).symm
    | some scope => exact hchange scope hscope
  · rw [Function.update_of_ne hs]
    have hindex : s.index ≠ s'.index := fun h => hs (by cases s; cases s'; exact congrArg _ h.symm)
    simp only [owned, modifyScope, Array.getElem?_modify, if_neg hindex]

/-- A change of handles leaves what scopes own as it is. -/
theorem owned_modifyScope_same (w : World σ) (s : ScopeId) {change : Scope σ → Scope σ}
    (hchange : ∀ scope, (change scope).owned = scope.owned) :
    (w.modifyScope s change).owned = w.owned := by
  have hupdate : (w.modifyScope s change).owned = Function.update w.owned s (w.owned s) := by
    refine w.owned_modifyScope s change ?_ ?_
    · intro scope hscope
      rw [hchange, owned, hscope]
      rfl
    · intro hnone
      rw [owned, hnone]
      rfl
  rw [hupdate, Function.update_eq_self]

/-- One more handle of a scope is no change of what it owns. -/
theorem owned_hold (w : World σ) (s : ScopeId) : (w.hold s).owned = w.owned :=
  w.owned_modifyScope_same s fun scope => by split <;> rfl

/-- Neither is one less; what happens to the last one is said apart. -/
theorem owned_giveBack (w : World σ) (s : ScopeId) : (w.giveBack s).2.owned = w.owned := by
  unfold giveBack
  split
  · exact w.owned_modifyScope_same s fun _ => rfl
  · rfl

/-- What is added stands at the end. -/
theorem owned_own (h : s.index < w.scopes.size) (item : Owned σ) :
    (w.own s item).owned = Function.update w.owned s (w.owned s ++ [item]) := by
  refine w.owned_modifyScope s _ ?_ ?_
  · intro scope hscope
    rw [owned, hscope]
    rfl
  · intro hnone
    rw [Array.getElem?_eq_none_iff] at hnone
    omega

/-- Making a scope gives nothing to any scope. -/
theorem owned_newScope (w : World σ) (handles : Nat) : (w.newScope handles).2.owned = w.owned := by
  funext s
  simp only [owned, newScope, Array.getElem?_push]
  split
  · rename_i h
    rw [h, Array.getElem?_eq_none (Nat.le_refl _)]
    rfl
  · rfl

/-- **Taking what a scope owns**: its children and its cleanups come out in the order in which
they were added, each kind by itself, and the scope is left with nothing. -/
theorem takeOwned_eq (w : World σ) (s : ScopeId) :
    (w.takeOwned s).1 = (w.owned s).filterMap Owned.scope? ∧
      (w.takeOwned s).2.1 = (w.owned s).filterMap Owned.cleanup? ∧
      (w.takeOwned s).2.2.owned = Function.update w.owned s [] := by
  unfold takeOwned
  split
  · rename_i scope hscope
    refine ⟨by rw [owned, hscope]; rfl, by rw [owned, hscope]; rfl, ?_⟩
    exact w.owned_modifyScope s _ (fun _ _ => rfl) (fun _ => rfl)
  · rename_i hnone
    have hempty : w.owned s = [] := by
      rw [owned, hnone]
      rfl
    refine ⟨by rw [hempty]; rfl, by rw [hempty]; rfl, ?_⟩
    rw [← hempty, Function.update_eq_self]

/-- Reads, stops, writes and beginnings of runs do not concern scopes. -/
theorem scopes_track (w : World σ) (entry : Entry) : (w.track entry).scopes = w.scopes := by
  rcases w.track_cases entry with h | ⟨id, -, h⟩ <;> rw [h]

theorem scopes_stop (w : World σ) (id : EffectId) : (w.stop id).scopes = w.scopes := by
  unfold stop
  split <;> rfl

theorem scopes_write {write : Write} {entries : List Entry}
    (h : w.write write = some (w', entries)) : w'.scopes = w.scopes := by
  rcases write_cases h with ⟨o, table, rfl⟩ | ⟨c, old, value, -, rfl⟩ <;> rfl

theorem scopes_beginRun {id : EffectId} {body : Program σ}
    (h : w.beginRun id = some (body, w')) : w'.scopes = w.scopes := by
  obtain ⟨_, -, rfl, rfl⟩ := beginRun_eq_some_iff.1 h
  rfl

/-- A scope that is alive is there. -/
theorem lt_size_of_liveScope (h : w.liveScope = some s) : s.index < w.scopes.size := by
  have halive : w.isAlive s = true := (Option.filter_eq_some_iff.1 h).2
  unfold isAlive at halive
  split at halive
  · rename_i scope hscope
    exact (Array.getElem?_eq_some_iff.1 hscope).1
  · exact absurd halive (by simp)

/-- One kind of things, looked at scope by scope, follows a change at one scope. -/
theorem filterMap_update {β : Type} (f : Owned σ → Option β) (owned : ScopeId → List (Owned σ))
    (s : ScopeId) (list : List (Owned σ)) :
    (fun s' => (Function.update owned s list s').filterMap f) =
      Function.update (fun s' => (owned s').filterMap f) s (list.filterMap f) :=
  funext (Function.apply_update (fun _ => List.filterMap f) owned s list)

/-- An estate after an addition to what a scope owns. -/
theorem estate_own (h : s.index < w.scopes.size) (item : Owned σ)
    (disposals : List (List ScopeId × List (Cleanup σ))) :
    (w.own s item).estate disposals =
      (w.estate disposals).apply (match item with
        | .scope child => .adopt s child
        | .cleanup cleanup => .register s cleanup) := by
  have hnone {β : Type} (f : ScopeId → List β) : Function.update f s (f s ++ []) = f := by
    rw [List.append_nil, Function.update_eq_self]
  simp only [estate, owned_own h, filterMap_update, List.filterMap_append]
  cases item with
  | scope child => exact Estate.ext rfl (hnone _) rfl
  | cleanup cleanup => exact Estate.ext (hnone _) rfl rfl

/-- An estate after what a scope owns has been taken out. -/
theorem estate_takeOwned (s : ScopeId) (disposals : List (List ScopeId × List (Cleanup σ))) :
    (w.takeOwned s).2.2.estate (((w.takeOwned s).1, (w.takeOwned s).2.1) :: disposals) =
      (w.estate disposals).takeOut s disposals := by
  obtain ⟨hscopes, hcleanups, howned⟩ := w.takeOwned_eq s
  simp only [estate, Estate.takeOut, howned, filterMap_update, hscopes, hcleanups,
    List.filterMap_nil]

/-! ## How many scopes there are -/

/-- A change of a scope makes no scope. -/
theorem size_modifyScope (w : World σ) (s : ScopeId) (change : Scope σ → Scope σ) :
    (w.modifyScope s change).scopes.size = w.scopes.size := by
  simp [modifyScope]

/-- Scopes are only ever added. -/
theorem size_newScope (w : World σ) (handles : Nat) :
    w.scopes.size ≤ (w.newScope handles).2.scopes.size := by
  simp [newScope]

/-- A scope that has been disposed stays where it was, so no identity is used twice. -/
theorem size_takeOwned (w : World σ) (s : ScopeId) :
    (w.takeOwned s).2.2.scopes.size = w.scopes.size := by
  unfold takeOwned
  split
  · exact w.size_modifyScope s _
  · rfl

theorem size_giveBack (w : World σ) (s : ScopeId) :
    (w.giveBack s).2.scopes.size = w.scopes.size := by
  unfold giveBack
  split
  · exact w.size_modifyScope s _
  · rfl

theorem size_newEffect (w : World σ) (body : Program σ) :
    (w.newEffect body).2.scopes.size = w.scopes.size := by
  unfold newEffect
  simp only
  split
  · exact size_modifyScope _ _ _
  · rfl

/-- The estate is what is owned, beside the disposals. -/
theorem estate_congr (h : w'.owned = w.owned)
    (disposals : List (List ScopeId × List (Cleanup σ))) :
    w'.estate disposals = w.estate disposals := by
  rw [estate, estate, h]

end World

open Estate (Event)

/-! ## What a step does to the estate -/

/-- What a disposal under way has still before it. -/
def Frame.disposal? : Frame σ → Option (List ScopeId × List (Cleanup σ))
  | .disposing scopes cleanups => some (scopes, cleanups)
  | _ => none

/-- What the first step of a program does to the estate. -/
def Program.event (w : World σ) : Program σ → Event (Cleanup σ)
  | .op (.newChild s) _ => .adopt s ⟨w.scopes.size⟩
  | .effect body _ =>
    match w.liveScope with
    | some s => .register s (.stop (w.newEffect body).1)
    | none => .idle
  | .onDispose s cleanup _ => .register s (.program cleanup)
  | .dispose s _ => .take s
  | _ => .idle

/-- What a frame that receives a value does to the estate.  The last handle of a scope
disposes it. -/
def Frame.event (w : World σ) : Frame σ → Event (Cleanup σ)
  | .disposing (_ :: _) _ => .descend
  | .disposing [] (_ :: _) => .run
  | .disposing [] [] => .close
  | .release s => if (w.giveBack s).1 then .take s else .idle
  | _ => .idle

/-- The scope to which the first step of a program adds something. -/
def Program.addsTo? : Program σ → Option ScopeId
  | .op (.newChild s) _ => some s
  | .onDispose s _ _ => some s
  | _ => none

namespace Machine

variable {m m' : Machine σ}

/-- The disposals under way, innermost first. -/
def disposals (m : Machine σ) : List (List ScopeId × List (Cleanup σ)) :=
  m.frames.filterMap Frame.disposal?

/-- What is in the hands of scopes. -/
def estate (m : Machine σ) : Estate (Cleanup σ) := m.world.estate m.disposals

/-- What the step to come does to the estate. -/
def event (m : Machine σ) : Event (Cleanup σ) :=
  match m.focus, m.frames with
  | .run program, _ => program.event m.world
  | .value _, frame :: _ => frame.event m.world
  | _, _ => .idle

/-- No failure is under way, and what is added to a scope is added to one that there is. -/
def Calm (m : Machine σ) : Prop :=
  match m.focus with
  | .run program => ∀ s ∈ program.addsTo?, s.index < m.world.scopes.size
  | .value _ => True
  | .throwing _ => False

instance : DecidablePred fun m : Machine σ => m.Calm
  | ⟨w, .run program, _⟩ =>
    inferInstanceAs (Decidable (∀ s ∈ program.addsTo?, s.index < w.scopes.size))
  | ⟨_, .value _, _⟩ => .isTrue trivial
  | ⟨_, .throwing _, _⟩ => .isFalse id

/-- To begin a run, or to pass it over, touches no scope. -/
theorem estate_runEffect (w : World σ) (id : EffectId) (frames : List (Frame σ)) :
    (runEffect w id frames).estate = w.estate (frames.filterMap Frame.disposal?) := by
  unfold runEffect
  split
  · rename_i body w' hbegin
    exact World.estate_congr (World.owned_congr (World.scopes_beginRun hbegin)) _
  · rfl

/-- The disposal of a scope begins with taking all that it owns. -/
theorem estate_disposeOwned (w : World σ) (s : ScopeId) (frames : List (Frame σ)) :
    (disposeOwned w s frames).estate =
      (w.estate (frames.filterMap Frame.disposal?)).apply (.take s) :=
  World.estate_takeOwned s _

/-- **The first step of a program does to the estate what its event says.** -/
theorem estate_exec (w : World σ) (frames : List (Frame σ)) (program : Program σ)
    (hcalm : ∀ s ∈ program.addsTo?, s.index < w.scopes.size) :
    (exec w frames program).estate =
      (w.estate (frames.filterMap Frame.disposal?)).apply (program.event w) := by
  let disposals := frames.filterMap Frame.disposal?
  cases program with
  | op op next =>
    cases hentry : op.entry? with
    | some entry =>
      have hidle : (Program.op op next).event w = .idle := by
        cases op <;> first | rfl | exact absurd hentry (by simp [Op.entry?])
      rw [hidle]
      simp only [exec, World.perform_of_entry hentry]
      exact World.estate_congr (World.owned_congr (w.scopes_track entry)) _
    | none =>
      cases op
      case newScope => exact World.estate_congr (w.owned_newScope 1) _
      case newChild s =>
        have hs : s.index < (w.newScope 2).2.scopes.size := by
          rw [World.newScope, Array.size_push]
          exact Nat.lt_succ_of_lt (hcalm s rfl)
        -- The child exists before its parent owns it, but it owns nothing yet.
        refine (World.estate_own hs (.scope ⟨w.scopes.size⟩) _).trans ?_
        exact congrArg (Estate.apply · (.adopt s ⟨w.scopes.size⟩))
          (World.estate_congr (w.owned_newScope 2) _)
      case hold s => exact World.estate_congr (w.owned_hold s) _
      case stop id => exact World.estate_congr (World.owned_congr (w.scopes_stop id)) _
      case endCell | letGo =>
        exact World.estate_congr (World.owned_congr (World.scopes_finish _ _)) _
      all_goals first | rfl | exact absurd hentry (by simp [Op.entry?])
  | write write next =>
    simp only [exec]
    split
    · rename_i w' entries hwrite
      exact World.estate_congr (World.owned_congr (World.scopes_write hwrite)) _
    · rfl
  | effect body next =>
    refine (estate_runEffect _ _ _).trans ?_
    unfold Program.event World.newEffect
    simp only
    split
    case h_1 s hs =>
      have hs' : w.liveScope = some s := hs
      rw [hs']
      exact World.estate_own (World.lt_size_of_liveScope hs') (.cleanup (.stop _)) _
    case h_2 hnone =>
      have hnone' : w.liveScope = none := hnone
      rw [hnone']
      rfl
  | rerun id next => exact estate_runEffect w id _
  | inScope s body next => exact World.estate_congr (w.owned_hold s) _
  | onDispose s cleanup next => exact World.estate_own (hcalm s rfl) (.cleanup (.program cleanup)) _
  | dispose s next =>
    refine (estate_disposeOwned (w.hold s) s _).trans ?_
    exact congrArg (Estate.apply · (.take s)) (World.estate_congr (w.owned_hold s) _)
  | call callback argument next =>
    simp only [exec]
    split <;> rfl
  | _ => rfl

/-- **So does a value that comes back to a frame.** Here disposals go on: a child, a cleanup,
the end. -/
theorem estate_resume (w : World σ) (value : Value) (frames : List (Frame σ)) (frame : Frame σ) :
    (resume w value frames frame).estate =
      (w.estate ((frame :: frames).filterMap Frame.disposal?)).apply (frame.event w) := by
  cases frame with
  | notify now later =>
    cases now with
    | nil => cases later <;> rfl
    | cons id now =>
      simp only [resume]
      split
      · rfl
      · exact estate_runEffect w id _
  | disposing scopes cleanups =>
    cases scopes with
    | cons child scopes => exact World.estate_takeOwned child _
    | nil =>
      rcases cleanups with _ | ⟨id | body, cleanups⟩
      · rfl
      · exact World.estate_congr (World.owned_congr (w.scopes_stop id)) _
      · rfl
  | release s =>
    have howned := w.owned_giveBack s
    simp only [resume, Frame.event]
    split <;> rename_i w' hback <;> rw [hback] at howned
    · refine (estate_disposeOwned w' s _).trans ?_
      rw [hback]
      exact congrArg (Estate.apply · (.take s)) (World.estate_congr howned _)
    · rw [hback]
      exact World.estate_congr howned _
  | _ => rfl

/-- **What a step does to the estate.** -/
theorem Next.estate (hcalm : m.Calm) (h : Next m m') : m'.estate = m.estate.apply m.event := by
  cases h with
  | begin | recover => rfl
  | step step =>
    cases steps_of_step? step with
    | exec w frames program => exact estate_exec w frames program hcalm
    | resume w value frames frame => exact estate_resume w value frames frame
    | unwind => exact hcalm.elim

/-- The cleanups that the step to come runs, one at most. -/
def runs (m : Machine σ) : List (Cleanup σ) := m.estate.ran m.event

/-! ## Scopes are numbered -/

/-- The beginning of a run makes no scope. -/
theorem size_runEffect (w : World σ) (id : EffectId) (frames : List (Frame σ)) :
    (runEffect w id frames).world.scopes.size = w.scopes.size := by
  unfold runEffect
  split
  · rename_i body w' hbegin
    rw [World.scopes_beginRun hbegin]
  · rfl

/-- The first step of a program makes one at most, and takes none back. -/
theorem size_exec (w : World σ) (frames : List (Frame σ)) (program : Program σ) :
    w.scopes.size ≤ (exec w frames program).world.scopes.size := by
  cases program with
  | op op next =>
    cases hentry : op.entry? with
    | some entry =>
      simp only [exec, World.perform_of_entry hentry, World.scopes_track]
      exact Nat.le_refl _
    | none =>
      cases op
      case stop id => exact Nat.le_of_eq (congrArg Array.size (w.scopes_stop id)).symm
      case endCell | letGo =>
        exact Nat.le_of_eq (congrArg Array.size (World.scopes_finish _ _)).symm
      case newScope => exact w.size_newScope 1
      case newChild s =>
        exact Nat.le_trans (w.size_newScope 2) (Nat.le_of_eq (World.size_modifyScope _ s _).symm)
      case hold s => exact Nat.le_of_eq (w.size_modifyScope s _).symm
      all_goals first | exact Nat.le_refl _ | exact absurd hentry (by simp [Op.entry?])
  | write write next =>
    simp only [exec]
    split
    · rename_i w' entries hwrite
      rw [World.scopes_write hwrite]
    · exact Nat.le_refl _
  | effect body next => exact Nat.le_of_eq ((size_runEffect _ _ _).trans (w.size_newEffect body)).symm
  | rerun id next => exact Nat.le_of_eq (size_runEffect w id _).symm
  | inScope s body next => exact Nat.le_of_eq (w.size_modifyScope s _).symm
  | onDispose s cleanup next => exact Nat.le_of_eq (w.size_modifyScope s _).symm
  | dispose s next =>
    exact Nat.le_of_eq (((w.hold s).size_takeOwned s).trans (w.size_modifyScope s _)).symm
  | call callback argument next =>
    simp only [exec]
    split <;> exact Nat.le_refl _
  | _ => exact Nat.le_refl _

/-- A value that comes back makes no scope; what it runs may. -/
theorem size_resume (w : World σ) (value : Value) (frames : List (Frame σ)) (frame : Frame σ) :
    w.scopes.size ≤ (resume w value frames frame).world.scopes.size := by
  cases frame with
  | notify now later =>
    cases now with
    | nil => cases later <;> exact Nat.le_refl _
    | cons id now =>
      simp only [resume]
      split
      · exact Nat.le_refl _
      · exact Nat.le_of_eq (size_runEffect w id _).symm
  | disposing scopes cleanups =>
    cases scopes with
    | cons child scopes => exact Nat.le_of_eq (w.size_takeOwned child).symm
    | nil =>
      rcases cleanups with _ | ⟨id | body, cleanups⟩
      · exact Nat.le_refl _
      · exact Nat.le_of_eq (congrArg Array.size (w.scopes_stop id)).symm
      · exact Nat.le_refl _
  | release s =>
    have hsize := w.size_giveBack s
    simp only [resume]
    split <;> rename_i w' hback <;> rw [hback] at hsize
    · exact Nat.le_of_eq ((w'.size_takeOwned s).trans hsize).symm
    · exact Nat.le_of_eq hsize.symm
  | _ => exact Nat.le_refl _

/-- Scopes stay. -/
theorem Next.size (hcalm : m.Calm) (h : Next m m') :
    m.world.scopes.size ≤ m'.world.scopes.size := by
  cases h with
  | begin | recover => exact Nat.le_refl _
  | step step =>
    cases steps_of_step? step with
    | exec w frames program => exact size_exec w frames program
    | resume w value frames frame => exact size_resume w value frames frame
    | unwind => exact hcalm.elim

/-- The beginning of a run stops nobody. -/
theorem isLive_runEffect (w : World σ) (id e : EffectId) (frames : List (Frame σ)) :
    (runEffect w id frames).world.isLive e = w.isLive e := by
  unfold runEffect
  split
  · rename_i body w' hbegin
    exact World.isLive_beginRun hbegin
  · rfl

/-- A new effect is live, and it is stopped when the scope that is current is disposed. -/
theorem Next.isLive_new {body : Program σ} {next : EffectId → Program σ}
    (htidy : m.world.effects.Tidy) (hfocus : m.focus = .run (.effect body next))
    (h : Next m m') : m'.world.isLive (m.world.newEffect body).1 = true := by
  obtain ⟨w, focus, frames⟩ := m
  subst hfocus
  cases h with
  | step step =>
    obtain rfl := Option.some.inj step
    refine (isLive_runEffect _ _ _ _).trans ?_
    rw [World.isLive_newEffect htidy, if_pos rfl]

/-- A cleanup that stops an effect does so. -/
theorem deed?_of_runs {e : EffectId} (h : .stop e ∈ m.runs) : m.deed? = some (.stop e) := by
  obtain ⟨w, focus, frames⟩ := m
  cases focus with
  | run program =>
    cases program with
    | op op next => cases op <;> exact absurd h List.not_mem_nil
    | effect body next =>
      simp only [runs, event, Program.event] at h
      split at h <;> exact absurd h List.not_mem_nil
    | _ => exact absurd h List.not_mem_nil
  | value value =>
    cases frames with
    | nil => exact absurd h List.not_mem_nil
    | cons frame frames =>
      cases frame with
      | disposing scopes cleanups =>
        rcases scopes with _ | ⟨_, scopes⟩ <;> rcases cleanups with _ | ⟨cleanup, cleanups⟩
        case nil.cons =>
          obtain rfl := List.mem_singleton.1 h
          rfl
        all_goals exact absurd h List.not_mem_nil
      | release s =>
        simp only [runs, event, Frame.event] at h
        split at h <;> exact absurd h List.not_mem_nil
      | _ => exact absurd h List.not_mem_nil
  | throwing message => exact absurd h List.not_mem_nil

end Machine

/-! ## The ledger of a run -/

open Machine

/-- The events of a run, with the number of the step in the place of a cleanup. -/
def numbered (t : Nat → Machine σ) (k : Nat) : Event Nat := (t k).event.map fun _ => k

/-- The ledger after some steps: which cleanups, by their numbers, are where. -/
def ledger (t : Nat → Machine σ) (k : Nat) : Estate Nat := .after (numbered t) k

/-- The numbers of the cleanups that have run, in order. -/
def cleanedUp (t : Nat → Machine σ) (k : Nat) : List Nat := Estate.ranBy (numbered t) k

/-- The cleanup with a number. -/
def registered (t : Nat → Machine σ) (k : Nat) : Option (Cleanup σ) := (t k).event.cleanup?

variable {t : Nat → Machine σ} {k n : Nat}

/-- With the cleanups put back for their numbers, the events of the ledger are those of the
machine. -/
theorem map_numbered (t : Nat → Machine σ) (k : Nat) :
    (numbered t k).map (registered t) = (t k).event.map some := by
  unfold numbered registered
  generalize hevent : (t k).event = event
  cases event <;> simp [Event.map, hevent, Event.cleanup?]

/-- **The ledger is right**: with the cleanups in the place of their numbers, it is the
estate. -/
theorem ledger_faithful (hrun : IsRun t n) (hcalm : ∀ k ≤ n, (t k).Calm) (hk : k ≤ n) :
    (ledger t k).map (registered t) = (t k).estate.map some := by
  induction k with
  | zero =>
    obtain ⟨host, hhost⟩ := hrun.start
    rw [hhost]
    ext s : 2 <;> rfl
  | succ k ih =>
    have hstep : (t (k + 1)).estate = (t k).estate.apply (t k).event :=
      (hrun.next k hk).estate (hcalm k (Nat.le_of_lt hk))
    calc (ledger t (k + 1)).map (registered t)
        = ((ledger t k).apply (numbered t k)).map (registered t) := rfl
      _ = ((ledger t k).map (registered t)).apply ((numbered t k).map (registered t)) :=
          Estate.map_apply _ _ _
      _ = ((t k).estate.map some).apply ((t k).event.map some) := by
          rw [ih (Nat.le_of_lt hk), map_numbered]
      _ = ((t k).estate.apply (t k).event).map some := (Estate.map_apply _ _ _).symm
      _ = (t (k + 1)).estate.map some := by rw [hstep]

/-- The ledger runs the cleanups that the machine runs. -/
theorem ledger_runs (hrun : IsRun t n) (hcalm : ∀ k ≤ n, (t k).Calm) (hk : k ≤ n) :
    ((ledger t k).ran (numbered t k)).map (registered t) = (t k).runs.map some := by
  rw [← Estate.ran_map, ledger_faithful hrun hcalm hk, map_numbered, Estate.ran_map, runs]

/-- As many disposals are under way in the ledger as in the machine. -/
theorem length_disposals_ledger (hrun : IsRun t n) (hcalm : ∀ k ≤ n, (t k).Calm)
    (hk : k ≤ n) : (ledger t k).disposals.length = (t k).disposals.length := by
  have h := congrArg (fun E => E.disposals.length) (ledger_faithful hrun hcalm hk)
  simpa [Estate.map, estate, World.estate] using h

/-- What is registered at a step has the number of the step. -/
theorem number_of_register {s : ScopeId} {a : Nat} (h : numbered t k = .register s a) :
    a = k ∧ ∃ cleanup, (t k).event = .register s cleanup := by
  unfold numbered at h
  generalize (t k).event = event at h ⊢
  cases event
  case register s' cleanup =>
    obtain ⟨rfl, rfl⟩ := Event.register.inj h
    exact ⟨rfl, cleanup, rfl⟩
  all_goals exact absurd h (by simp [Event.map])

/-- **No number is registered twice**, since steps are counted: here equal cleanups come
apart. -/
theorem registersOnce_numbered (t : Nat → Machine σ) (n : Nat) :
    Estate.RegistersOnce (numbered t) n where
  once := by
    intro k l s s' a hkl _ hk hl
    obtain ⟨rfl, -⟩ := number_of_register hk
    obtain ⟨rfl, -⟩ := number_of_register hl
    exact Nat.lt_irrefl _ hkl

end Reactive
end ReactiveView
