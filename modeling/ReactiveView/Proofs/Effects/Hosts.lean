/-
# What programs do to their host

A program is *confined* to a relation if every change of the host state that it makes is
one, and so is every change made by the bodies, the cleanups and the callbacks that it
leaves behind (`Program.Confined`).  A change may depend on the host that the program has
just read.

The machine stores programs of confined programs only, and whatever it runs of them, and
whenever, the host moves along the relation (`Machine.Confined.step`, `Machine.Occurs.host`).
-/

import Mathlib.Logic.Relation
import ReactiveView.Proofs.Effects.Termination
import ReactiveView.Proofs.Scopes.Ledger

namespace ReactiveView
namespace Reactive

open Relation (ReflTransGen)

variable {σ : Type} {R : σ → σ → Prop}

namespace Program

/-- Every change of the host that the program makes is one of the relation, and so is every
change that a program makes which it leaves behind.  Here `known` is the host, if the program
has just read it. -/
def Confined (R : σ → σ → Prop) : Option σ → Program σ → Prop
  | _, ret _ => True
  | _, throw _ => True
  | _, op _ next => ∀ answer, (next answer).Confined R none
  | _, readHost next => ∀ s, (next s).Confined R (some s)
  | known, changeHost change next =>
    (∀ s, (∀ s₀ ∈ known, s = s₀) → R s (change s)) ∧ next.Confined R none
  | _, write _ next => ∀ done, (next done).Confined R none
  | _, trigger _ next => next.Confined R none
  | _, effect body next => body.Confined R none ∧ ∀ id, (next id).Confined R none
  | _, rerun _ next => next.Confined R none
  | _, untracked body next => body.Confined R none ∧ ∀ value, (next value).Confined R none
  | _, inScope _ body next => body.Confined R none ∧ ∀ value, (next value).Confined R none
  | _, onDispose _ cleanup next => cleanup.Confined R none ∧ next.Confined R none
  | _, dispose _ next => next.Confined R none
  | _, release _ next => next.Confined R none
  | _, .catch body next => body.Confined R none ∧ ∀ message, (next message).Confined R none
  | _, callback body next =>
    (∀ argument, (body argument).Confined R none) ∧ ∀ c, (next c).Confined R none
  | _, call _ _ next => next.Confined R none

/-- What is confined wherever it begins, is so where the host is known. -/
theorem Confined.known {program : Program σ} (h : program.Confined R none) (s : σ) :
    program.Confined R (some s) := by
  cases program with
  | changeHost change next => exact ⟨fun s _ => h.1 s (by simp), h.2⟩
  | _ => exact h

end Program

/-- The values in an arena after an insertion are the new one and old ones. -/
theorem Arena.eq_or_of_get?_insert {α : Type} {arena : Arena α} {value a : α} {id : EffectId}
    (h : (arena.insert value).2.get? id = some a) : a = value ∨ arena.get? id = some a := by
  rw [get?_eq_some_iff] at h
  rw [get?_eq_some_iff]
  unfold insert at h
  split at h
  · rw [Array.getElem?_push] at h
    split at h
    · exact .inl (Option.some.inj (Place.mk.inj (Option.some.inj h)).2).symm
    · exact .inr h
  · rw [Array.getElem?_setIfInBounds] at h
    split at h
    · split at h
      · exact .inl (Option.some.inj (Place.mk.inj (Option.some.inj h)).2).symm
      · exact absurd h (by simp)
    · exact .inr h

namespace World

variable {w w' : World σ}

/-! ## Stored programs -/

/-- The program is registered with a scope, to be run when that is disposed. -/
def HasCleanup (w : World σ) (program : Program σ) : Prop :=
  ∃ s, .cleanup (.program program) ∈ w.owned s

/-- The bodies of effects, the cleanups and the callbacks are confined. -/
structure Confined (R : σ → σ → Prop) (w : World σ) : Prop where
  effects : ∀ id effect, w.effects.get? id = some effect → effect.body.Confined R none
  cleanups : ∀ program, w.HasCleanup program → program.Confined R none
  callbacks : ∀ body ∈ w.callbacks, ∀ argument, (body argument).Confined R none

/-- An empty world stores no program. -/
theorem confined_start (host : σ) : (start host).Confined R where
  effects id effect h := absurd h (by simp [start, Arena.empty, Arena.get?])
  cleanups := by
    rintro program ⟨s, hs⟩
    exact absurd hs (by simp [start, owned])
  callbacks body h := absurd h (by simp [start])

/-- The second world stores no other programs than the first one, and the host is the
same. -/
structure StoresNoMore (w w' : World σ) : Prop where
  inherits : Inherits w w'
  cleanups : ∀ program, w'.HasCleanup program → w.HasCleanup program
  callbacks : w'.callbacks = w.callbacks
  host : w'.host = w.host

/-- A world that stores no more programs is as confined. -/
theorem Confined.of_storesNoMore (h : w.Confined R) (hw : StoresNoMore w w') : w'.Confined R where
  effects id effect' heffect' := by
    obtain ⟨effect, heffect, hbody⟩ := hw.inherits id effect' heffect'
    rw [hbody]
    exact h.effects id effect heffect
  cleanups program hprogram := h.cleanups program (hw.cleanups program hprogram)
  callbacks := by
    rw [hw.callbacks]
    exact h.callbacks

/-- Where the same is owned, the same cleanups are stored. -/
theorem hasCleanup_congr (h : w'.owned = w.owned) (program : Program σ)
    (hprogram : w'.HasCleanup program) : w.HasCleanup program := by
  unfold HasCleanup at hprogram
  rw [h] at hprogram
  exact hprogram

/-- After an addition to what a scope owns, a cleanup is an old one or the one added. -/
theorem hasCleanup_own {s : ScopeId} {item : Owned σ} {program : Program σ}
    (h : (w.own s item).HasCleanup program) :
    w.HasCleanup program ∨ item = .cleanup (.program program) := by
  by_cases hs : s.index < w.scopes.size
  · obtain ⟨s', hs'⟩ := h
    rw [owned_own hs] at hs'
    by_cases heq : s' = s
    · rw [heq, Function.update_self] at hs'
      rcases List.mem_append.1 hs' with hold | hnew
      · exact .inl ⟨s, hold⟩
      · exact .inr (List.mem_singleton.1 hnew).symm
    · rw [Function.update_of_ne heq] at hs'
      exact .inl ⟨s', hs'⟩
  · have hsame : (w.own s item).scopes = w.scopes := by
      refine Array.ext (by simp [own, modifyScope]) fun i hi hi' => ?_
      simp only [own, modifyScope]
      rw [Array.getElem_modify, if_neg (by omega)]
    exact .inl (hasCleanup_congr (owned_congr hsame) program h)

namespace StoresNoMore

/-- Nothing new is stored where nothing happens. -/
theorem refl (w : World σ) : StoresNoMore w w := ⟨.of_eq rfl, fun _ => id, rfl, rfl⟩

/-- Where effects, scopes, callbacks and host are the same, so are the programs. -/
theorem of_same (effects : w'.effects = w.effects) (owned : w'.owned = w.owned)
    (callbacks : w'.callbacks = w.callbacks) (host : w'.host = w.host) : StoresNoMore w w' :=
  ⟨.of_eq effects, hasCleanup_congr owned, callbacks, host⟩

/-- Reading stores entries, never programs. -/
theorem track (w : World σ) (entry : Entry) : StoresNoMore w (w.track entry) := by
  have hcleanups := hasCleanup_congr (owned_congr (scopes_track w entry))
  rcases w.track_cases entry with h | ⟨id, -, h⟩
  · rw [h]
    exact refl w
  · refine ⟨inherits_track entry, hcleanups, ?_, ?_⟩ <;> rw [h]

/-- A stopped effect takes its body with it. -/
theorem stop (w : World σ) (id : EffectId) : StoresNoMore w (w.stop id) := by
  refine ⟨inherits_stop id, hasCleanup_congr (owned_congr (scopes_stop w id)), ?_, ?_⟩ <;>
    · unfold World.stop
      split <;> rfl

/-- A new scope owns nothing yet. -/
theorem newChild (w : World σ) (parent : ScopeId) : StoresNoMore w (w.newChild parent).2 := by
  refine ⟨.of_eq rfl, fun program h => ?_, rfl, rfl⟩
  rcases hasCleanup_own h with h | h
  · exact hasCleanup_congr (owned_newScope w 2) program h
  · exact absurd h (by simp)

/-- One more handle of a scope brings it no cleanup. -/
theorem hold (w : World σ) (s : ScopeId) : StoresNoMore w (w.hold s) :=
  of_same rfl (owned_hold w s) rfl rfl

/-- The end of a target stores nothing. -/
theorem finish (w : World σ) (target : Target) (held : Bool) :
    StoresNoMore w (w.finish target held) := by
  obtain ⟨_, _, _, h⟩ := w.finish_eq target held
  rw [h]
  exact of_same rfl rfl rfl rfl

/-- **No operation stores a program**; making an effect and adding a cleanup are commands of
their own. -/
theorem perform (w : World σ) (op : Op) : StoresNoMore w (w.perform op).2 := by
  cases hentry : op.entry? with
  | some entry =>
    rw [perform_of_entry hentry]
    exact track w entry
  | none =>
    rw [perform_of_entry_none hentry]
    cases op
    case stop id => exact stop w id
    case endCell | letGo => exact finish w _ _
    case newScope => exact of_same rfl (owned_newScope w 1) rfl rfl
    case newChild parent => exact newChild w parent
    case hold s => exact hold w s
    all_goals exact of_same rfl rfl rfl rfl

/-- A write stores a value. -/
theorem write {write : Write} {entries : List Entry} (h : w.write write = some (w', entries)) :
    StoresNoMore w w' := by
  rcases write_cases h with ⟨o, table, rfl⟩ | ⟨c, old, value, -, rfl⟩ <;>
    exact of_same rfl rfl rfl rfl

/-- What is given back was there when it was taken. -/
theorem giveBack (w : World σ) (s : ScopeId) : StoresNoMore w (w.giveBack s).2 := by
  refine of_same (effects_giveBack w s) (owned_giveBack w s) ?_ ?_ <;>
    · unfold World.giveBack
      split <;> rfl

/-- What a scope owns is taken out of it, so fewer cleanups are left. -/
theorem takeOwned (w : World σ) (s : ScopeId) : StoresNoMore w (w.takeOwned s).2.2 := by
  refine ⟨.of_eq (effects_takeOwned s), ?_, ?_, ?_⟩
  · rintro program ⟨s', hs'⟩
    rw [(takeOwned_eq w s).2.2] at hs'
    by_cases heq : s' = s
    · rw [heq, Function.update_self] at hs'
      exact absurd hs' (by simp)
    · rw [Function.update_of_ne heq] at hs'
      exact ⟨s', hs'⟩
  all_goals
    unfold World.takeOwned
    split <;> rfl

/-- The body that runs stays stored as it was. -/
theorem beginRun {id : EffectId} {body : Program σ} (h : w.beginRun id = some (body, w')) :
    StoresNoMore w w' := by
  refine ⟨inherits_beginRun h, hasCleanup_congr (owned_congr (scopes_beginRun h)), ?_, ?_⟩ <;>
    · obtain ⟨_, -, rfl, rfl⟩ := beginRun_eq_some_iff.1 h
      rfl

end StoresNoMore

/-- A cleanup that is taken out was registered. -/
theorem hasCleanup_of_mem_taken {s : ScopeId} {program : Program σ}
    (h : .program program ∈ (w.takeOwned s).2.1) : w.HasCleanup program := by
  rw [(takeOwned_eq w s).2.1, List.mem_filterMap] at h
  obtain ⟨item, hitem, hcleanup⟩ := h
  cases item with
  | scope child => exact absurd hcleanup (by simp [Owned.cleanup?])
  | cleanup c => exact ⟨s, by rw [← Option.some.inj hcleanup]; exact hitem⟩

/-- Making an effect is no change of the host. -/
theorem host_newEffect (w : World σ) (body : Program σ) : (w.newEffect body).2.host = w.host := by
  unfold newEffect
  simp only
  split <;> rfl

/-- The body that is stored last is confined by assumption, the others as before. -/
theorem Confined.newEffect (h : w.Confined R) {body : Program σ} (hbody : body.Confined R none) :
    (w.newEffect body).2.Confined R := by
  have hmade : { w with effects := (w.effects.insert ⟨body, []⟩).2 }.Confined R := by
    refine ⟨fun id effect heffect => ?_, h.cleanups, h.callbacks⟩
    rcases Arena.eq_or_of_get?_insert heffect with rfl | hold
    · exact hbody
    · exact h.effects id effect hold
  unfold World.newEffect
  simp only
  split
  · refine ⟨hmade.effects, fun program hprogram => ?_, hmade.callbacks⟩
    rcases hasCleanup_own hprogram with hold | hnew
    · exact hmade.cleanups program hold
    · exact absurd hnew (by simp)
  · exact hmade

end World

/-! ## Steps -/

/-- What the frame goes on with is confined. -/
def Frame.Confined (R : σ → σ → Prop) : Frame σ → Prop
  | .bind next => ∀ value, (next value).Confined R none
  | .catch next => ∀ message, (next message).Confined R none
  | .disposing _ cleanups => ∀ program, .program program ∈ cleanups → program.Confined R none
  | _ => True

/-- A confined frame may be pushed onto confined frames. -/
theorem Frame.confined_cons {frame : Frame σ} {frames : List (Frame σ)} (h : frame.Confined R)
    (hframes : ∀ frame ∈ frames, frame.Confined R) :
    ∀ frame' ∈ frame :: frames, frame'.Confined R :=
  List.forall_mem_cons.2 ⟨h, hframes⟩

namespace Machine

open Reactive.Frame (confined_cons)

variable {m m' : Machine σ} {w w' : World σ} {frames : List (Frame σ)}

/-- What the machine stores and what it has before it is confined. -/
structure Confined (R : σ → σ → Prop) (m : Machine σ) : Prop where
  world : m.world.Confined R
  focus : ∀ program, m.focus = .run program → program.Confined R (some m.world.host)
  frames : ∀ frame ∈ m.frames, frame.Confined R

/-- The state is confined, and the host is that of the world or has moved on from it. -/
structure MovesOn (R : σ → σ → Prop) (w : World σ) (m : Machine σ) : Prop where
  confined : m.Confined R
  host : m.world.host = w.host ∨ R w.host m.world.host

/-- A step that goes on with a confined program; the host has moved along the relation, or not
at all. -/
theorem MovesOn.run {program : Program σ} (hw' : w'.Confined R)
    (hhost : w'.host = w.host ∨ R w.host w'.host) (hprogram : program.Confined R none)
    (hframes : ∀ frame ∈ frames, frame.Confined R) :
    MovesOn R w ⟨w', .run program, frames⟩ := by
  refine ⟨⟨hw', fun program' h => ?_, hframes⟩, hhost⟩
  rw [← Focus.run.inj h]
  exact hprogram.known _

/-- A step that ends in a value leaves the host. -/
theorem MovesOn.value {value : Value} (hw' : w'.Confined R) (hhost : w'.host = w.host)
    (hframes : ∀ frame ∈ frames, frame.Confined R) :
    MovesOn R w ⟨w', .value value, frames⟩ :=
  ⟨⟨hw', fun _ h => absurd h (by simp), hframes⟩, .inl hhost⟩

/-- A step that ends in a failure moves on, within the same host. -/
theorem MovesOn.throwing {message : String} (hw' : w'.Confined R) (hhost : w'.host = w.host)
    (hframes : ∀ frame ∈ frames, frame.Confined R) :
    MovesOn R w ⟨w', .throwing message, frames⟩ :=
  ⟨⟨hw', fun _ h => absurd h (by simp), hframes⟩, .inl hhost⟩

/-- The body that begins is one of those that are stored. -/
theorem MovesOn.runEffect (hw' : w'.Confined R) (hhost : w'.host = w.host) (id : EffectId)
    (hframes : ∀ frame ∈ frames, frame.Confined R) :
    MovesOn R w (Machine.runEffect w' id frames) := by
  unfold Machine.runEffect
  cases hbegin : w'.beginRun id with
  | none => exact .value hw' hhost hframes
  | some begun =>
    obtain ⟨body, w₁⟩ := begun
    have hstores := World.StoresNoMore.beginRun hbegin
    obtain ⟨effect, heffect, rfl, -⟩ := World.beginRun_eq_some_iff.1 hbegin
    exact .run (hw'.of_storesNoMore hstores) (.inl (hstores.host.trans hhost))
      (hw'.effects id effect heffect) (confined_cons trivial hframes)

/-- What a scope owns is taken out with the cleanups that it stores, and they are what runs
next. -/
theorem MovesOn.disposeOwned (hw' : w'.Confined R) (hhost : w'.host = w.host) (s : ScopeId)
    (hframes : ∀ frame ∈ frames, frame.Confined R) :
    MovesOn R w (Machine.disposeOwned w' s frames) := by
  have hstores := World.StoresNoMore.takeOwned w' s
  refine .value (hw'.of_storesNoMore hstores) (hstores.host.trans hhost)
    (confined_cons (fun program hprogram => ?_) hframes)
  exact hw'.cleanups program (World.hasCleanup_of_mem_taken hprogram)

/-- A handle of a scope is given back under some frames, and the last one disposes it. -/
theorem MovesOn.release (hw : w.Confined R) {s : ScopeId} {last : Bool}
    (h : w.giveBack s = (last, w')) : w'.Confined R ∧ w'.host = w.host := by
  have hstores := World.StoresNoMore.giveBack w s
  rw [h] at hstores
  exact ⟨hw.of_storesNoMore hstores, hstores.host⟩

/-- **The step of a program moves the host along the relation**, and what it leaves behind is
confined. -/
theorem movesOn_exec {program : Program σ} (hw : w.Confined R)
    (hprogram : program.Confined R (some w.host))
    (hframes : ∀ frame ∈ frames, frame.Confined R) : MovesOn R w (exec w frames program) := by
  cases program with
  | ret value => exact .value hw rfl hframes
  | throw message => exact .throwing hw rfl hframes
  | op op next =>
    have hstores := World.StoresNoMore.perform w op
    exact .run (hw.of_storesNoMore hstores) (.inl hstores.host) (hprogram _) hframes
  | readHost next =>
    refine ⟨⟨hw, fun program h => ?_, hframes⟩, .inl rfl⟩
    rw [← Focus.run.inj h]
    exact hprogram w.host
  | changeHost change next =>
    -- What the program may have read of the host is what the host of the world is.
    have hchange : R w.host (change w.host) :=
      hprogram.1 w.host fun s₀ hs₀ => Option.some.inj hs₀
    exact .run ⟨hw.effects, hw.cleanups, hw.callbacks⟩ (.inr hchange) hprogram.2 hframes
  | write write next =>
    simp only [exec]
    split
    · rename_i w' entries hwrite
      have hstores := World.StoresNoMore.write hwrite
      exact .value (hw.of_storesNoMore hstores) hstores.host
        (confined_cons trivial (confined_cons (fun _ => hprogram true) hframes))
    · exact .run hw (.inl rfl) (hprogram false) hframes
  | trigger entry next =>
    exact .value hw rfl (confined_cons trivial (confined_cons (fun _ => hprogram) hframes))
  | effect body next =>
    exact .runEffect (hw.newEffect hprogram.1) (World.host_newEffect w body) _
      (confined_cons (fun _ => hprogram.2 _) hframes)
  | rerun id next => exact .runEffect hw rfl id (confined_cons (fun _ => hprogram) hframes)
  | untracked body next =>
    exact .run ⟨hw.effects, hw.cleanups, hw.callbacks⟩ (.inl rfl) hprogram.1
      (confined_cons trivial (confined_cons hprogram.2 hframes))
  | inScope s body next =>
    have hhold := hw.of_storesNoMore (World.StoresNoMore.hold w s)
    exact .run ⟨hhold.effects, hhold.cleanups, hhold.callbacks⟩ (.inl rfl) hprogram.1
      (confined_cons trivial (confined_cons trivial (confined_cons hprogram.2 hframes)))
  | onDispose s cleanup next =>
    refine .run ⟨hw.effects, fun program h => ?_, hw.callbacks⟩ (.inl rfl) hprogram.2 hframes
    -- The cleanup that is added is the one thing that the world stores more.
    rcases World.hasCleanup_own h with hold | hnew
    · exact hw.cleanups program hold
    · obtain rfl := Cleanup.program.inj (Owned.cleanup.inj hnew)
      exact hprogram.1
  | dispose s next =>
    have hhold := hw.of_storesNoMore (World.StoresNoMore.hold w s)
    have hhost : (w.hold s).host = w.host := rfl
    exact .disposeOwned hhold hhost s
      (confined_cons trivial (confined_cons (fun _ => hprogram) hframes))
  | release s next =>
    exact .value hw rfl (confined_cons trivial (confined_cons (fun _ => hprogram) hframes))
  | «catch» body next => exact .run hw (.inl rfl) hprogram.1 (confined_cons hprogram.2 hframes)
  | callback body next =>
    refine .run ⟨hw.effects, hw.cleanups, fun body' h => ?_⟩ (.inl rfl) (hprogram.2 _) hframes
    rcases Array.mem_push.1 h with h | rfl
    · exact hw.callbacks body' h
    · exact hprogram.1
  | call callback argument next =>
    simp only [exec]
    split
    · rename_i body hbody
      exact .run hw (.inl rfl) (hw.callbacks body (Array.mem_of_getElem? hbody) argument)
        (confined_cons (fun _ => hprogram) hframes)
    · exact .run hw (.inl rfl) hprogram hframes

/-- The step of a value that comes back to a frame: what the frame holds was confined when it
was pushed. -/
theorem movesOn_resume {frame : Frame σ} (value : Value) (hw : w.Confined R)
    (hframe : frame.Confined R) (hframes : ∀ frame ∈ frames, frame.Confined R) :
    MovesOn R w (resume w value frames frame) := by
  cases frame with
  | bind next => exact .run hw (.inl rfl) (hframe value) hframes
  | leave => exact .value ⟨hw.effects, hw.cleanups, hw.callbacks⟩ rfl hframes
  | restoreScope outer => exact .value ⟨hw.effects, hw.cleanups, hw.callbacks⟩ rfl hframes
  | «catch» next => exact .run hw (.inl rfl) (hframe none) hframes
  | notify now later =>
    rcases now with _ | ⟨id, now⟩
    · rcases later with _ | ⟨entry, later⟩
      · exact .value hw rfl hframes
      · exact .value hw rfl (confined_cons trivial hframes)
    · simp only [resume]
      split
      · exact .value hw rfl (confined_cons trivial hframes)
      · exact .runEffect hw rfl id (confined_cons trivial hframes)
  | disposing scopes cleanups =>
    rcases scopes with _ | ⟨child, scopes⟩
    · rcases cleanups with _ | ⟨id | body, cleanups⟩
      · exact .value hw rfl hframes
      · have hstores := World.StoresNoMore.stop w id
        refine .value (hw.of_storesNoMore hstores) hstores.host (confined_cons ?_ hframes)
        exact fun program h => hframe program (List.mem_cons_of_mem _ h)
      · refine .run hw (.inl rfl) (hframe body List.mem_cons_self) (confined_cons ?_ hframes)
        exact fun program h => hframe program (List.mem_cons_of_mem _ h)
    · exact .disposeOwned hw rfl child (confined_cons trivial (confined_cons hframe hframes))
  | release s =>
    simp only [resume]
    split <;> rename_i w' hback
    · obtain ⟨hw', hhost⟩ := MovesOn.release hw hback
      exact .disposeOwned hw' hhost s (confined_cons (fun _ => trivial) hframes)
    · obtain ⟨hw', hhost⟩ := MovesOn.release hw hback
      exact .value hw' hhost hframes
  | rethrow message => exact .throwing hw rfl hframes

/-- The step of a failure that meets a frame. -/
theorem movesOn_unwind {frame : Frame σ} {message : String} (hw : w.Confined R)
    (hframe : frame.Confined R) (hframes : ∀ frame ∈ frames, frame.Confined R)
    (h : unwind w message frames frame = some m') : MovesOn R w m' := by
  cases frame with
  | bind next =>
    obtain rfl := Option.some.inj h
    exact .throwing hw rfl hframes
  | leave =>
    obtain rfl := Option.some.inj h
    exact .throwing ⟨hw.effects, hw.cleanups, hw.callbacks⟩ rfl hframes
  | restoreScope outer =>
    obtain rfl := Option.some.inj h
    exact .throwing ⟨hw.effects, hw.cleanups, hw.callbacks⟩ rfl hframes
  | «catch» next =>
    obtain rfl := Option.some.inj h
    exact .run hw (.inl rfl) (hframe (some message)) hframes
  | notify now later =>
    obtain rfl := Option.some.inj h
    exact .throwing hw rfl hframes
  | disposing scopes cleanups =>
    obtain rfl := Option.some.inj h
    refine .value hw rfl fun frame hframe => ?_
    rcases List.mem_append.1 hframe with hrelease | hrest
    · obtain ⟨s, -, rfl⟩ := List.mem_map.1 hrelease
      trivial
    · rcases List.mem_cons.1 hrest with rfl | hrest
      · trivial
      · exact hframes frame hrest
  | release s =>
    simp only [unwind] at h
    split at h <;> rename_i w' hback <;> obtain rfl := Option.some.inj h
    · obtain ⟨hw', hhost⟩ := MovesOn.release hw hback
      exact .disposeOwned hw' hhost s (confined_cons trivial hframes)
    · obtain ⟨hw', hhost⟩ := MovesOn.release hw hback
      exact .throwing hw' hhost hframes
  | rethrow message => exact absurd h (by simp [unwind])

/-- **A step of what is confined moves the host along the relation**, or leaves it. -/
theorem Confined.step (h : m.Confined R) (hstep : m.step? = some m') : MovesOn R m.world m' := by
  cases steps_of_step? hstep with
  | exec w frames program => exact movesOn_exec h.world (h.focus program rfl) h.frames
  | resume w value frames frame =>
    obtain ⟨hframe, hframes⟩ := List.forall_mem_cons.1 h.frames
    exact movesOn_resume value h.world hframe hframes
  | unwind w message frames frame unwinds =>
    obtain ⟨hframe, hframes⟩ := List.forall_mem_cons.1 h.frames
    exact movesOn_unwind h.world hframe hframes unwinds

/-! ## Runs -/

/-- A confined machine stays confined over any number of steps, and its host moves along the
relation only. -/
theorem Confined.leads (h : m.Confined R) (hleads : Leads m m') :
    m'.Confined R ∧ ReflTransGen R m.world.host m'.world.host := by
  induction hleads with
  | refl => exact ⟨h, .refl⟩
  | tail _ hstep ih =>
    have hmoves := ih.1.step hstep
    rcases hmoves.host with hsame | hrel
    · exact ⟨hmoves.confined, hsame ▸ ih.2⟩
    · exact ⟨hmoves.confined, ih.2.tail hrel⟩

/-- The state occurs in a run that begins with this host, in which all programs are
confined. -/
inductive Occurs (R : σ → σ → Prop) (host : σ) : Machine σ → Prop
  | start : Occurs R host (.start host)
  | step {m m' : Machine σ} (h : Occurs R host m) (hstep : m.step? = some m') : Occurs R host m'
  | begin {w : World σ} {value : Value} (h : Occurs R host ⟨w, .value value, []⟩)
      (program : Program σ) (confined : program.Confined R none) :
      Occurs R host ⟨w, .run program, []⟩
  | recover {w : World σ} {message : String} (h : Occurs R host ⟨w, .throwing message, []⟩)
      (program : Program σ) (confined : program.Confined R none) :
      Occurs R host ⟨w, .run program, []⟩

/-- **The host has moved along the relation from the beginning.** -/
theorem Occurs.host {host : σ} (h : Occurs R host m) :
    m.Confined R ∧ ReflTransGen R host m.world.host := by
  have hbegins {w : World σ} {focus : Focus σ} {program : Program σ}
      (h : Machine.Confined R ⟨w, focus, []⟩) (hprogram : program.Confined R none) :
      Machine.Confined R ⟨w, .run program, []⟩ :=
    (MovesOn.run h.world (.inl rfl) hprogram h.frames).confined
  induction h with
  | start =>
    exact ⟨⟨World.confined_start host, fun _ h => absurd h (by simp [Machine.start]),
      fun _ h => absurd h (by simp [Machine.start])⟩, .refl⟩
  | step _ hstep ih =>
    obtain ⟨hconfined, hhost⟩ := ih.1.leads (.single hstep)
    exact ⟨hconfined, ih.2.trans hhost⟩
  | begin _ program confined ih => exact ⟨hbegins ih.1 confined, ih.2⟩
  | recover _ program confined ih => exact ⟨hbegins ih.1 confined, ih.2⟩

/-- The states of the run of one operation occur. -/
theorem occurs_states {host : σ} {program : Program σ} (h : program.Confined R none) :
    ∀ n, Occurs R host (states host program n)
  | 0 => .start
  | 1 => .begin .start program h
  | n + 2 => by
    have hbefore : Occurs R host (states host program (n + 1)) := occurs_states h (n + 1)
    rw [states]
    cases hstep : (states host program (n + 1)).step? with
    | none => exact hbefore
    | some m' => exact hbefore.step hstep

end Machine
end Reactive
end ReactiveView
