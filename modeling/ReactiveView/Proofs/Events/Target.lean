/-
# What a dispatch calls at its target

A dispatch finds the listeners of its target when it begins, and handlers that it calls may change
them before they have their turns.  If they stay as they are (`Point.Steady`), all is decided at
the beginning: the handlers of the listeners are called one after the other, each once, and each
of them as soon as those before it have returned (`callsAtTarget_of_steady`).  A handler that does
not return is the last one.

They stay as they are while the handlers leave the props of the target alone
(`steady_of_spared`).
-/

import ReactiveView.Proofs.Events.Journey
import ReactiveView.Proofs.Events.Spared

namespace ReactiveView
namespace View

open Reactive (CallbackId Frame Machine Program World)
open Reactive.Machine (Leads)
open Relation (ReflTransGen)

variable {τ : Type} {e : EventId} {n : NodeId} {w w' : World (Stage τ)}

/-! ## Calls on the way -/

namespace Point

variable {p q : Point τ} {l : ListenerId} {ls done rest : List ListenerId} {path : List NodeId}
  {count : Nat}

/-- The handlers that the next move calls. -/
def calls (e : EventId) (p : Point τ) : List CallbackId :=
  (p.runs e).flatMap p.world.host.handlers

/-- Moves lead from the one point to the other, and these handlers are called on the way. -/
inductive Called (e : EventId) (p : Point τ) : List CallbackId → Point τ → Prop
  | start : Called e p [] p
  | move {called : List CallbackId} {q r : Point τ} (before : Called e p called q)
      (hmove : Move e q r) : Called e p (called ++ q.calls e) r

/-- Every course tells the handlers that are called on it. -/
theorem Called.of_course (h : Course e p q) : ∃ called, Called e p called q := by
  induction h with
  | refl => exact ⟨[], .start⟩
  | tail _ hmove ih =>
    obtain ⟨called, hcalled⟩ := ih
    exact ⟨_, hcalled.move hmove⟩

/-- Once the handlers of some of the listeners have returned, in their order, each of the listeners
has the handlers that it had, and is not late. -/
def Steady (e : EventId) (ls : List ListenerId) (w : World (Stage τ)) : Prop :=
  ∀ done, done <+: ls → ∀ w', ReturnEach e (done.flatMap w.host.handlers) w w' →
    ∀ l ∈ ls, w'.host.handlers l = w.host.handlers l ∧ ¬ w'.host.Late e l

namespace Steady

/-- Listeners that are steady were bound before the event. -/
theorem early (h : Steady e ls w) (hl : l ∈ ls) : ¬ w.host.Late e l :=
  (h [] List.nil_prefix w (.nil w) l hl).2

/-- The first listener is done, and the others are as steady as before. -/
theorem tail (h : Steady e (l :: rest) w) (hreturns : ReturnEach e (w.host.handlers l) w w') :
    (∀ l' ∈ rest, w'.host.handlers l' = w.host.handlers l') ∧ Steady e rest w' := by
  have hfirst : ReturnEach e ([l].flatMap w.host.handlers) w w' := by
    rwa [List.flatMap_singleton]
  have hsame : ∀ l' ∈ rest, w'.host.handlers l' = w.host.handlers l' := fun l' hl' =>
    (h [l] ⟨rest, rfl⟩ w' hfirst l' (List.mem_cons_of_mem _ hl')).1
  refine ⟨hsame, fun done hdone w'' hlater l' hl' => ?_⟩
  rw [List.flatMap_congr fun l' hl' => hsame l' (hdone.subset hl')] at hlater
  have hboth : ReturnEach e ((l :: done).flatMap w.host.handlers) w w'' := by
    rw [List.flatMap_cons]
    exact hreturns.append hlater
  rw [hsame l' hl']
  exact h (l :: done) (List.cons_prefix_cons.2 ⟨rfl, hdone⟩) w'' hboth l'
    (List.mem_cons_of_mem _ hl')

/-- **Listeners that stay as they are have their turns one after the other.** -/
theorem course (h : Steady e (done ++ rest) w)
    (hreturns : ReturnEach e (done.flatMap w.host.handlers) w w') (path : List NodeId)
    (count : Nat) :
    Course e ⟨w, done ++ rest, path, count⟩ ⟨w', rest, path, count + done.length⟩ := by
  induction done generalizing w count with
  | nil =>
    cases hreturns
    exact .refl
  | cons l done ih =>
    rw [List.flatMap_cons] at hreturns
    obtain ⟨w₁, hfirst, hlater⟩ := hreturns.of_append
    obtain ⟨hsame, htail⟩ := h.tail hfirst
    rw [← List.flatMap_congr fun l' hl' => hsame l' (List.mem_append_left _ hl')] at hlater
    have hcourse : Course e ⟨w₁, done ++ rest, path, count + 1⟩
        ⟨w', rest, path, count + 1 + done.length⟩ := ih htail hlater (count + 1)
    rw [Nat.add_right_comm] at hcourse
    exact .head (.run (h.early List.mem_cons_self) hfirst) hcourse

end Steady

/-- An early listener has its handlers called. -/
theorem calls_of_early (h : ¬ w.host.Late e l) :
    calls e ⟨w, l :: rest, path, count⟩ = w.host.handlers l := by
  rw [calls, runs_of_early h, List.flatMap_singleton]

/-- Before the target, at it, or behind it: as long as the dispatch is at its target it has called
the handlers of some of the listeners that were found there, in their order. -/
theorem Called.at_target {called : List CallbackId}
    (hsteady : Steady e (w.host.document.listenersFor n (w.host.event e).kind) w)
    (h : Called e (.ofDispatch w n) called q) :
    (q = .ofDispatch w n ∧ called = []) ∨
    (q.path = w.host.document.ancestors n ∧ ∃ done,
      done ++ q.pending = w.host.document.listenersFor n (w.host.event e).kind ∧
        called = done.flatMap w.host.handlers ∧ ReturnEach e called w q.world) ∨
    q.path.length < (w.host.document.ancestors n).length := by
  induction h with
  | start => exact .inl ⟨rfl, rfl⟩
  | @move called q r _ hmove ih =>
    rcases ih with ⟨rfl, rfl⟩ | ⟨hpath, done, hlisteners, rfl, hreturns⟩ | hpath
    · cases hmove with
      | visit going => exact .inr (.inl ⟨rfl, [], rfl, rfl, .nil w⟩)
    · have hdone : done <+: w.host.document.listenersFor n (w.host.event e).kind :=
        ⟨q.pending, hlisteners⟩
      have hkept := hsteady done hdone q.world hreturns
      cases hmove with
      | @pass w₁ l rest path count late =>
        have hl := hlisteners ▸ List.mem_append_right done List.mem_cons_self
        exact absurd late (hkept l hl).2
      | @run w₁ w₂ l rest path count early returns =>
        have hl := hlisteners ▸ List.mem_append_right done List.mem_cons_self
        have hcalls : done.flatMap w.host.handlers ++ calls e ⟨w₁, l :: rest, path, count⟩ =
            (done ++ [l]).flatMap w.host.handlers := by
          rw [calls_of_early early, (hkept l hl).1, List.flatMap_append, List.flatMap_singleton]
        refine .inr (.inl ⟨hpath, done ++ [l], ?_, hcalls, ?_⟩)
        · rw [← hlisteners, List.append_assoc]
          rfl
        · rw [calls_of_early early]
          exact hreturns.append returns
      | visit going =>
        refine .inr (.inr ?_)
        rw [← hpath]
        exact Nat.lt_succ_self _
    · exact .inr (.inr (Nat.lt_of_le_of_lt hmove.path_suffix.length_le hpath))

end Point

/-! ## At the target -/

/-- A dispatch calls these handlers at its target one after the other, as far as they return, and
no others, and counts so many listeners. -/
structure CallsAtTarget (e : EventId) (w : World (Stage τ)) (n : NodeId)
    (handlers : List CallbackId) (count : Nat) (next : Nat → Program (Stage τ))
    (frames : List (Frame (Stage τ))) : Prop where
  /-- At every point at which the target has been reached and no other node yet, the handlers that
  were called are the first ones, and they have returned. -/
  called : ∀ called p, Point.Called e (.ofDispatch w n) called p →
    p.path = w.host.document.ancestors n → called <+: handlers ∧ ReturnEach e called w p.world
  /-- Each handler is called when those before it have returned. -/
  turn : ∀ before c after, handlers = before ++ c :: after → ∀ w', ReturnEach e before w w' →
    ∃ later, Leads ⟨w, .run (dispatch e n next), frames⟩
      ⟨w', .run (.call c e.index later), frames⟩
  /-- When all have returned the dispatch goes on to the ancestors. -/
  finish : ∀ w', ReturnEach e handlers w w' →
    Leads ⟨w, .run (dispatch e n next), frames⟩
      ⟨w', .run (visitPath e (w.host.document.ancestors n) count next), frames⟩

/-- An element of lists that are put together is in one of them, behind what comes before. -/
theorem exists_of_flatMap_eq {α β : Type} {f : α → List β} {list : List α} {before after : List β}
    {b : β} (h : list.flatMap f = before ++ b :: after) :
    ∃ done a rest inner outer, list = done ++ a :: rest ∧ f a = inner ++ b :: outer ∧
      before = done.flatMap f ++ inner := by
  induction list generalizing before with
  | nil => exact absurd h (by simp)
  | cons a list ih =>
    rw [List.flatMap_cons] at h
    have hlater {later : List β} (hbefore : before = f a ++ later)
        (h : list.flatMap f = later ++ b :: after) :
        ∃ done a' rest inner outer, a :: list = done ++ a' :: rest ∧ f a' = inner ++ b :: outer ∧
          before = done.flatMap f ++ inner := by
      obtain ⟨done, a', rest, inner, outer, rfl, ha', rfl⟩ := ih h
      refine ⟨a :: done, a', rest, inner, outer, rfl, ha', ?_⟩
      rw [hbefore, List.flatMap_cons, List.append_assoc]
    rcases List.append_eq_append_iff.1 h with ⟨later, hbefore, hlist⟩ | ⟨inner, ha, hlist⟩
    · exact hlater hbefore hlist
    · cases inner with
      | nil =>
        rw [List.append_nil] at ha
        have hbefore : before = f a ++ [] := by rw [ha, List.append_nil]
        exact hlater hbefore hlist.symm
      | cons b' outer =>
        obtain ⟨rfl, -⟩ := List.cons.inj hlist
        exact ⟨[], a, list, before, outer, rfl, ha, rfl⟩

/-- **What a dispatch calls at its target**, if the listeners that are found there stay as they
are. -/
theorem callsAtTarget_of_steady (going : (w.host.event e).stopped = false)
    (h : Point.Steady e (w.host.document.listenersFor n (w.host.event e).kind) w)
    (next : Nat → Program (Stage τ)) (frames : List (Frame (Stage τ))) :
    CallsAtTarget e w n
      ((w.host.document.listenersFor n (w.host.event e).kind).flatMap w.host.handlers)
      (w.host.document.listenersFor n (w.host.event e).kind).length next frames := by
  have hreached : Leads ⟨w, .run (dispatch e n next), frames⟩
      ((Point.reached e w n (w.host.document.ancestors n) 0).machine e next frames) :=
    (Point.dispatch_leads w e n next frames).trans (Point.Move.visit going).leads
  constructor
  case called =>
    intro called p hcalled hpath
    rcases hcalled.at_target h with ⟨rfl, -⟩ | ⟨-, done, hdone, rfl, hreturns⟩ | hlt
    · exact absurd hpath (List.cons_ne_self _ _)
    · refine ⟨?_, hreturns⟩
      rw [← hdone, List.flatMap_append]
      exact List.prefix_append ..
    · rw [hpath] at hlt
      exact absurd hlt (Nat.lt_irrefl _)
  case turn =>
    intro before c after hhandlers w' hreturns
    obtain ⟨done, l, rest, inner, outer, hlisteners, hl, rfl⟩ := exists_of_flatMap_eq hhandlers
    obtain ⟨w₁, hdone, hinner⟩ := hreturns.of_append
    rw [Point.reached, hlisteners] at hreached
    rw [hlisteners] at h
    -- The handlers that were called so far have left the rest of the target as it was.
    have hkept := h done (List.prefix_append ..) w₁ hdone l
      (List.mem_append_right _ List.mem_cons_self)
    have hturn : (Point.machine e next frames
        ⟨w₁, l :: rest, w.host.document.ancestors n, 0 + done.length⟩).step? =
        some ⟨w₁, .run (callEach e inner (callEach e (c :: outer) (Point.program e next
          ⟨w₁, rest, w.host.document.ancestors n, 0 + done.length + 1⟩))), frames⟩ := by
      rw [Point.step?_turn, if_neg hkept.2, hkept.1, hl, callEach_append]
    exact ⟨_, hreached.trans
      ((h.course hdone _ 0).leads.trans (.step hturn (hinner.leads _ frames)))⟩
  case finish =>
    intro w' hreturns
    rw [← List.append_nil (w.host.document.listenersFor ..)] at h
    have hcourse := h.course hreturns (w.host.document.ancestors n) 0
    rw [List.append_nil, Nat.zero_add] at hcourse
    exact hreached.trans hcourse.leads

/-- Handlers change the host as the programs of the world do. -/
theorem ReturnEach.host {R : Stage τ → Stage τ → Prop} {callbacks : List CallbackId}
    (h : ReturnEach e callbacks w w') (hw : w.Confined R) :
    ReflTransGen R w.host w'.host := by
  have hbegin : Machine.Confined R ⟨w, .run (callEach e callbacks (.ret .undefined)), []⟩ := by
    refine ⟨hw, ?_, fun _ hframe => absurd hframe List.not_mem_nil⟩
    rintro program ⟨rfl⟩
    have hcalls : (callEach e callbacks (.ret .undefined)).Confined R none :=
      callEach_confined callbacks trivial
    exact hcalls.known _
  exact (hbegin.leads (h.leads _ _)).2

/-- The listeners of a node stay as they are while handlers leave its props alone. -/
theorem steady_of_spared (howns : w.host.document.Owns fun _ => True)
    (hevent : e.index < w.host.events.size)
    (hearly : ∀ key l, w.host.document.Binds n key l → ¬ w.host.Late e l) {ls : List ListenerId}
    (hls : ∀ l ∈ ls, ∃ key, w.host.document.Binds n key l)
    (hspares : ∀ done, done <+: ls → ∀ w', ReturnEach e (done.flatMap w.host.handlers) w w' →
      w.host.Spared n w'.host) : Point.Steady e ls w := by
  intro done hdone w' hreturns l hl
  obtain ⟨key, hbinds⟩ := hls l hl
  have hspared := hspares done hdone w' hreturns
  have hlistener := ((hspared.document hbinds.has).leaves rfl).listener howns hbinds
  refine ⟨congrArg Listener.callbacks hlistener, ?_⟩
  rw [Stage.Late, hlistener, (hspared.operated.ages.events e hevent).2]
  exact hearly key l hbinds

end View
end ReactiveView
