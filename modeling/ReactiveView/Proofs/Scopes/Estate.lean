/-
# What scopes own, and who takes it

An *estate* is what is in the hands of scopes: the child scopes and the cleanups that each of
them owns, and what the disposals under way have taken out and have still before them
(`Estate`).  It changes by few kinds of events (`Estate.Event`).  A disposal takes out all that
a scope owns, goes down into the child scopes one after the other, and then runs the cleanups.

Nothing is lost on the way: what a scope owns it keeps until it is taken out, and what a
disposal has taken out is dealt with before the disposal is over (`Estate.ran_of_over`,
`Estate.taken_of_over`); so the disposal of a root reaches its whole tree
(`Estate.ran_of_inTree`).  Nothing is repeated: at every time a cleanup is in one place only
(`Single`), and none runs twice (`Estate.RegistersOnce.nodup_ranBy`).
-/

import Mathlib.Data.List.Nodup
import Mathlib.Data.List.Perm.Basic
import Mathlib.Data.Nat.Find
import Mathlib.Logic.Function.Basic
import Mathlib.Logic.Relation
import ReactiveView.Reactive.Program

namespace ReactiveView
namespace Reactive

/-- What is in the hands of scopes, with cleanups `α`. -/
@[ext]
structure Estate (α : Type) where
  /-- The child scopes that a scope owns, in the order in which they were made. -/
  children : ScopeId → List ScopeId
  /-- The cleanups that a scope owns, in the order in which they were registered. -/
  cleanups : ScopeId → List α
  /-- The child scopes and the cleanups that each disposal under way has still before it,
  innermost first. -/
  disposals : List (List ScopeId × List α)

namespace Estate

/-- What happens to an estate in one step. -/
inductive Event (α : Type) where
  | idle
  /-- A cleanup is registered with a scope. -/
  | register (s : ScopeId) (cleanup : α)
  /-- A scope gets a child. -/
  | adopt (s child : ScopeId)
  /-- A disposal of a scope begins, and not as that of a child. -/
  | take (s : ScopeId)
  /-- The innermost disposal begins the disposal of its next child scope. -/
  | descend
  /-- The innermost disposal runs its next cleanup. -/
  | run
  /-- The innermost disposal, with nothing before it any more, is over. -/
  | close
  deriving DecidableEq

variable {α β : Type}

/-- Nothing is owned, and no disposal is under way. -/
def empty : Estate α := ⟨fun _ => [], fun _ => [], []⟩

/-- A disposal of a scope begins within others. -/
def takeOut (E : Estate α) (s : ScopeId) (others : List (List ScopeId × List α)) : Estate α where
  children := Function.update E.children s []
  cleanups := Function.update E.cleanups s []
  disposals := (E.children s, E.cleanups s) :: others

/-- The estate after an event. -/
def apply (E : Estate α) : Event α → Estate α
  | .idle => E
  | .register s a => { E with cleanups := Function.update E.cleanups s (E.cleanups s ++ [a]) }
  | .adopt s c => { E with children := Function.update E.children s (E.children s ++ [c]) }
  | .take s => E.takeOut s E.disposals
  | .descend =>
    match E.disposals with
    | (c :: scopes, cleanups) :: others => E.takeOut c ((scopes, cleanups) :: others)
    | _ => E
  | .run =>
    match E.disposals with
    | ([], _ :: cleanups) :: others => { E with disposals := ([], cleanups) :: others }
    | _ => E
  | .close =>
    match E.disposals with
    | ([], []) :: others => { E with disposals := others }
    | _ => E

/-- The scope whose belongings the event takes out. -/
def taken? (E : Estate α) : Event α → Option ScopeId
  | .take s => some s
  | .descend =>
    match E.disposals with
    | (c :: _, _) :: _ => some c
    | _ => none
  | _ => none

/-- The cleanup that the event registers. -/
def Event.cleanup? : Event α → Option α
  | register _ a => some a
  | _ => none

/-- The cleanup that the event runs. -/
def ran (E : Estate α) : Event α → List α
  | .run =>
    match E.disposals with
    | ([], a :: _) :: _ => [a]
    | _ => []
  | _ => []

/-- The estate after the first `k` events. -/
def after (events : Nat → Event α) : Nat → Estate α
  | 0 => empty
  | k + 1 => (after events k).apply (events k)

/-- The cleanups that the first `k` events have run, in order. -/
def ranBy (events : Nat → Event α) : Nat → List α
  | 0 => []
  | k + 1 => ranBy events k ++ (after events k).ran (events k)

/-! ## Other cleanups -/

/-- The estate with its cleanups replaced. -/
def map (f : α → β) (E : Estate α) : Estate β where
  children := E.children
  cleanups := fun s => (E.cleanups s).map f
  disposals := E.disposals.map fun d => (d.1, d.2.map f)

/-- The event with its cleanup replaced. -/
def Event.map (f : α → β) : Event α → Event β
  | idle => idle
  | register s a => register s (f a)
  | adopt s c => adopt s c
  | take s => take s
  | descend => descend
  | run => run
  | close => close

/-- The map goes scope by scope. -/
theorem map_update (f : α → β) (cleanups : ScopeId → List α) (s : ScopeId) (list : List α) :
    (fun s' => (Function.update cleanups s list s').map f) =
      Function.update (fun s' => (cleanups s').map f) s (list.map f) :=
  funext (Function.apply_update (fun _ => List.map f) cleanups s list)

/-- To replace cleanups and then to take them out comes to the same as the other way round. -/
theorem map_takeOut (f : α → β) (E : Estate α) (s : ScopeId)
    (others : List (List ScopeId × List α)) :
    (E.takeOut s others).map f =
      (E.map f).takeOut s (others.map fun d => (d.1, d.2.map f)) := by
  simp only [map, takeOut, map_update, List.map_nil, List.map_cons]

/-- **Events do not depend on what the cleanups are.** -/
theorem map_apply (f : α → β) (E : Estate α) (event : Event α) :
    (E.apply event).map f = (E.map f).apply (event.map f) := by
  obtain ⟨children, cleanups, disposals⟩ := E
  cases event with
  | register s a => simp [apply, Event.map, map, map_update]
  | take s => exact map_takeOut f _ s disposals
  | descend =>
    rcases disposals with _ | ⟨⟨_ | ⟨c, scopes⟩, list⟩, others⟩
    · rfl
    · rfl
    · exact map_takeOut f _ c _
  | run => rcases disposals with _ | ⟨⟨_ | ⟨c, scopes⟩, _ | ⟨a, list⟩⟩, others⟩ <;> rfl
  | close => rcases disposals with _ | ⟨⟨_ | ⟨c, scopes⟩, _ | ⟨a, list⟩⟩, others⟩ <;> rfl
  | _ => rfl

/-- What runs is what is replaced for it. -/
theorem ran_map (f : α → β) (E : Estate α) (event : Event α) :
    (E.map f).ran (event.map f) = (E.ran event).map f := by
  obtain ⟨children, cleanups, disposals⟩ := E
  cases event with
  | run => rcases disposals with _ | ⟨⟨_ | ⟨c, scopes⟩, _ | ⟨a, list⟩⟩, others⟩ <;> rfl
  | _ => rfl

/-! ## What one event does -/

variable {E : Estate α} {event : Event α} {s c : ScopeId} {a : α} {d : Nat}

/-- What is taken out of a scope is before a new disposal, within those under way. -/
theorem disposals_of_taken (h : E.taken? event = some s) :
    ∃ others, (E.apply event).disposals = (E.children s, E.cleanups s) :: others ∧
      others.length = E.disposals.length := by
  obtain ⟨children, cleanups, disposals⟩ := E
  cases event with
  | take s' =>
    obtain rfl := Option.some.inj h
    exact ⟨disposals, rfl, rfl⟩
  | descend =>
    rcases disposals with _ | ⟨⟨_ | ⟨c, scopes⟩, list⟩, others⟩
    · exact absurd h (by simp [taken?])
    · exact absurd h (by simp [taken?])
    · obtain rfl := Option.some.inj h
      exact ⟨(scopes, list) :: others, rfl, rfl⟩
  | _ => exact absurd h (by simp [taken?])

/-- A cleanup that runs is one that a disposal had before it. -/
theorem mem_of_mem_ran (h : a ∈ E.ran event) : a ∈ E.disposals.flatMap Prod.snd := by
  obtain ⟨children, cleanups, disposals⟩ := E
  cases event with
  | run =>
    rcases disposals with _ | ⟨⟨_ | ⟨c, scopes⟩, _ | ⟨a, list⟩⟩, others⟩
    case cons.nil.cons => exact List.mem_append_left _ (List.mem_cons.2 (.inl (List.mem_singleton.1 h)))
    all_goals exact absurd h List.not_mem_nil
  | _ => exact absurd h List.not_mem_nil

/-- A scope whose belongings are not taken out keeps them. -/
theorem kept_of_not_taken (h : E.taken? event ≠ some s) :
    (E.children s).Sublist ((E.apply event).children s) ∧
      (E.cleanups s).Sublist ((E.apply event).cleanups s) := by
  have hsame (s' : ScopeId) (hne : s' ≠ s) (others : List (List ScopeId × List α)) :
      (E.children s).Sublist ((E.takeOut s' others).children s) ∧
        (E.cleanups s).Sublist ((E.takeOut s' others).cleanups s) := by
    simp [takeOut, Function.update_of_ne (Ne.symm hne)]
  obtain ⟨children, cleanups, disposals⟩ := E
  cases event with
  | register s' a =>
    by_cases hs : s = s'
    · subst hs
      simp [apply]
    · simp [apply, Function.update_of_ne hs]
  | adopt s' c =>
    by_cases hs : s = s'
    · subst hs
      simp [apply]
    · simp [apply, Function.update_of_ne hs]
  | take s' => exact hsame s' (fun hs => h (by rw [hs]; rfl)) disposals
  | descend =>
    rcases disposals with _ | ⟨⟨_ | ⟨c, scopes⟩, list⟩, others⟩
    · exact ⟨.refl _, .refl _⟩
    · exact ⟨.refl _, .refl _⟩
    · exact hsame c (fun hs => h (by rw [hs]; rfl)) _
  | run =>
    rcases disposals with _ | ⟨⟨_ | ⟨c, scopes⟩, _ | ⟨a, list⟩⟩, others⟩ <;>
      exact ⟨.refl _, .refl _⟩
  | close =>
    rcases disposals with _ | ⟨⟨_ | ⟨c, scopes⟩, _ | ⟨a, list⟩⟩, others⟩ <;>
      exact ⟨.refl _, .refl _⟩
  | idle => exact ⟨.refl _, .refl _⟩

/-- The disposal with so many others around it has this before it. -/
def At (E : Estate α) (d : Nat) (P : List ScopeId × List α → Prop) : Prop :=
  ∃ inner entry outer, E.disposals = inner ++ entry :: outer ∧ outer.length = d ∧ P entry

/-- As many disposals are under way as there are around it, and it. -/
theorem At.lt_length {P : List ScopeId × List α → Prop} (h : E.At d P) :
    d < E.disposals.length := by
  obtain ⟨inner, entry, outer, hdisposals, rfl, -⟩ := h
  rw [hdisposals, List.length_append, List.length_cons]
  omega

/-- An event leaves all disposals but the innermost one as they are.  It deals with what that
one has before it, or leaves it there. -/
theorem At.apply {P Q : List ScopeId × List α → Prop} (h : E.At d P) (hPQ : ∀ entry, P entry → Q entry)
    (hdescend : ∀ c scopes list, E.taken? event = some c → P (c :: scopes, list) →
      Q (scopes, list))
    (hrun : ∀ a list, E.ran event = [a] → E.disposals.length = d + 1 → P ([], a :: list) →
      Q ([], list))
    (hclose : E.disposals.length = d + 1 → ¬ P ([], [])) : (E.apply event).At d Q := by
  obtain ⟨inner, entry, outer, hdisposals, hlength, hP⟩ := h
  obtain ⟨children, cleanups, disposals⟩ := E
  obtain rfl : disposals = inner ++ entry :: outer := hdisposals
  cases event with
  | take s => exact ⟨_ :: inner, entry, outer, rfl, hlength, hPQ _ hP⟩
  | descend =>
    rcases inner with _ | ⟨⟨_ | ⟨c, scopes⟩, list⟩, inner⟩
    · rcases entry with ⟨_ | ⟨c, scopes⟩, list⟩
      · exact ⟨[], _, outer, rfl, hlength, hPQ _ hP⟩
      · exact ⟨[_], _, outer, rfl, hlength, hdescend c scopes list rfl hP⟩
    · exact ⟨_ :: inner, entry, outer, rfl, hlength, hPQ _ hP⟩
    · exact ⟨_ :: _ :: inner, entry, outer, rfl, hlength, hPQ _ hP⟩
  | run =>
    rcases inner with _ | ⟨⟨_ | ⟨c, scopes⟩, _ | ⟨a, list⟩⟩, inner⟩
    · rcases entry with ⟨_ | ⟨c, scopes⟩, _ | ⟨a, list⟩⟩
      · exact ⟨[], _, outer, rfl, hlength, hPQ _ hP⟩
      · exact ⟨[], _, outer, rfl, hlength, hrun a list rfl (congrArg (· + 1) hlength) hP⟩
      · exact ⟨[], _, outer, rfl, hlength, hPQ _ hP⟩
      · exact ⟨[], _, outer, rfl, hlength, hPQ _ hP⟩
    all_goals exact ⟨_ :: inner, entry, outer, rfl, hlength, hPQ _ hP⟩
  | close =>
    rcases inner with _ | ⟨⟨_ | ⟨c, scopes⟩, _ | ⟨a, list⟩⟩, inner⟩
    · rcases entry with ⟨_ | ⟨c, scopes⟩, _ | ⟨a, list⟩⟩
      · exact absurd hP (hclose (congrArg (· + 1) hlength))
      all_goals exact ⟨[], _, outer, rfl, hlength, hPQ _ hP⟩
    · exact ⟨inner, entry, outer, rfl, hlength, hPQ _ hP⟩
    all_goals exact ⟨_ :: inner, entry, outer, rfl, hlength, hPQ _ hP⟩
  | _ => exact ⟨inner, entry, outer, rfl, hlength, hPQ _ hP⟩

/-- A cleanup that a disposal has before it is run, or the disposal has it still before
it. -/
theorem At.cleanup (event : Event α) (h : E.At d fun entry => a ∈ entry.2) :
    a ∈ E.ran event ∨ (E.apply event).At d fun entry => a ∈ entry.2 := by
  by_cases hran : a ∈ E.ran event
  · exact .inl hran
  · refine .inr (h.apply (fun _ => id) (fun _ _ _ _ => id) ?_ fun _ => List.not_mem_nil)
    intro a' list hran' _ hmem
    refine (List.mem_cons.1 hmem).resolve_left ?_
    rintro rfl
    exact hran (hran' ▸ List.mem_singleton_self a)

/-- A child scope that a disposal has before it is disposed, or the disposal has it still
before it. -/
theorem At.child (event : Event α) (h : E.At d fun entry => c ∈ entry.1) :
    E.taken? event = some c ∨ (E.apply event).At d fun entry => c ∈ entry.1 := by
  by_cases htaken : E.taken? event = some c
  · exact .inl htaken
  · refine .inr (h.apply (fun _ => id) ?_ (fun _ _ _ _ => id) fun _ => List.not_mem_nil)
    intro c' scopes list htaken' hmem
    exact (List.mem_cons.1 hmem).resolve_left fun he => htaken (he ▸ htaken')

/-! ## Nothing is lost -/

variable {events : Nat → Event α} {i j k l : Nat}

/-- What has run stays listed, in order. -/
theorem ranBy_sublist (hij : i ≤ j) : (ranBy events i).Sublist (ranBy events j) := by
  induction j, hij using Nat.le_induction with
  | base => exact .refl _
  | succ j _ ih => exact ih.trans (List.sublist_append_left _ _)

/-- What has run ran at some event. -/
theorem mem_ranBy : a ∈ ranBy events j ↔ ∃ l < j, a ∈ (after events l).ran (events l) := by
  induction j with
  | zero => simp [ranBy]
  | succ j ih =>
    rw [ranBy, List.mem_append, ih]
    constructor
    · rintro (⟨l, hl, h⟩ | h)
      · exact ⟨l, Nat.lt_succ_of_lt hl, h⟩
      · exact ⟨j, Nat.lt_succ_self j, h⟩
    · rintro ⟨l, hl, h⟩
      rcases Nat.lt_succ_iff_lt_or_eq.1 hl with hl | rfl
      · exact .inl ⟨l, hl, h⟩
      · exact .inr h

/-- As long as a scope is not disposed, it keeps what it owns. -/
theorem kept (hij : i ≤ j)
    (hnot : ∀ l, i ≤ l → l < j → (after events l).taken? (events l) ≠ some s) :
    ((after events i).children s).Sublist ((after events j).children s) ∧
      ((after events i).cleanups s).Sublist ((after events j).cleanups s) := by
  induction j, hij using Nat.le_induction with
  | base => exact ⟨.refl _, .refl _⟩
  | succ j hij ih =>
    obtain ⟨hchildren, hcleanups⟩ := ih fun l hil hlj => hnot l hil (Nat.lt_succ_of_lt hlj)
    obtain ⟨hchildren', hcleanups'⟩ := kept_of_not_taken (hnot j hij (Nat.lt_succ_self j))
    exact ⟨hchildren.trans hchildren', hcleanups.trans hcleanups'⟩

/-- **What a disposal has taken out has run when the disposal is over.** -/
theorem ran_of_over (htaken : (after events l).taken? (events l) = some s) (hlj : l < j)
    (hover : (after events j).disposals.length ≤ (after events l).disposals.length)
    (h : a ∈ (after events l).cleanups s) : a ∈ ranBy events j := by
  have hstays : ∀ k, l < k → a ∈ ranBy events k ∨
      (after events k).At (after events l).disposals.length fun entry => a ∈ entry.2 := by
    intro k hlk
    induction k, hlk using Nat.le_induction with
    | base =>
      obtain ⟨others, hdisposals, hlength⟩ := disposals_of_taken htaken
      exact .inr ⟨[], _, others, hdisposals, hlength, h⟩
    | succ k _ ih =>
      rcases ih with hran | hat
      · exact .inl (List.mem_append_left _ hran)
      · exact (hat.cleanup (events k)).imp_left (List.mem_append_right _)
  refine (hstays j hlj).resolve_right ?_
  intro hat
  exact absurd hat.lt_length (Nat.not_lt.2 hover)

/-- **The child scopes that a disposal has taken out were disposed when the disposal is
over.** -/
theorem taken_of_over (htaken : (after events l).taken? (events l) = some s) (hlj : l < j)
    (hover : (after events j).disposals.length ≤ (after events l).disposals.length)
    (h : c ∈ (after events l).children s) :
    ∃ k, l < k ∧ k < j ∧ (after events k).taken? (events k) = some c := by
  have hstays : ∀ k, l < k → (∃ k', l < k' ∧ k' < k ∧
      (after events k').taken? (events k') = some c) ∨
        (after events k).At (after events l).disposals.length fun entry => c ∈ entry.1 := by
    intro k hlk
    induction k, hlk using Nat.le_induction with
    | base =>
      obtain ⟨others, hdisposals, hlength⟩ := disposals_of_taken htaken
      exact .inr ⟨[], _, others, hdisposals, hlength, h⟩
    | succ k hlk ih =>
      rcases ih with ⟨k', hlk', hk', htaken'⟩ | hat
      · exact .inl ⟨k', hlk', Nat.lt_succ_of_lt hk', htaken'⟩
      · exact (hat.child (events k)).imp_left fun htaken' =>
          ⟨k, hlk, Nat.lt_succ_self k, htaken'⟩
  refine (hstays j hlj).resolve_right ?_
  intro hat
  exact absurd hat.lt_length (Nat.not_lt.2 hover)

/-- A scope keeps what it owns, or there is a first time at which it is taken out. -/
theorem kept_or_taken (events : Nat → Event α) (s : ScopeId) (i j : Nat) :
    (∀ l, i ≤ l → l < j → (after events l).taken? (events l) ≠ some s) ∨
      ∃ l, i ≤ l ∧ l < j ∧ (after events l).taken? (events l) = some s ∧
        ∀ k, i ≤ k → k < l → (after events k).taken? (events k) ≠ some s := by
  classical
  by_cases h : ∃ l, i ≤ l ∧ l < j ∧ (after events l).taken? (events l) = some s
  · obtain ⟨hil, hlj, htaken⟩ := Nat.find_spec h
    refine .inr ⟨Nat.find h, hil, hlj, htaken, ?_⟩
    intro k hik hkl htaken'
    exact Nat.find_min h hkl ⟨hik, Nat.lt_trans hkl hlj, htaken'⟩
  · refine .inl ?_
    intro l hil hlj htaken
    exact h ⟨l, hil, hlj, htaken⟩

/-- When no disposal is under way, every cleanup that was once owned has run, or its scope owns
it still and has not been disposed since. -/
theorem ran_or_kept (hij : i ≤ j) (hrest : (after events j).disposals = [])
    (h : a ∈ (after events i).cleanups s) :
    a ∈ ranBy events j ∨ a ∈ (after events j).cleanups s ∧
      ∀ l, i ≤ l → l < j → (after events l).taken? (events l) ≠ some s := by
  rcases kept_or_taken events s i j with hnot | ⟨l, hil, hlj, htaken, hfirst⟩
  · exact .inr ⟨(kept hij hnot).2.subset h, hnot⟩
  · refine .inl (ran_of_over htaken hlj ?_ ((kept hil hfirst).2.subset h))
    rw [hrest]
    exact Nat.zero_le _

/-- The scope is one of a tree: its root, or owned within the tree. -/
def InTree (E : Estate α) : ScopeId → ScopeId → Prop :=
  Relation.ReflTransGen fun parent child => child ∈ E.children parent

/-- As soon as the child scopes of a root are disposed, with fewer disposals under way than
ever in between, the whole tree below it is. -/
theorem taken_of_inTree {root : ScopeId}
    (hroot : ∀ c ∈ (after events i).children root,
      ∃ l, i ≤ l ∧ l < j ∧ (after events l).taken? (events l) = some c)
    (hover : ∀ l, i ≤ l → l < j → (after events l).taken? (events l) ≠ some root →
      (after events j).disposals.length ≤ (after events l).disposals.length)
    (hs : (after events i).InTree root s) :
    s = root ∨ ∃ l, i ≤ l ∧ l < j ∧ (after events l).taken? (events l) = some s := by
  induction hs with
  | refl => exact .inl rfl
  | @tail p c _ hchild ih =>
    by_cases hp : p = root
    · exact .inr (hroot c (hp ▸ hchild))
    obtain ⟨l, hil, hlj, htaken⟩ := ih.resolve_left hp
    rcases kept_or_taken events p i j with hnot | ⟨l, hil, hlj, htaken, hfirst⟩
    · exact absurd htaken (hnot l hil hlj)
    · have hne : (after events l).taken? (events l) ≠ some root := by
        rw [htaken]
        exact fun he => hp (Option.some.inj he)
      obtain ⟨k, hlk, hkj, htaken'⟩ := taken_of_over htaken hlj (hover l hil hlj hne)
        ((kept hil hfirst).1.subset hchild)
      exact .inr ⟨k, Nat.le_trans hil (Nat.le_of_lt hlk), hkj, htaken'⟩

/-- **When no disposal is under way any more, every cleanup of the tree of a disposed scope
has run.** -/
theorem ran_of_inTree {root : ScopeId} (htaken : (after events i).taken? (events i) = some root)
    (hij : i < j) (hrest : (after events j).disposals = [])
    (hs : (after events i).InTree root s) (h : a ∈ (after events i).cleanups s) :
    a ∈ ranBy events j := by
  have hover (l : Nat) : (after events j).disposals.length ≤ (after events l).disposals.length := by
    simp [hrest]
  have hroot : ∀ c ∈ (after events i).children root,
      ∃ l, i ≤ l ∧ l < j ∧ (after events l).taken? (events l) = some c := by
    intro c hc
    obtain ⟨l, hil, hlj, htaken'⟩ := taken_of_over htaken hij (hover i) hc
    exact ⟨l, Nat.le_of_lt hil, hlj, htaken'⟩
  have hdisposed : ∃ l, i ≤ l ∧ l < j ∧ (after events l).taken? (events l) = some s := by
    rcases taken_of_inTree hroot (fun l _ _ _ => hover l) hs with rfl | htaken'
    · exact ⟨i, Nat.le_refl i, hij, htaken⟩
    · exact htaken'
  obtain ⟨l, hil, hlj, htaken'⟩ := hdisposed
  refine (ran_or_kept (Nat.le_of_lt hij) hrest h).resolve_right ?_
  rintro ⟨-, hnot⟩
  exact hnot l hil hlj htaken'

end Estate

/-! ## Nothing is repeated -/

/-- No item is owned twice, none is out twice, and none is owned and out.  All are known. -/
structure Single {β : Type} (known : β → Prop) (owned : ScopeId → List β) (out : List β) :
    Prop where
  nodup : ∀ s, (owned s).Nodup
  apart : ∀ {s s' b}, b ∈ owned s → b ∈ owned s' → s = s'
  nodup_out : out.Nodup
  not_out : ∀ {s b}, b ∈ owned s → b ∉ out
  known_owned : ∀ {s b}, b ∈ owned s → known b
  known_out : ∀ {b}, b ∈ out → known b

namespace Single

variable {β : Type} {known known' : β → Prop} {owned : ScopeId → List β} {out out' : List β}

/-- Nothing is owned, nothing is out, and nothing needs to be known. -/
theorem empty : Single known (fun _ => []) [] where
  nodup _ := List.nodup_nil
  apart h := absurd h List.not_mem_nil
  nodup_out := List.nodup_nil
  not_out h := absurd h List.not_mem_nil
  known_owned h := absurd h List.not_mem_nil
  known_out h := absurd h List.not_mem_nil

/-- The items stay single when more of them are known. -/
theorem mono (h : Single known owned out) (hknown : ∀ b, known b → known' b) :
    Single known' owned out :=
  { h with
    known_owned := fun hb => hknown _ (h.known_owned hb)
    known_out := fun hb => hknown _ (h.known_out hb) }

/-- An item that was not known may come to a scope. -/
theorem add (h : Single known owned out) {b : β} (hnew : ¬ known b) (s : ScopeId) :
    Single (fun b' => known b' ∨ b' = b) (Function.update owned s (owned s ++ [b])) out := by
  have hmem {s' : ScopeId} {b' : β} (hb : b' ∈ Function.update owned s (owned s ++ [b]) s') :
      b' ∈ owned s' ∨ s' = s ∧ b' = b := by
    by_cases hs : s' = s
    · subst hs
      rw [Function.update_self, List.mem_append, List.mem_singleton] at hb
      exact hb.imp_right fun hb => ⟨rfl, hb⟩
    · rw [Function.update_of_ne hs] at hb
      exact .inl hb
  refine ⟨?_, ?_, h.nodup_out, ?_, ?_, fun hb => .inl (h.known_out hb)⟩
  · intro s'
    by_cases hs : s' = s
    · subst hs
      rw [Function.update_self]
      refine List.nodup_append.2 ⟨h.nodup s', List.nodup_singleton b, ?_⟩
      rintro x hx y hy rfl
      exact hnew (List.mem_singleton.1 hy ▸ h.known_owned hx)
    · rw [Function.update_of_ne hs]
      exact h.nodup s'
  · intro s₁ s₂ b' h₁ h₂
    rcases hmem h₁ with h₁ | ⟨hs₁, hb₁⟩ <;> rcases hmem h₂ with h₂ | ⟨hs₂, hb₂⟩
    · exact h.apart h₁ h₂
    · exact absurd (h.known_owned (hb₂ ▸ h₁)) hnew
    · exact absurd (h.known_owned (hb₁ ▸ h₂)) hnew
    · exact hs₁.trans hs₂.symm
  · intro s' b' hb hout
    rcases hmem hb with hb | ⟨-, rfl⟩
    · exact h.not_out hb hout
    · exact hnew (h.known_out hout)
  · intro s' b' hb
    exact (hmem hb).imp h.known_owned And.right

/-- What a scope owns may be taken out. -/
theorem takeOut (h : Single known owned out) (s : ScopeId) :
    Single known (Function.update owned s []) (owned s ++ out) := by
  have hmem {s' : ScopeId} {b : β} (hb : b ∈ Function.update owned s [] s') :
      b ∈ owned s' ∧ s' ≠ s := by
    by_cases hs : s' = s
    · subst hs
      rw [Function.update_self] at hb
      exact absurd hb List.not_mem_nil
    · rw [Function.update_of_ne hs] at hb
      exact ⟨hb, hs⟩
  refine ⟨?_, fun h₁ h₂ => h.apart (hmem h₁).1 (hmem h₂).1, ?_, ?_,
    fun hb => h.known_owned (hmem hb).1, fun hb => ?_⟩
  · intro s'
    by_cases hs : s' = s
    · subst hs
      rw [Function.update_self]
      exact List.nodup_nil
    · rw [Function.update_of_ne hs]
      exact h.nodup s'
  · refine List.nodup_append.2 ⟨h.nodup s, h.nodup_out, ?_⟩
    rintro b hb _ hb' rfl
    exact h.not_out hb hb'
  · intro s' b hb hb'
    obtain ⟨hb, hs⟩ := hmem hb
    rcases List.mem_append.1 hb' with hb' | hb'
    · exact hs (h.apart hb hb')
    · exact h.not_out hb hb'
  · exact (List.mem_append.1 hb).elim h.known_owned h.known_out

/-- What is out may go for good. -/
theorem drop (h : Single known owned out) (hout : out'.Sublist out) : Single known owned out' :=
  { h with
    nodup_out := h.nodup_out.sublist hout
    not_out := fun hb hb' => h.not_out hb (hout.subset hb')
    known_out := fun hb => h.known_out (hout.subset hb) }

/-- The order of what is out is of no matter. -/
theorem perm (h : Single known owned out) (hout : out.Perm out') : Single known owned out' :=
  { h with
    nodup_out := hout.nodup_iff.1 h.nodup_out
    not_out := fun hb hb' => h.not_out hb (hout.mem_iff.2 hb')
    known_out := fun hb => h.known_out (hout.mem_iff.2 hb) }

end Single

namespace Estate

variable {α : Type} {E E' : Estate α} {event : Event α} {events : Nat → Event α} {i j k n : Nat}
variable {s c root : ScopeId} {a : α}

/-- The child scopes stay apart, if a new one was not known. -/
theorem single_children_apply {known : ScopeId → Prop} (event : Event α)
    (h : Single known E.children (E.disposals.flatMap Prod.fst))
    (hnew : ∀ s c, event = .adopt s c → ¬ known c) :
    Single (fun c => known c ∨ ∃ s, event = .adopt s c) (E.apply event).children
      ((E.apply event).disposals.flatMap Prod.fst) := by
  obtain ⟨children, cleanups, disposals⟩ := E
  have hsame {owned : ScopeId → List ScopeId} {out : List ScopeId} (h : Single known owned out) :
      Single (fun c => known c ∨ ∃ s, event = .adopt s c) owned out := h.mono fun _ => .inl
  cases event with
  | adopt s c =>
    refine (h.add (hnew s c rfl) s).mono ?_
    rintro c' (hknown | rfl)
    · exact .inl hknown
    · exact .inr ⟨s, rfl⟩
  | take s => exact hsame (h.takeOut s)
  | descend =>
    rcases disposals with _ | ⟨⟨_ | ⟨c, scopes⟩, list⟩, others⟩
    · exact hsame h
    · exact hsame h
    · exact hsame ((h.takeOut c).drop (List.Sublist.append_left (List.sublist_cons_self c _) _))
  | run =>
    rcases disposals with _ | ⟨⟨_ | ⟨c, scopes⟩, _ | ⟨a, list⟩⟩, others⟩ <;> exact hsame h
  | close =>
    rcases disposals with _ | ⟨⟨_ | ⟨c, scopes⟩, _ | ⟨a, list⟩⟩, others⟩ <;> exact hsame h
  | _ => exact hsame h

/-- The cleanups stay apart, those that have run included, if a new one was not known. -/
theorem single_cleanups_apply {known : α → Prop} {done : List α} (event : Event α)
    (h : Single known E.cleanups (done ++ E.disposals.flatMap Prod.snd))
    (hnew : ∀ s a, event = .register s a → ¬ known a) :
    Single (fun a => known a ∨ ∃ s, event = .register s a) (E.apply event).cleanups
      ((done ++ E.ran event) ++ (E.apply event).disposals.flatMap Prod.snd) := by
  obtain ⟨children, cleanups, disposals⟩ := E
  rw [List.append_assoc]
  have hsame {owned : ScopeId → List α} {out : List α} (h : Single known owned out) :
      Single (fun a => known a ∨ ∃ s, event = .register s a) owned out := h.mono fun _ => .inl
  cases event with
  | register s a =>
    refine (h.add (hnew s a rfl) s).mono ?_
    rintro a' (hknown | rfl)
    · exact .inl hknown
    · exact .inr ⟨s, rfl⟩
  | take s => exact hsame ((h.takeOut s).perm (List.perm_append_comm_assoc _ _ _))
  | descend =>
    rcases disposals with _ | ⟨⟨_ | ⟨c, scopes⟩, list⟩, others⟩
    · exact hsame h
    · exact hsame h
    · exact hsame ((h.takeOut c).perm (List.perm_append_comm_assoc _ _ _))
  | run =>
    rcases disposals with _ | ⟨⟨_ | ⟨c, scopes⟩, _ | ⟨a, list⟩⟩, others⟩ <;> exact hsame h
  | close =>
    rcases disposals with _ | ⟨⟨_ | ⟨c, scopes⟩, _ | ⟨a, list⟩⟩, others⟩ <;> exact hsame h
  | _ => exact hsame h

/-- The first `n` events register no cleanup twice. -/
structure RegistersOnce (events : Nat → Event α) (n : Nat) : Prop where
  once : ∀ {k l s s' a}, k < l → l < n → events k = .register s a → events l ≠ .register s' a

/-- **A cleanup is in one place at every time**: owned by one scope, before one disposal, or
over. -/
theorem RegistersOnce.single (h : RegistersOnce events n) (hk : k ≤ n) :
    Single (fun a => ∃ l < k, ∃ s, events l = .register s a) (after events k).cleanups
      (ranBy events k ++ (after events k).disposals.flatMap Prod.snd) := by
  induction k with
  | zero => exact .empty
  | succ k ih =>
    refine (single_cleanups_apply (events k) (ih (Nat.le_of_lt hk)) ?_).mono ?_
    · rintro s a hevent ⟨l, hl, s', hevent'⟩
      exact h.once hl hk hevent' hevent
    · rintro a (⟨l, hl, s, hevent⟩ | ⟨s, hevent⟩)
      · exact ⟨l, Nat.lt_succ_of_lt hl, s, hevent⟩
      · exact ⟨k, Nat.lt_succ_self k, s, hevent⟩

/-- In the first `n` events, scopes form trees: no scope is adopted twice, and a child is
younger than its parent. -/
structure Grows (events : Nat → Event α) (n : Nat) : Prop where
  once : ∀ {k l s s' c}, k < l → l < n → events k = .adopt s c → events l ≠ .adopt s' c
  younger : ∀ {k s c}, k < n → events k = .adopt s c → s.index < c.index

namespace Grows

/-- **A scope is in one place at every time**: owned by one parent, or before one disposal. -/
theorem single (h : Grows events n) (hk : k ≤ n) :
    Single (fun c => ∃ l < k, ∃ s, events l = .adopt s c) (after events k).children
      ((after events k).disposals.flatMap Prod.fst) := by
  induction k with
  | zero => exact .empty
  | succ k ih =>
    refine (single_children_apply (events k) (ih (Nat.le_of_lt hk)) ?_).mono ?_
    · rintro s c hevent ⟨l, hl, s', hevent'⟩
      exact h.once hl hk hevent' hevent
    · rintro c (⟨l, hl, s, hevent⟩ | ⟨s, hevent⟩)
      · exact ⟨l, Nat.lt_succ_of_lt hl, s, hevent⟩
      · exact ⟨k, Nat.lt_succ_self k, s, hevent⟩

end Grows

end Estate
end Reactive
end ReactiveView
