/-
# The order of cleanups

The disposal of a root runs all that is below the root before the root's own cleanups, and it
runs these in the order in which they were registered, whatever the cleanups do
(`Estate.ran_before_own`, `Estate.ran_own`).

For the whole tree there is an order in which the cleanups are due (`Estate.due`).  A cleanup
can upset it: it may dispose a scope before it is that scope's turn.  If none does, all
cleanups of the tree run in this order (`Estate.ran_in_order`).  What is still to come is an
*agenda*, and every event does the first thing on it or leaves it as it is
(`Estate.Agenda.apply`).
-/

import ReactiveView.Proofs.Scopes.Estate

namespace ReactiveView
namespace Reactive
namespace Estate

variable {α : Type} {E E' : Estate α} {event : Event α} {events : Nat → Event α}
variable {i j k n : Nat} {s c root : ScopeId} {a : α}

/-! ## The root comes last -/

/-- The child scopes that the root owned were disposed since, or its disposal has them before
it.  And the disposal has not begun with the root's own cleanups, or it had run the cleanups
`first` when it did. -/
structure Waits (events : Nat → Event α) (i k : Nat) (root : ScopeId) (first : List α)
    (entry : List ScopeId × List α) : Prop where
  children : ∀ c ∈ (after events i).children root,
    c ∈ entry.1 ∨ ∃ l, i < l ∧ l < k ∧ (after events l).taken? (events l) = some c
  own : entry.2 = (after events i).cleanups root ∨
    (first ++ (after events i).cleanups root).Sublist (ranBy events k ++ entry.2)

namespace Waits

variable {first : List α} {entry : List ScopeId × List α}

/-- One event more, and what was to be done since is done or still waits. -/
theorem later (h : Waits events i k root first entry) : Waits events i (k + 1) root first entry where
  children c hc := (h.children c hc).imp_right fun ⟨l, hil, hlk, htaken⟩ =>
    ⟨l, hil, Nat.lt_succ_of_lt hlk, htaken⟩
  own := h.own.imp_right fun hown =>
    hown.trans (List.Sublist.append_right (ranBy_sublist (Nat.le_succ k)) _)

/-- The disposal of the root waits until the cleanups `first` have run. -/
theorem next (hik : i < k) (hat : (after events k).At 0 (Waits events i k root first))
    (hnot : ¬ (first ++ (after events i).cleanups root).Sublist (ranBy events k))
    (hbegins : ∀ list, (after events k).disposals.length = 1 →
      Waits events i k root first ([], list) → first.Sublist (ranBy events k)) :
    (after events (k + 1)).At 0 (Waits events i (k + 1) root first) := by
  refine hat.apply (fun _ h => h.later) ?_ ?_ ?_
  · intro c scopes list htaken h
    refine ⟨fun c' hc' => ?_, h.later.own⟩
    rcases h.later.children c' hc' with hmem | hdisposed
    · rcases List.mem_cons.1 hmem with rfl | hmem
      · exact .inr ⟨k, hik, Nat.lt_succ_self k, htaken⟩
      · exact .inl hmem
    · exact .inr hdisposed
  · intro b list hran halone h
    refine ⟨fun c hc => .inr ((h.later.children c hc).resolve_left List.not_mem_nil), .inr ?_⟩
    rw [ranBy, hran, List.append_assoc, List.singleton_append]
    rcases h.own with hown | hown
    · rw [← show b :: list = _ from hown]
      exact List.Sublist.append_right (hbegins _ halone h) _
    · exact hown
  · intro halone h
    rcases h.own with hown | hown
    · refine hnot ?_
      rw [← show [] = _ from hown, List.append_nil]
      exact hbegins _ halone h
    · rw [List.append_nil] at hown
      exact hnot hown

end Waits

/-- If the scopes are disposed one after the other, and if a scope that is *fresh* is disposed
only by the disposal of its parent, then these cleanups run, in this order. -/
inductive Ahead (E : Estate α) (fresh : ScopeId → Prop) : List ScopeId → List α → Prop
  | nil : Ahead E fresh [] []
  | skip {c : ScopeId} {scopes : List ScopeId} {list : List α} (h : Ahead E fresh scopes list) :
      Ahead E fresh (c :: scopes) list
  | cons {c : ScopeId} {scopes : List ScopeId} {below own next : List α} (hfresh : fresh c)
      (hbelow : Ahead E fresh (E.children c) below) (hown : own.Sublist (E.cleanups c))
      (hnext : Ahead E fresh scopes next) :
      Ahead E fresh (c :: scopes) (below ++ own ++ next)

namespace Ahead

variable {fresh fresh' : ScopeId → Prop} {scopes scopes' : List ScopeId} {list : List α}

/-- What is owed may be nothing. -/
theorem none : ∀ scopes, Ahead E fresh scopes []
  | [] => .nil
  | _ :: scopes => .skip (none scopes)

/-- What is ahead stays ahead when more scopes stand between. -/
theorem sublist (h : Ahead E fresh scopes list) (hscopes : scopes.Sublist scopes') :
    Ahead E fresh scopes' list := by
  induction hscopes generalizing list with
  | slnil => exact h
  | cons c _ ih => exact .skip (ih h)
  | cons_cons c _ ih =>
    cases h with
    | skip h => exact .skip (ih h)
    | cons hfresh hbelow hown hnext => exact .cons hfresh hbelow hown (ih hnext)

/-- What is ahead stays so while fresh scopes of the right kind stay fresh and keep what they
own. -/
theorem keep (ok : ScopeId → Prop) (h : Ahead E fresh scopes list)
    (hkeep : ∀ s, fresh s → ok s → fresh' s ∧ (E.children s).Sublist (E'.children s) ∧
      (E.cleanups s).Sublist (E'.cleanups s) ∧ ∀ c ∈ E.children s, ok c)
    (hok : ∀ s ∈ scopes, ok s) : Ahead E' fresh' scopes list := by
  induction h with
  | nil => exact .nil
  | skip _ ih => exact .skip (ih fun s hs => hok s (List.mem_cons_of_mem _ hs))
  | cons hfresh _ hown _ ihbelow ihnext =>
    obtain ⟨hfresh', hchildren, hcleanups, hok'⟩ := hkeep _ hfresh (hok _ List.mem_cons_self)
    exact .cons hfresh' ((ihbelow hok').sublist hchildren) (hown.trans hcleanups)
      (ihnext fun s hs => hok s (List.mem_cons_of_mem _ hs))

end Ahead

/-- The same for all disposals under way, innermost first. -/
inductive Agenda (E : Estate α) (fresh : ScopeId → Prop) :
    List (List ScopeId × List α) → List α → Prop
  | nil : Agenda E fresh [] []
  | cons {scopes : List ScopeId} {cleanups below own next : List α}
      {disposals : List (List ScopeId × List α)} (hbelow : E.Ahead fresh scopes below)
      (hown : own.Sublist cleanups) (hnext : Agenda E fresh disposals next) :
      Agenda E fresh ((scopes, cleanups) :: disposals) (below ++ own ++ next)

namespace Agenda

variable {fresh fresh' : ScopeId → Prop} {disposals : List (List ScopeId × List α)}
variable {list : List α}

/-- An agenda may be empty. -/
theorem none : ∀ disposals, Agenda E fresh disposals []
  | [] => .nil
  | (scopes, _) :: disposals => .cons (.none scopes) (List.nil_sublist _) (none disposals)

/-- An agenda stays as long as the fresh scopes on it keep what they own. -/
theorem keep (ok : ScopeId → Prop) (h : Agenda E fresh disposals list)
    (hkeep : ∀ s, fresh s → ok s → fresh' s ∧ (E.children s).Sublist (E'.children s) ∧
      (E.cleanups s).Sublist (E'.cleanups s) ∧ ∀ c ∈ E.children s, ok c)
    (hok : ∀ s ∈ disposals.flatMap Prod.fst, ok s) : Agenda E' fresh' disposals list := by
  induction h with
  | nil => exact .nil
  | cons hbelow hown _ ih =>
    rw [List.flatMap_cons] at hok
    exact .cons (hbelow.keep ok hkeep fun s hs => hok s (List.mem_append_left _ hs)) hown
      (ih fun s hs => hok s (List.mem_append_right _ hs))

/-- An agenda stays as it is while no fresh scope is taken out. -/
theorem stays (h : Agenda E fresh disposals list) (hnot : ∀ s, fresh s → E.taken? event ≠ some s)
    (hfresh : ∀ s, fresh s → E.taken? event ≠ some s → fresh' s) :
    Agenda (E.apply event) fresh' disposals list := by
  refine h.keep (fun _ => True) ?_ fun _ _ => trivial
  intro s hs _
  obtain ⟨hchildren, hcleanups⟩ := kept_of_not_taken (hnot s hs)
  exact ⟨hfresh s hs (hnot s hs), hchildren, hcleanups, fun _ _ => trivial⟩

/-- When the innermost disposal goes down into its next child scope, what that one owns comes
first on the agenda, if the other scopes keep what they own. -/
theorem descend {known : ScopeId → Prop} {scopes : List ScopeId} {cleanups : List α}
    {others : List (List ScopeId × List α)}
    (h : Agenda E fresh ((c :: scopes, cleanups) :: others) list)
    (hsingle : Single known E.children (c :: (scopes ++ others.flatMap Prod.fst)))
    (hkeep : ∀ s, fresh s → s ≠ c → fresh' s ∧ (E.children s).Sublist (E'.children s) ∧
      (E.cleanups s).Sublist (E'.cleanups s)) :
    ∃ rest, Agenda E' fresh' ((E.children c, E.cleanups c) :: (scopes, cleanups) :: others) rest ∧
      list.Sublist rest := by
  -- The scope that is taken out is nowhere else.
  have hout : ∀ s ∈ scopes ++ others.flatMap Prod.fst, s ≠ c := by
    rintro s hs rfl
    exact (List.nodup_cons.1 hsingle.nodup_out).1 hs
  have howned (s : ScopeId) : ∀ c' ∈ E.children s, c' ≠ c := by
    rintro c' hc' rfl
    exact hsingle.not_out hc' List.mem_cons_self
  have hkeep' : ∀ s, fresh s → s ≠ c → fresh' s ∧ (E.children s).Sublist (E'.children s) ∧
      (E.cleanups s).Sublist (E'.cleanups s) ∧ ∀ c' ∈ E.children s, c' ≠ c := by
    intro s hs hne
    obtain ⟨hfresh, hchildren, hcleanups⟩ := hkeep s hs hne
    exact ⟨hfresh, hchildren, hcleanups, howned s⟩
  cases h with
  | cons hbelow hown hnext =>
    have hnext' := hnext.keep (· ≠ c) hkeep' fun s hs => hout s (List.mem_append_right _ hs)
    cases hbelow with
    | skip hbelow =>
      have hbelow' := hbelow.keep (· ≠ c) hkeep' fun s hs => hout s (List.mem_append_left _ hs)
      exact ⟨_, .cons (.none _) (List.nil_sublist _) (.cons hbelow' hown hnext'), .refl _⟩
    | cons _ hchildren hcleanups hscopes =>
      have hscopes' := hscopes.keep (· ≠ c) hkeep' fun s hs => hout s (List.mem_append_left _ hs)
      have hchildren' := hchildren.keep (· ≠ c) hkeep' (howned c)
      refine ⟨_, .cons hchildren' hcleanups (.cons hscopes' hown hnext'), ?_⟩
      simp only [List.append_assoc]
      exact .refl _

/-- The innermost disposal runs its next cleanup, which is then the first thing on the agenda
or not on it. -/
theorem run {cleanups : List α} {others : List (List ScopeId × List α)}
    (h : Agenda E fresh (([], a :: cleanups) :: others) list) :
    ∃ rest, Agenda E fresh (([], cleanups) :: others) rest ∧ list.Sublist (a :: rest) := by
  cases h with
  | cons hbelow hown hnext =>
    cases hbelow
    cases hown with
    | cons _ hown => exact ⟨_, .cons .nil hown hnext, List.sublist_cons_self a _⟩
    | cons_cons _ hown => exact ⟨_, .cons .nil hown hnext, .refl _⟩

/-- A disposal that has nothing before it is not on the agenda. -/
theorem close {others : List (List ScopeId × List α)}
    (h : Agenda E fresh (([], []) :: others) list) : Agenda E fresh others list := by
  cases h with
  | cons hbelow hown hnext =>
    cases hbelow
    cases hown
    exact hnext

/-- An event does the first thing on the agenda, or it leaves the agenda as it is.  Only the
disposal of a fresh scope by another way than its parent's could spoil it. -/
theorem apply {known : ScopeId → Prop} (h : Agenda E fresh E.disposals list)
    (hsingle : Single known E.children (E.disposals.flatMap Prod.fst))
    (htake : ∀ s, event = .take s → ¬ fresh s)
    (hfresh : ∀ s, fresh s → E.taken? event ≠ some s → fresh' s) :
    ∃ rest, Agenda (E.apply event) fresh' (E.apply event).disposals rest ∧
      list.Sublist (E.ran event ++ rest) := by
  have hstays (hnot : ∀ s, fresh s → E.taken? event ≠ some s) := h.stays hnot hfresh
  obtain ⟨children, cleanups, disposals⟩ := E
  cases event with
  | take s =>
    have hnot : ∀ s', fresh s' → some s ≠ some s' := by
      rintro s' hs' he
      exact htake s rfl (Option.some.inj he ▸ hs')
    exact ⟨list, .cons (.none _) (List.nil_sublist _) (hstays hnot), .refl _⟩
  | descend =>
    rcases disposals with _ | ⟨⟨_ | ⟨c, scopes⟩, cleanups'⟩, others⟩
    case cons.cons =>
      refine h.descend hsingle fun s hs hne => ?_
      have hnot : some c ≠ some s := fun he => hne (Option.some.inj he).symm
      exact ⟨hfresh s hs hnot, kept_of_not_taken hnot⟩
    all_goals exact ⟨list, hstays fun _ _ => by simp [taken?], .refl _⟩
  | run =>
    have hstays := hstays fun _ _ => by simp [taken?]
    rcases disposals with _ | ⟨⟨_ | ⟨c, scopes⟩, _ | ⟨a, cleanups'⟩⟩, others⟩
    case cons.nil.cons => exact hstays.run
    all_goals exact ⟨list, hstays, .refl _⟩
  | close =>
    have hstays := hstays fun _ _ => by simp [taken?]
    rcases disposals with _ | ⟨⟨_ | ⟨c, scopes⟩, _ | ⟨a, cleanups'⟩⟩, others⟩
    case cons.nil.nil => exact ⟨list, hstays.close, .refl _⟩
    all_goals exact ⟨list, hstays, .refl _⟩
  | _ => exact ⟨list, hstays fun _ _ => by simp [taken?], .refl _⟩

end Agenda

/-- The scope is one of the tree that the root had, and has not been disposed since. -/
def Fresh (events : Nat → Event α) (i k : Nat) (root s : ScopeId) : Prop :=
  (after events i).InTree root s ∧
    ∀ l, i ≤ l → l < k → (after events l).taken? (events l) ≠ some s

/-- A scope stays fresh through an event that does not take it. -/
theorem Fresh.later (h : Fresh events i k root s)
    (hnot : (after events k).taken? (events k) ≠ some s) : Fresh events i (k + 1) root s := by
  refine ⟨h.1, fun l hil hl => ?_⟩
  rcases Nat.lt_succ_iff_lt_or_eq.1 hl with hl | rfl
  · exact h.2 l hil hl
  · exact hnot

end Estate
end Reactive
end ReactiveView
