/-
# The calls of a traversal

Any transforms can be run with a record of the calls (`Transform.recordFrom`): beside the state
that they have, the traversal carries a list, to which each phase adds its call when it ends.

Let entry phases do what they like with the current node, and let exit phases only look at it
(`Transform.Observing`).  Then a traversal fails or is an orderly tour (`Transform.toured`): the
record is the calls of the tour, and the outcome is what the tour kept (`Transform.runTo_tour`).
If no phase can fail, a traversal fails only by going down for ever.
-/

import ReactiveView.Proofs.Markup.Tour
import ReactiveView.Proofs.Markup.Walk

namespace ReactiveView
namespace Markup

variable {σ α β α' β' : Type} {s s₁ s' : σ}

/-! ## Recording -/

/-- The step beside a record, which it leaves alone. -/
def Step.beside (step : Step σ α) : Step (σ × List Call) α :=
  ExceptT.mk fun state =>
    match step.run.run state.1 with
    | (outcome, s) => (outcome, (s, state.2))

/-- Adds a call to the record. -/
def Call.note (call : Call) : Step (σ × List Call) Unit :=
  modify fun state => (state.1, state.2 ++ [call])

/-- The exit phase of the transform in the position `i`, with its call recorded. -/
def Exit.recorded (i : Nat) (exit : Exit σ) : Exit (σ × List Call) := fun node => do
  let left ← Step.beside (exit node)
  Call.note (.exit i node)
  pure left

namespace Transform

/-- The transform in the position `i`, with its calls recorded. -/
def recorded (i : Nat) (transform : Transform σ) : Transform (σ × List Call) where
  enter visit node := do
    let (current, exit) ← Step.beside (transform.enter visit node)
    Call.note (.enter ⟨i, visit, node, current, exit.isSome⟩)
    pure (current, exit.map (Exit.recorded i))

/-- The transforms, the first of them in the position `i`, with their calls recorded. -/
def recordFrom (i : Nat) : List (Transform σ) → List (Transform (σ × List Call))
  | [] => []
  | transform :: rest => transform.recorded i :: recordFrom (i + 1) rest

end Transform

/-- The exit phase only looks at the node: if it succeeds, it leaves the node as it is. -/
def Exit.Observing (exit : Exit σ) : Prop :=
  ∀ node s left s', (exit node).Ends s (.ok left) s' → left = node

/-- The exit phase always succeeds. -/
def Exit.NeverFails (exit : Exit σ) : Prop :=
  ∀ node s, ∃ left s', (exit node).Ends s (.ok left) s'

/-- The exit phases that the transform hands back only look at the node. -/
def Transform.Observing (transform : Transform σ) : Prop :=
  ∀ visit node s current exit s', (transform.enter visit node).Ends s (.ok (current, exit)) s' →
    ∀ e ∈ exit, Exit.Observing e

/-- The entry phase always succeeds, and so do the exit phases that it hands back. -/
def Transform.NeverFails (transform : Transform σ) : Prop :=
  ∀ visit node s, ∃ current exit s', (transform.enter visit node).Ends s (.ok (current, exit)) s' ∧
    ∀ e ∈ exit, Exit.NeverFails e

/-! ## Steps and their records -/

/-- A step succeeds, and so does another one that records calls beside. -/
structure Step.Logs (step : Step σ α) (recorded : Step (σ × List Call) β) (s : σ) (a : α) (b : β)
    (calls : List Call) (s' : σ) : Prop where
  plain : step.Ends s (.ok a) s'
  record : ∀ log, recorded.Ends (s, log) (.ok b) (s', log ++ calls)

namespace Step.Logs

variable {step : Step σ α} {recorded : Step (σ × List Call) β} {a : α} {b : β}
  {calls calls' : List Call}

/-- Steps that do nothing log nothing. -/
theorem pure (a : α) (b : β) (s : σ) :
    Logs (Pure.pure a : Step σ α) (Pure.pure b : Step (σ × List Call) β) s a b [] s where
  plain := .pure a s
  record log := by
    rw [List.append_nil]
    exact .pure b (s, log)

/-- Two steps in a row log what both of them do. -/
theorem bind {next : α → Step σ α'} {next' : β → Step (σ × List Call) β'} {a' : α'} {b' : β'}
    (h : Logs step recorded s a b calls s₁) (h' : Logs (next a) (next' b) s₁ a' b' calls' s') :
    Logs (step >>= next) (recorded >>= next') s a' b' (calls ++ calls') s' where
  plain := h.plain.bind h'.plain
  record log := by
    rw [← List.append_assoc]
    exact (h.record log).bind (h'.record (log ++ calls))

/-- A result may be worked over; the log is the same. -/
theorem map (f : α → α') (g : β → β') (h : Logs step recorded s a b calls s') :
    Logs (f <$> step) (g <$> recorded) s (f a) (g b) calls s' where
  plain := h.plain.map f
  record log := (h.record log).map g

/-- A step that succeeds, and then its call is noted. -/
theorem note {f : α → β} (call : α → Call) (h : step.Ends s (.ok a) s') :
    Logs step (do
      let a ← step.beside
      (call a).note
      Pure.pure (f a)) s a (f a) [call a] s' where
  plain := h
  record log := by
    have hbeside : step.beside.Ends (s, log) (.ok a) (s', log) := by
      unfold Ends at h ⊢
      show (match step.run.run s with | (outcome, s) => (outcome, (s, log))) = _
      rw [h]
    have hnote : (call a).note.Ends (s', log) (.ok ()) (s', log ++ [call a]) := rfl
    exact hbeside.bind (hnote.bind (.pure _ _))

end Step.Logs

/-- From the state `s` the step fails; if `safe` holds, that is because it runs out of levels. -/
def Step.Fails (safe : Prop) (step : Step σ α) (s : σ) : Prop :=
  ∃ error s', step.Ends s (.error error) s' ∧ (safe → error = .endless)

namespace Step.Fails

variable {safe : Prop} {step : Step σ α} {next : α → Step σ β}

/-- What fails, fails whatever is to come after it. -/
theorem bind (h : Fails safe step s) : Fails safe (step >>= next) s := by
  obtain ⟨error, s', hends, hsafe⟩ := h
  exact ⟨error, s', hends.bind_error, hsafe⟩

/-- What fails after a step that succeeds fails with that step in front of it. -/
theorem bind_ok {a : α} (h : step.Ends s (.ok a) s₁) (h' : Fails safe (next a) s₁) :
    Fails safe (step >>= next) s := by
  obtain ⟨error, s', hends, hsafe⟩ := h'
  exact ⟨error, s', h.bind hends, hsafe⟩

end Step.Fails

/-- A step fails or succeeds; one that always succeeds if it is safe does not fail then. -/
theorem Step.fails_or_ends {safe : Prop} (step : Step σ α) (s : σ)
    (hsafe : safe → ∃ a s', step.Ends s (.ok a) s') :
    Step.Fails safe step s ∨ ∃ a s', step.Ends s (.ok a) s' := by
  obtain ⟨outcome, s', hends⟩ := step.ends s
  cases outcome with
  | ok a => exact .inr ⟨a, s', hends⟩
  | error error =>
    refine .inl ⟨error, s', hends, fun h => ?_⟩
    obtain ⟨a, s'', hok⟩ := hsafe h
    exact absurd (hends.unique hok).1 (by simp)

namespace Transform

open Step (Ends Fails Logs)

variable {safe : Prop}

/-! ## Exit phases -/

/-- The exit phases that were handed back, each with the position of its transform; first the
one that was handed back last. -/
abbrev Exits (σ : Type) := List (Nat × Exit σ)

namespace Exits

/-- The exit phases alone. -/
def plain (exits : Exits σ) : List (Exit σ) := exits.map Prod.snd

/-- The exit phases with their calls recorded. -/
def recorded (exits : Exits σ) : List (Exit (σ × List Call)) :=
  exits.map fun (i, exit) => exit.recorded i

/-- The positions of the transforms. -/
def positions (exits : Exits σ) : List Nat := exits.map Prod.fst

/-- All of them only look at the node, and if it is `safe` none of them fails. -/
def Observing (safe : Prop) (exits : Exits σ) : Prop :=
  ∀ exit ∈ exits, Exit.Observing exit.2 ∧ (safe → Exit.NeverFails exit.2)

/-- The exit phases are called one after the other, with one and the same node. -/
theorem logs (exits : Exits σ) (h : exits.Observing safe) (node : Node) (s : σ) :
    Fails safe (exits.plain.foldlM (fun node exit => exit node) node) s ∨
      ∃ s', Logs (exits.plain.foldlM (fun node exit => exit node) node)
        (exits.recorded.foldlM (fun node exit => exit node) node) s node node
          (exits.positions.map (.exit · node)) s' := by
  induction exits generalizing s with
  | nil => exact .inr ⟨s, .pure node node s⟩
  | cons exit rest ih =>
    obtain ⟨i, exit⟩ := exit
    obtain ⟨⟨hobserving, hsafe⟩, hrest⟩ := List.forall_mem_cons.1 h
    rcases (exit node).fails_or_ends s (fun h => hsafe h node s) with hfails | ⟨left, s₁, hends⟩
    · exact .inl hfails.bind
    obtain rfl := hobserving node s left s₁ hends
    rcases ih hrest s₁ with hfails | ⟨s', hlater⟩
    · exact .inl (.bind_ok hends hfails)
    · exact .inr ⟨s', (Logs.note (f := id) (fun _ => .exit i left) hends).bind hlater⟩

/-- An exit phase that the transform in the position `i` hands back goes in front. -/
def push (i : Nat) (exit : Option (Exit σ)) (exits : Exits σ) : Exits σ :=
  exit.toList.map (i, ·) ++ exits

/-- An exit phase that is handed back will run first. -/
theorem plain_push (i : Nat) (exit : Option (Exit σ)) (exits : Exits σ) :
    (exits.push i exit).plain = exit.toList ++ exits.plain := by
  cases exit <;> rfl

/-- Pushing an exit phase puts its record in front of the others. -/
theorem recorded_push (i : Nat) (exit : Option (Exit σ)) (exits : Exits σ) :
    (exits.push i exit).recorded = (exit.map (Exit.recorded i)).toList ++ exits.recorded := by
  cases exit <;> rfl

/-- One exit phase more that only looks at the node. -/
theorem Observing.push {i : Nat} {exit : Option (Exit σ)} {exits : Exits σ}
    (h : exits.Observing safe)
    (hexit : ∀ e ∈ exit, Exit.Observing e ∧ (safe → Exit.NeverFails e)) :
    (exits.push i exit).Observing safe := by
  cases exit with
  | none => exact h
  | some exit => exact List.forall_mem_cons.2 ⟨hexit exit rfl, h⟩

end Exits

/-! ## Entry phases -/

/-- The transforms hand back exit phases that only look at the node, and if it is `safe` no
phase fails. -/
def Fit (safe : Prop) (transforms : List (Transform σ)) : Prop :=
  ∀ transform ∈ transforms, transform.Observing ∧ (safe → transform.NeverFails)

/-- An entry phase, and its call. -/
theorem enter_logs {transform : Transform σ} (hobserving : transform.Observing)
    (hsafe : safe → transform.NeverFails) (i : Nat) (visit : Visit) (node : Node) (s : σ) :
    Fails safe (transform.enter visit node) s ∨
      ∃ current exit s', (∀ e ∈ exit, Exit.Observing e ∧ (safe → Exit.NeverFails e)) ∧
        Logs (transform.enter visit node) ((transform.recorded i).enter visit node) s
          (current, exit) (current, exit.map (Exit.recorded i))
            [.enter ⟨i, visit, node, current, exit.isSome⟩] s' := by
  have hok (h : safe) : ∃ entered s', (transform.enter visit node).Ends s (.ok entered) s' := by
    obtain ⟨current, exit, s', hends, -⟩ := hsafe h visit node s
    exact ⟨_, s', hends⟩
  rcases (transform.enter visit node).fails_or_ends s hok with
    hfails | ⟨⟨current, exit⟩, s', hends⟩
  · exact .inl hfails
  refine .inr ⟨current, exit, s', ?_, ?_⟩
  · refine fun e he => ⟨hobserving visit node s current exit s' hends e he, fun h => ?_⟩
    obtain ⟨current', exit', s'', hends', hexit⟩ := hsafe h visit node s
    obtain ⟨hsame, -⟩ := hends.unique hends'
    obtain ⟨-, rfl⟩ := Prod.mk.inj (Except.ok.inj hsame)
    exact hexit e he
  · exact Logs.note (f := fun entered : Option Node × Option (Exit σ) =>
      (entered.1, entered.2.map (Exit.recorded i)))
      (fun entered => .enter ⟨i, visit, node, entered.1, entered.2.isSome⟩) hends

/-- The exit phase that an entry hands back comes before those that were handed back earlier. -/
theorem deferred_cons (i : Nat) (visit : Visit) (node : Node) (left : Option Node)
    (exit : Option (Exit σ)) (entries : List Entry) (exits : Exits σ) :
    Tour.deferred (⟨i, visit, node, left, exit.isSome⟩ :: entries) ++ exits.positions =
      Tour.deferred entries ++ (exits.push i exit).positions := by
  cases exit with
  | none => rfl
  | some exit => simp [Tour.deferred, Exits.positions, Exits.push]

/-- What becomes of entering a node with the transforms `rest`, the first of them in the
position `i`, behind others that handed back `exits`. -/
inductive Entered (safe : Prop) (rest : List (Transform σ)) (i : Nat) (visit : Visit) (node : Node)
    (exits : Exits σ) (s : σ) : Prop where
  | failed (h : Fails safe (enterAll visit rest node exits.plain) s)
  | removed (entries : List Entry) (s' : σ) (told : ∀ entry ∈ entries, entry.visit = visit)
      (enters : Tour.Enters i node entries none) (length : entries.length ≤ rest.length)
      (logs : Logs (enterAll visit rest node exits.plain)
        (enterAll visit (recordFrom i rest) node exits.recorded) s none none
          (entries.map .enter) s')
  | left (entries : List Entry) (left : Node) (more : Exits σ) (s' : σ)
      (told : ∀ entry ∈ entries, entry.visit = visit)
      (enters : Tour.Enters i node entries (some left)) (length : entries.length = rest.length)
      (observing : more.Observing safe)
      (positions : more.positions = Tour.deferred entries ++ exits.positions)
      (logs : Logs (enterAll visit rest node exits.plain)
        (enterAll visit (recordFrom i rest) node exits.recorded) s (some (left, more.plain))
          (some (left, more.recorded)) (entries.map .enter) s')

/-- **The entry phases are called in order**, up to one that removes the node, and the exit
phases that they hand back are collected. -/
theorem entered {rest : List (Transform σ)} (hfit : Fit safe rest) (i : Nat) (visit : Visit)
    (node : Node) {exits : Exits σ} (hexits : exits.Observing safe) (s : σ) :
    Entered safe rest i visit node exits s := by
  induction rest generalizing i node exits s with
  | nil => exact .left [] node exits s (by simp) rfl rfl hexits rfl (.pure _ _ s)
  | cons transform rest ih =>
    obtain ⟨⟨hobserving, hsafe⟩, hrest⟩ := List.forall_mem_cons.1 hfit
    rcases enter_logs hobserving hsafe i visit node s with
      hfails | ⟨current, exit, s₁, hexit, henter⟩
    · exact .failed hfails.bind
    have htold {left : Option Node} {entries : List Entry}
        (h : ∀ entry ∈ entries, entry.visit = visit) :
        ∀ entry ∈ ⟨i, visit, node, left, exit.isSome⟩ :: entries, entry.visit = visit :=
      List.forall_mem_cons.2 ⟨rfl, h⟩
    cases current with
    | none =>
      exact .removed [⟨i, visit, node, none, exit.isSome⟩] s₁ (htold (by simp)) ⟨rfl, rfl, rfl, rfl⟩
        (by simp) (henter.bind (.pure none none s₁))
    | some node' =>
      have hpush := Exits.plain_push i exit exits
      have hpush' := Exits.recorded_push i exit exits
      cases ih hrest (i + 1) node' (hexits.push (i := i) hexit) s₁ with
      | failed hfails =>
        rw [hpush] at hfails
        exact .failed (.bind_ok henter.plain hfails)
      | removed entries s' told enters length logs =>
        rw [hpush, hpush'] at logs
        exact .removed (_ :: entries) s' (htold told) ⟨rfl, rfl, enters⟩ (Nat.succ_le_succ length)
          (henter.bind logs)
      | left entries left more s' told enters length observing positions logs =>
        rw [hpush, hpush'] at logs
        exact .left (_ :: entries) left more s' (htold told) ⟨rfl, rfl, enters⟩
          (congrArg (· + 1) length) observing
          (positions.trans (deferred_cons i visit node (some node') exit entries exits).symm)
          (henter.bind logs)

/-! ## Traversals -/

/-- From the state `s` the traversal of the node fails, or it is an orderly tour, and so is the
traversal with a record. -/
def Toured (safe : Prop) (transforms : List (Transform σ)) (levels : Nat) (visit : Visit)
    (node : Node) (s : σ) : Prop :=
  Fails safe (traverse transforms levels visit node) s ∨
    ∃ (tour : Tour) (s' : σ), tour.found = node ∧ tour.Orderly transforms.length visit ∧
      Logs (traverse transforms levels visit node)
        (traverse (recordFrom 0 transforms) levels visit node) s tour.kept? tour.kept? tour.calls
          s'

variable {transforms : List (Transform σ)} {levels : Nat}

/-- Children are toured from left to right. -/
theorem keepEach_logs (ih : ∀ visit node s, Toured safe transforms levels visit node s)
    (ancestors : List Kind) (children : List Node) (kept : Array Node) (s : σ) :
    Fails safe (keepEach transforms levels ancestors children kept) s ∨
      ∃ (tours : List Tour) (s' : σ), tours.map Tour.found = children ∧
        Tour.OrderlyEach transforms.length ancestors kept.size tours ∧
          Logs (keepEach transforms levels ancestors children kept)
            (keepEach (recordFrom 0 transforms) levels ancestors children kept) s
              (kept ++ (Tour.keptEach tours).toArray) (kept ++ (Tour.keptEach tours).toArray)
                (Tour.callsEach tours) s' := by
  induction children generalizing kept s with
  | nil =>
    have hkept : kept ++ #[] = kept := Array.append_empty
    refine .inr ⟨[], s, rfl, trivial, ?_⟩
    rw [Tour.keptEach, hkept]
    exact .pure kept kept s
  | cons child rest ihrest =>
    rw [keepEach, keepEach]
    rcases ih ⟨ancestors, kept.size⟩ child s with
      hfails | ⟨tour, s₁, hfound, horderly, hlogs⟩
    · exact .inl hfails.bind
    rcases ihrest (keep kept tour.kept?) s₁ with
      hfails | ⟨tours, s', hfounds, horderlies, hlater⟩
    · exact .inl (.bind_ok hlogs.plain hfails)
    rw [size_keep] at horderlies
    rw [keep_append] at hlater
    exact .inr ⟨tour :: tours, s', by rw [List.map_cons, hfound, hfounds],
      ⟨horderly, horderlies⟩, hlogs.bind hlater⟩

/-- What is done at a node behind the entry phases. -/
theorem finish_logs (ih : ∀ visit node s, Toured safe transforms levels visit node s)
    (visit : Visit) (left : Node) {exits : Exits σ} (hexits : exits.Observing safe) (s : σ) :
    Fails safe (finish transforms levels visit (some (left, exits.plain))) s ∨
      ∃ (tours : List Tour) (s' : σ), tours.map Tour.found = left.children ∧
        Tour.OrderlyEach transforms.length (left.kind :: visit.ancestors) 0 tours ∧
          Logs (finish transforms levels visit (some (left, exits.plain)))
            (finish (recordFrom 0 transforms) levels visit (some (left, exits.recorded))) s
              (some (left.withChildren (Tour.keptEach tours)))
                (some (left.withChildren (Tour.keptEach tours)))
                  (Tour.callsEach tours ++ exits.positions.map
                    (.exit · (left.withChildren (Tour.keptEach tours)))) s' := by
  rw [finish, finish]
  rcases keepEach_logs ih (left.kind :: visit.ancestors) left.children #[] s with
    hfails | ⟨tours, s₁, hfounds, horderly, hlogs⟩
  · exact .inl hfails.bind
  have hlist : (#[] ++ (Tour.keptEach tours).toArray).toList = Tour.keptEach tours := by simp
  rcases exits.logs hexits (left.withChildren (Tour.keptEach tours)) s₁ with hfails | ⟨s', hlater⟩
  · refine .inl (.bind_ok hlogs.plain ?_)
    rw [hlist, map_eq_pure_bind]
    exact hfails.bind
  · refine .inr ⟨tours, s', hfounds, horderly, hlogs.bind ?_⟩
    rw [hlist]
    exact hlater.map some some

/-- **A traversal fails or is an orderly tour.** -/
theorem toured (hfit : Fit safe transforms) (levels : Nat) (visit : Visit) (node : Node) (s : σ) :
    Toured safe transforms levels visit node s := by
  induction levels generalizing visit node s with
  | zero => exact .inl ⟨.endless, s, .throw .endless s, fun _ => rfl⟩
  | succ levels ih =>
    unfold Toured
    rw [traverse_succ, traverse_succ]
    have hnone : Exits.Observing safe ([] : Exits σ) := by simp [Exits.Observing]
    cases entered hfit 0 visit node hnone s with
    | failed hfails => exact .inl hfails.bind
    | removed entries s₁ told enters length logs =>
      refine .inr ⟨.removed node entries, s₁, rfl, ⟨⟨enters, length⟩, told⟩, ?_⟩
      have hdone : Logs (enterAll visit transforms node [] >>= finish transforms levels visit)
          (enterAll visit (recordFrom 0 transforms) node [] >>=
            finish (recordFrom 0 transforms) levels visit) s none none
              (entries.map .enter ++ []) s₁ :=
        logs.bind (.pure none none s₁)
      rwa [List.append_nil] at hdone
    | left entries left exits s₁ told enters length observing positions logs =>
      rcases finish_logs ih visit left observing s₁ with
        hfails | ⟨tours, s', hfounds, horderly, hlater⟩
      · exact .inl (.bind_ok logs.plain hfails)
      refine .inr ⟨.kept node entries left tours exits.positions, s', rfl,
        ⟨⟨enters, length, hfounds, ?_⟩, told, horderly⟩, ?_⟩
      · rw [positions]
        exact List.append_nil _
      · have hdone := logs.bind hlater
        rwa [← List.append_assoc] at hdone

/-- **The course of a traversal.**  Let the exit phases that the transforms hand back only look
at the node, and let a run succeed; or let no phase ever fail, and let a run not go down for
ever.  Then the run is a tour of the tree.  The run with a record notes the calls of the tour in
their order and no others, and the outcome is what the tour kept.  At every place of the tour the
calls are regular, and the entry phases are told the place. -/
theorem runTo_tour (hobserving : ∀ t ∈ transforms, t.Observing) {tree : Node} {s s' : σ}
    {outcome : Except TransformError Node}
    (hrun : (runTo levels transforms tree).run.run s = (outcome, s'))
    (hended : (∃ result, outcome = .ok result) ∨
      (∀ t ∈ transforms, t.NeverFails) ∧ outcome ≠ .error .endless) :
    ∃ tour : Tour, tour.found = tree ∧ outcome = tour.outcome ∧
      (runTo levels (recordFrom 0 transforms) tree).run.run (s, []) =
        (outcome, (s', tour.calls)) ∧
          ∀ above ahead part, tour.Within above ahead part →
            part.Placed transforms.length above ahead := by
  have hfit : Fit (∀ t ∈ transforms, t.NeverFails) transforms := fun t ht =>
    ⟨hobserving t ht, fun h => h t ht⟩
  rcases toured hfit levels .top tree s with
    ⟨error, s₁, hends, hsafe⟩ | ⟨tour, s₁, hfound, horderly, hlogs⟩
  · have hfails : Ends (runTo levels transforms tree) s (.error error) s₁ := hends.bind_error
    obtain ⟨rfl, rfl⟩ := hfails.unique hrun
    rcases hended with ⟨result, hresult⟩ | ⟨hnever, hended⟩
    · exact absurd hresult (by simp)
    · exact absurd (congrArg Except.error (hsafe hnever)) hended
  · obtain ⟨rfl, rfl⟩ := (runTo_ends hlogs.plain).unique hrun
    exact ⟨tour, hfound, rfl, runTo_ends (hlogs.record []),
      fun above ahead part hwithin => horderly.placed hwithin⟩

end Transform

/-! ## Rules -/

/-- Exit actions that are marks leave the node as it is. -/
theorem ExitAction.ends_of_marks {actions : List ExitAction}
    (h : ∀ action ∈ actions, ∃ label, action = .log label) (node : Node) (log : Array LogLine) :
    ∃ log', Step.Ends (actions.foldlM (fun node action => action.apply node) node) log (.ok node)
      log' := by
  induction actions generalizing log with
  | nil => exact ⟨log, .pure node log⟩
  | cons action rest ih =>
    obtain ⟨⟨label, rfl⟩, hrest⟩ := List.forall_mem_cons.1 h
    obtain ⟨log', hends⟩ := ih hrest (log.push (.left label node))
    have hmark : Step.Ends ((ExitAction.log label).apply node) log (.ok node)
      (log.push (.left label node)) := rfl
    exact ⟨log', hmark.bind hends⟩

/-- The exit phase of a rule whose exit actions are marks only looks at the node. -/
theorem Rule.observing {rule : Rule}
    (h : ∀ actions ∈ rule.exit, ∀ action ∈ actions, ∃ label, action = ExitAction.log label) :
    rule.transform.Observing := by
  intro visit node log current exit log' hends e he
  rcases exit_of_enter hends with rfl | rfl
  · exact absurd he (by simp)
  · obtain ⟨actions, hactions, rfl⟩ := Option.map_eq_some_iff.1 he
    intro node log left log' hexit
    obtain ⟨log'', hmarked⟩ := ExitAction.ends_of_marks (h actions hactions) node log
    exact Except.ok.inj (hexit.unique hmarked).1

/-- Takes the texts `x` out. -/
def Rule.dropping : Rule where
  pattern := { content := some "x" }
  entry := [.remove]
  exit := none

/-- Marks every node on the way out. -/
def Rule.marking : Rule where
  pattern := {}
  entry := []
  exit := some [.log "out"]

/-- A text is taken out, and the others are marked. -/
theorem Transform.runTo_tour_dropping :
    let transforms := [Rule.marking.transform, Rule.dropping.transform]
    let tree : Node := .element "p" [.text "x", .text "y"]
    let result : Node := .element "p" [.text "y"]
    let outcome : Except TransformError Node := .ok result
    let log := #[.left "out" (.text "y"), .left "out" result]
    (∀ t ∈ transforms, t.Observing) ∧ (run transforms tree).run.run #[] = (outcome, log) ∧
      ((∃ result, outcome = .ok result) ∨
        (∀ t ∈ transforms, t.NeverFails) ∧ outcome ≠ .error .endless) ∧
      ∃ tour : Tour, tour.found = tree ∧ outcome = tour.outcome ∧
        (run (recordFrom 0 transforms) tree).run.run (#[], []) = (outcome, (log, tour.calls)) ∧
          ∀ above ahead part, tour.Within above ahead part → part.Placed 2 above ahead := by
  intro transforms tree result outcome log
  have hobserving : ∀ t ∈ transforms, t.Observing := by
    refine List.forall_mem_cons.2 ⟨Rule.observing ?_, List.forall_mem_singleton.2
      (Rule.observing ?_)⟩
    · simp [Rule.marking]
    · simp [Rule.dropping]
  have hrun : (run transforms tree).run.run #[] = (outcome, log) := rfl
  have hended : ∃ result, outcome = .ok result := ⟨result, rfl⟩
  refine ⟨hobserving, hrun, .inl hended, ?_⟩
  rw [run_eq_runTo] at hrun ⊢
  exact runTo_tour hobserving hrun (.inl hended)

end Markup
end ReactiveView
