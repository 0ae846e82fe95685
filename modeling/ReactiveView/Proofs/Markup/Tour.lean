/-
# Tours

A tour tells what a traversal did at a node and below it: which entry phases were called there
and what each found and left, then, unless the node was removed, the tours of its children and
the exit phases.  Laid out, it is the sequence of the calls that were made (`Tour.calls`).

A tour is *regular* at a node if its calls there are those that the order of the transforms asks
for (`Tour.Regular`).  A tour that is regular everywhere, and told every entry phase where the
node stands, is *orderly* (`Tour.Orderly`).  In an orderly tour the places can be read off from
outside: how many nodes are above, what their entry phases left them as, and how many siblings
were kept before (`Tour.Orderly.placed`).
-/

import ReactiveView.Markup.Traversal

namespace ReactiveView
namespace Markup

/-- A call of an entry phase. -/
structure Entry where
  /-- The position of the transform in the list. -/
  transform : Nat
  /-- Where the node was said to stand. -/
  visit : Visit
  /-- The node that the phase found. -/
  found : Node
  /-- The node that it left, unless it removed it. -/
  left : Option Node
  /-- It handed back an exit phase. -/
  defers : Bool

/-- A call of a phase of a transform. -/
inductive Call where
  | enter (entry : Entry)
  /-- The exit phase that the transform in this position handed back is called with the node. -/
  | exit (transform : Nat) (node : Node)

/-- What was done at a node and below it. -/
inductive Tour where
  /-- The last of the entry phases removed the node. -/
  | removed (found : Node) (entries : List Entry)
  /-- The entry phases left `left`; its children were toured, and the exit phases of the
  transforms in the positions `exits` were called. -/
  | kept (found : Node) (entries : List Entry) (left : Node) (inside : List Tour)
      (exits : List Nat)

namespace Tour

/-- The node that the tour came to. -/
def found : Tour → Node
  | removed found _ => found
  | kept found _ _ _ _ => found

/-- The calls of entry phases at the node. -/
def entries : Tour → List Entry
  | removed _ entries => entries
  | kept _ entries _ _ _ => entries

/-- The node as its entry phases leave it, unless they remove it. -/
def left? : Tour → Option Node
  | removed _ _ => none
  | kept _ _ left _ _ => some left

mutual

/-- The node as it ends up, unless it was removed. -/
def kept? : Tour → Option Node
  | removed _ _ => none
  | kept _ _ left inside _ => some (left.withChildren (keptEach inside))

/-- The nodes that were kept among several, in order. -/
def keptEach : List Tour → List Node
  | [] => []
  | tour :: rest => (kept? tour).toList ++ keptEach rest

end

mutual

/-- The calls made at the node and below it, in order: the entry phases, what is inside, the
exit phases. -/
def calls : Tour → List Call
  | removed _ entries => entries.map .enter
  | kept _ entries left inside exits =>
    entries.map .enter ++ callsEach inside ++
      exits.map (.exit · (left.withChildren (keptEach inside)))

/-- The calls made in several tours, one after the other. -/
def callsEach : List Tour → List Call
  | [] => []
  | tour :: rest => calls tour ++ callsEach rest

end

/-- The outcome of a run that is this tour: the outermost node cannot be removed. -/
def outcome (tour : Tour) : Except TransformError Node :=
  tour.kept?.elim (.error .cannotRemoveRoot) .ok

/-! ## The calls at one node -/

/-- From the transform in the position `i` on, the entry phases were called one after the other,
each with the node that the one before it had left.  So the node `found` became `left`; a phase
that removed it was the last one. -/
def Enters (i : Nat) (found : Node) : List Entry → (left : Option Node) → Prop
  | [], left => left = some found
  | entry :: later, left =>
    entry.transform = i ∧ entry.found = found ∧
      match entry.left with
      | some node => Enters (i + 1) node later left
      | none => later = [] ∧ left = none

/-- The positions of the transforms that handed back an exit phase, the last one first. -/
def deferred (entries : List Entry) : List Nat :=
  ((entries.filter Entry.defers).map Entry.transform).reverse

/-- At the node the transforms, `count` of them, were called as they should be.  The entry
phases were called in order, up to one that removed the node.  Where none did, all were called;
the tours inside are those of the children that the node then had, from left to right; and the
exit phases that were handed back were called once each, the last one first. -/
def Regular (count : Nat) : Tour → Prop
  | removed found entries => Enters 0 found entries none ∧ entries.length ≤ count
  | kept found entries left inside exits =>
    Enters 0 found entries (some left) ∧ entries.length = count ∧
      inside.map Tour.found = left.children ∧ exits = deferred entries

/-! ## Places -/

/-- The tour `tour` is part of `top`, below the tours `above`, innermost first, and behind
`ahead` siblings that were kept. -/
inductive Within (top : Tour) : (above : List Tour) → (ahead : Nat) → (tour : Tour) → Prop
  | top : Within top [] 0 top
  | inside {above : List Tour} {ahead : Nat} {found : Node} {entries : List Entry} {left : Node}
      {before : List Tour} {tour : Tour} {after : List Tour} {exits : List Nat}
      (h : Within top above ahead (kept found entries left (before ++ tour :: after) exits)) :
      Within top (kept found entries left (before ++ tour :: after) exits :: above)
        (keptEach before).length tour

/-- The tour is regular, and its entry phases were told where the node stands: below as many
nodes as there are, below its parent as the entry phases of that had left it, and behind the
siblings kept before.  If it was kept, that is its place among the children of its parent in
the end. -/
structure Placed (count : Nat) (above : List Tour) (ahead : Nat) (tour : Tour) : Prop where
  regular : tour.Regular count
  depth : ∀ entry ∈ tour.entries, entry.visit.depth = above.length
  parent : ∀ entry ∈ tour.entries,
    entry.visit.parent? = (above.head?.bind left?).map Node.kind
  parentTag : ∀ entry ∈ tour.entries,
    entry.visit.parentTag? = (above.head?.bind left?).bind fun node => node.kind.tag?
  index : ∀ entry ∈ tour.entries, entry.visit.index = ahead
  seat : ∀ node ∈ tour.kept?, ∀ parent ∈ above.head?.bind kept?,
    parent.children[ahead]? = some node

mutual

/-- The tour is regular at the node and below it, and every entry phase was told the place. -/
def Orderly (count : Nat) (visit : Visit) : Tour → Prop
  | removed found entries =>
    Regular count (removed found entries) ∧ ∀ entry ∈ entries, entry.visit = visit
  | kept found entries left inside exits =>
    Regular count (kept found entries left inside exits) ∧
      (∀ entry ∈ entries, entry.visit = visit) ∧
        OrderlyEach count (left.kind :: visit.ancestors) 0 inside

/-- The tours are orderly, each behind those of the nodes kept before it. -/
def OrderlyEach (count : Nat) (ancestors : List Kind) (index : Nat) : List Tour → Prop
  | [] => True
  | tour :: rest =>
    Orderly count ⟨ancestors, index⟩ tour ∧
      OrderlyEach count ancestors (index + (kept? tour).toList.length) rest

end

/-- What several tours keep is put together in order. -/
theorem keptEach_append (tours tours' : List Tour) :
    keptEach (tours ++ tours') = keptEach tours ++ keptEach tours' := by
  induction tours with
  | nil => rfl
  | cons tour rest ih => rw [List.cons_append, keptEach, keptEach, ih, List.append_assoc]

/-- Orderly tours stay so behind the first of them, at the number of nodes kept by then. -/
theorem OrderlyEach.of_append {count : Nat} {ancestors : List Kind} {index : Nat}
    {before after : List Tour} (h : OrderlyEach count ancestors index (before ++ after)) :
    OrderlyEach count ancestors (index + (keptEach before).length) after := by
  induction before generalizing index with
  | nil => exact h
  | cons tour rest ih =>
    have hrest := ih h.2
    rwa [Nat.add_assoc, ← List.length_append] at hrest

/-- An orderly tour is regular. -/
theorem Orderly.regular {count : Nat} {visit : Visit} {tour : Tour}
    (h : tour.Orderly count visit) : tour.Regular count := by
  cases tour with
  | removed found entries => exact h.1
  | kept found entries left inside exits => exact h.1

/-- All entries of a tour are made on the same visit. -/
theorem Orderly.visit_eq {count : Nat} {visit : Visit} {tour : Tour}
    (h : tour.Orderly count visit) : ∀ entry ∈ tour.entries, entry.visit = visit := by
  cases tour with
  | removed found entries => exact h.2
  | kept found entries left inside exits => exact h.2.1

/-- The part of an orderly tour at a place is orderly there. -/
theorem Orderly.within {count : Nat} {top tour : Tour} {above : List Tour} {ahead : Nat}
    (h : top.Orderly count .top) (hwithin : Within top above ahead tour) :
    ∃ ancestors, ancestors.map some = above.map (fun tour => tour.left?.map Node.kind) ∧
      tour.Orderly count ⟨ancestors, ahead⟩ := by
  induction hwithin with
  | top => exact ⟨[], rfl, h⟩
  | @inside above ahead found entries left before tour after exits hwithin ih =>
    obtain ⟨ancestors, hancestors, -, -, hinside⟩ := ih
    refine ⟨left.kind :: ancestors, ?_, ?_⟩
    · rw [List.map_cons, List.map_cons, hancestors]
      rfl
    · have hafter := hinside.of_append
      rw [Nat.zero_add] at hafter
      exact hafter.1

/-- A node that was kept has its seat among the kept children of its parent. -/
theorem Within.seat {top tour : Tour} {above : List Tour} {ahead : Nat}
    (h : Within top above ahead tour) {node parent : Node} (hnode : tour.kept? = some node)
    (hparent : above.head?.bind kept? = some parent) : parent.children[ahead]? = some node := by
  cases h with
  | top => exact absurd hparent (by simp)
  | @inside above ahead found entries left before tour after exits h =>
    obtain rfl := Option.some.inj hparent
    have hchildren : (left.withChildren (keptEach (before ++ tour :: after))).children =
        keptEach before ++ node :: keptEach after := by
      cases left
      rw [keptEach_append, keptEach, hnode]
      rfl
    rw [hchildren, List.getElem?_append_right (Nat.le_refl _), Nat.sub_self]
    rfl

/-- **In an orderly tour every place is as it is told.** -/
theorem Orderly.placed {count : Nat} {top tour : Tour} {above : List Tour} {ahead : Nat}
    (h : top.Orderly count .top) (hwithin : Within top above ahead tour) :
    tour.Placed count above ahead := by
  obtain ⟨ancestors, hancestors, horderly⟩ := h.within hwithin
  have hdepth : ancestors.length = above.length := by
    have hlength := congrArg List.length hancestors
    rwa [List.length_map, List.length_map] at hlength
  have hparent : ancestors.head? = (above.head?.bind left?).map Node.kind := by
    cases above with
    | nil =>
      obtain rfl := List.map_eq_nil_iff.1 hancestors
      rfl
    | cons parent above =>
      obtain ⟨kind, rest, rfl, hkind, -⟩ := List.map_eq_cons_iff.1 hancestors
      exact hkind
  refine ⟨horderly.regular, ?depth, ?parent, ?parentTag, ?index, ?seat⟩
  case depth =>
    intro entry hentry
    rw [horderly.visit_eq entry hentry]
    exact hdepth
  case parent =>
    intro entry hentry
    rw [horderly.visit_eq entry hentry]
    exact hparent
  case parentTag =>
    intro entry hentry
    rw [horderly.visit_eq entry hentry, Visit.parentTag?, Visit.parent?, hparent,
      Option.bind_map]
    rfl
  case index =>
    intro entry hentry
    rw [horderly.visit_eq entry hentry]
  case seat =>
    intro node hnode parent hparent
    exact hwithin.seat hnode hparent

end Tour
end Markup
end ReactiveView
