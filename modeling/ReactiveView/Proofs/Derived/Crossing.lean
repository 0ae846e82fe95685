/-
# Getters that read ahead

A getter may read computed values that are made after it, and which it reads may depend on what
it reads before.  After whatever acts at the top level, a computed value is up to date if its
cell has never followed itself, at no moment of an act (`current_unless_crossed`).

That it never depends on itself in what is stored would not be enough (`swap_leaves_stale`).
When a write turns round the direction in which two computed values depend on each other, the
first one is run before the second one has left the entries of its latest run.  The second one
is then run by the first one, changes, and has the first one told; but this is running, and is
passed over.
-/

import ReactiveView.Proofs.Derived.History

namespace ReactiveView
namespace Reactive

open Relation (ReflTransGen TransGen)
open Recorded (Leads)

variable {σ : Type}

/-- An act, and the world in which it is begun. -/
structure Begun (σ : Type) where
  world : World σ
  act : Act

namespace Begun

/-- The machine with the act before it. -/
def machine (begun : Begun σ) : Machine σ := ⟨begun.world, .run begun.act.program, []⟩

/-- The act makes an effect that does this. -/
def Makes (begun : Begun σ) (d : Derivation) : Prop :=
  begun.act = .computed d.reader ∧ d.cell? = some ⟨begun.world.cells.size⟩ ∨
    begun.act = .effect d.reader ∧ d.cell? = none

end Begun

namespace Chronicle

variable {host : σ} {s s' : Chronicle σ} {act : Act} {past : List (Begun σ)} {e : EffectId}
  {d : Derivation} {c : CellId} {K : Derivation → Prop}

/-! ## What has been done -/

/-- These acts have been done from the start, each as it was permitted; the latest comes first. -/
inductive Past (host : σ) : List (Begun σ) → Chronicle σ → Prop
  | start : Past host [] (.start host)
  | next {act : Act} {past : List (Begun σ)} {s s' : Chronicle σ} {value : Value}
      (earlier : Past host past s) (permitted : act.Permitted s.world)
      (leads : Leads (s.runs act.program []) (s'.gives value [])) :
      Past host (⟨s.world, act⟩ :: past) s'

/-- **What never crosses itself is upheld.** -/
theorem Past.upheld (h : Past host past s)
    (hstraight : ∀ begun ∈ past, ∀ d, K d → d.Straight begun.machine.Crosses) : s.Upheld K := by
  induction h with
  | start => exact upheld_start host
  | next earlier permitted leads ih =>
    obtain ⟨hlast, hbefore⟩ := List.forall_mem_cons.1 hstraight
    obtain ⟨s₁, hleads, hupheld, -⟩ := (ih hbefore).act _ permitted hlast
    obtain rfl := eq_of_leads hleads leads
    exact hupheld

/-- Nothing is upheld of necessity but that nothing runs in a proper world. -/
theorem Past.upheld_none (h : Past host past s) : s.Upheld fun _ => False :=
  h.upheld fun _ _ _ => False.elim

/-- At every moment of the next act a live effect was made by it, or before. -/
theorem Past.made_next (h : Past host past s) (hpermitted : act.Permitted s.world)
    {m : Machine σ} (hleads : Machine.Leads ⟨s.world, .run act.program, []⟩ m)
    (hmade : s.world.Derives e d → ∃ begun ∈ past, begun.Makes d) (hd : m.world.Derives e d) :
    ∃ begun ∈ ⟨s.world, act⟩ :: past, begun.Makes d := by
  rcases h.upheld_none.proper.derives_moment hpermitted hleads hd with hbefore | hmakes
  · obtain ⟨begun, hmem, hmakes⟩ := hmade hbefore
    exact ⟨begun, List.mem_cons_of_mem _ hmem, hmakes⟩
  · exact ⟨_, List.mem_cons_self, hmakes⟩

/-- Every live effect was made by an act. -/
theorem Past.made (h : Past host past s) (hd : s.world.Derives e d) :
    ∃ begun ∈ past, begun.Makes d := by
  induction h with
  | start => exact absurd hd (World.not_derives_start host)
  | next earlier permitted leads ih => exact earlier.made_next permitted leads.machine ih hd

/-- Whatever derives a cell at some moment of an act was made by an act. -/
theorem Past.made_moment (h : Past host past s) {begun : Begun σ} (hbegun : begun ∈ past)
    {m : Machine σ} (hleads : Machine.Leads begun.machine m) (hd : m.world.Derives e d) :
    ∃ begun ∈ past, begun.Makes d := by
  induction h with
  | start => exact absurd hbegun List.not_mem_nil
  | next earlier permitted leads ih =>
    rcases List.mem_cons.1 hbegun with rfl | hbegun
    · exact earlier.made_next permitted hleads earlier.made hd
    · obtain ⟨begun, hmem, hmakes⟩ := ih hbegun
      exact ⟨begun, List.mem_cons_of_mem _ hmem, hmakes⟩

/-- A cell can be written that was not there for a computed value to be made with it. -/
theorem Past.underived (h : Past host past s) (hother : ∀ begun ∈ past, ∀ getter,
    begun.act = .computed getter → begun.world.cells.size ≠ c.index) :
    ∀ e d, s.world.Derives e d → d.cell? ≠ some c := by
  rintro e d hd hc
  obtain ⟨begun, hmem, ⟨hact, hown⟩ | ⟨-, hnone⟩⟩ := h.made hd
  · obtain rfl := Option.some.inj (hc.symm.trans hown)
    exact hother begun hmem _ hact rfl
  · exact absurd (hc.symm.trans hnone) (by simp)

end Chronicle

open Chronicle (Past)

/-- **Computed values that do not cross themselves are up to date, whatever the order in which
they were made.**  After whatever acts at the top level, in which all bodies only read:

* every act that is permitted comes to an end;
* every live effect has a body that only reads.  If it keeps a computed value, and at no moment
  of any act the cell has followed itself, then this holds what the getter would return now, or
  both are zeros. -/
theorem current_unless_crossed {host : σ} {past : List (Begun σ)} {s : Chronicle σ}
    (h : Past host past s) :
    (∀ act : Act, act.Permitted s.world → ∃ s', Past host (⟨s.world, act⟩ :: past) s') ∧
      ∀ e, s.world.isLive e = true → ∃ d : Derivation, s.world.Derives e d ∧
        ∀ c, d.cell? = some c → (∀ begun ∈ past, ¬ begun.machine.Crosses c) →
          ∃ value, Machine.Leads ⟨s.world, .run d.reader.program, []⟩
              ⟨s.world, .value value, []⟩ ∧
            (s.world.cell c).Twin value.raw := by
  have hs := h.upheld_none
  refine ⟨fun act hpermitted => ?_, fun e hlive => ?_⟩
  · obtain ⟨s', hleads, -⟩ := hs.act act hpermitted fun _ => False.elim
    exact ⟨s', .next h hpermitted hleads⟩
  · obtain ⟨d, hd⟩ := hs.proper.derives hlive
    refine ⟨d, hd, fun c hc hcrosses => ⟨_, d.reader.program_leads hs.idle, ?_⟩⟩
    have hupheld : s.Upheld (· = d) := by
      refine h.upheld fun begun hbegun d' hd' c' hc' => ?_
      subst hd'
      obtain rfl := Option.some.inj (hc.symm.trans hc')
      exact hcrosses begun hbegun
    exact (hupheld.current e d hd rfl).held c hc

/-! ## A getter that reads ahead -/

/-- Nobody is registered at the target. -/
def Registry.Unread (registry : Registry) (target : Target) : Prop :=
  ∀ p ∈ registry.sets, p.1.target = target → p.2 = []

instance (registry : Registry) (target : Target) : Decidable (registry.Unread target) :=
  inferInstanceAs (Decidable (∀ p ∈ registry.sets, p.1.target = target → p.2 = []))

/-- Nobody is registered at a target that has not been read. -/
theorem Registry.Unread.observers {registry : Registry} {target : Target}
    (h : registry.Unread target) {x : Entry} (hx : x.target = target) :
    registry.observers x = [] := by
  obtain ⟨sets⟩ := registry
  change Registry.observersIn x sets = []
  induction sets with
  | nil => rfl
  | cons p sets ih =>
    obtain ⟨hfirst, hrest⟩ := List.forall_mem_cons.1 h
    rw [Registry.observersIn]
    split
    · rename_i heq
      exact hfirst (heq ▸ hx)
    · exact ih hrest

namespace Machine

variable {m m' : Machine σ}

/-- This holds of the worlds at all moments, and the machine ends in so many steps. -/
def throughout (p : World σ → Bool) : Nat → Machine σ → Bool
  | 0, _ => false
  | count + 1, m =>
    p m.world &&
      match m.step? with
      | some m' => throughout p count m'
      | none => true

/-- What is checked at every step of a run holds wherever the run leads. -/
theorem of_throughout {p : World σ → Bool} {count : Nat} (h : m.throughout p count = true)
    (hleads : Leads m m') : p m'.world = true := by
  induction count generalizing m with
  | zero => exact absurd h Bool.false_ne_true
  | succ count ih =>
    obtain ⟨hnow, hlater⟩ := Bool.and_eq_true_iff.1 h
    rcases ReflTransGen.cases_head hleads with rfl | ⟨m₁, hstep, hleads₁⟩
    · exact hnow
    · rw [hstep] at hlater
      exact ih hlater hleads₁

end Machine

/-- A cell that nobody reads in these acts does not cross itself in them. -/
theorem Begun.not_crosses_of_unread {past : List (Begun σ)} {c : CellId} (count : Nat)
    (h : past.all fun begun => begun.machine.throughout
      (fun w => decide (w.registry.Unread (.cell c))) count) :
    ∀ begun ∈ past, ¬ begun.machine.Crosses c := by
  rintro begun hbegun ⟨m, hleads, hfollows⟩
  obtain ⟨c', -, e, d, -, -, hmem⟩ := TransGen.tail'_iff.1 hfollows
  have hunread := of_decide_eq_true
    (Machine.of_throughout (List.all_eq_true.1 h begun hbegun) hleads)
  rw [hunread.observers rfl] at hmem
  exact absurd hmem List.not_mem_nil

/-- The next act is done. -/
theorem Chronicle.Past.does {host : σ} {past : List (Begun σ)} {s : Chronicle σ}
    (h : Past host past s) (act : Act) (hpermitted : act.Permitted s.world)
    (hended : ((s.runs act.program []).run 60).ended = true) :
    Past host (⟨s.world, act⟩ :: past) (s.does act) := by
  obtain ⟨value, hleads⟩ := Chronicle.leads_does hended
  exact .next h hpermitted hleads

/-- The getter that returns what the first cell holds, or what the third one holds if that is
truthy. -/
def ahead : Reader := .load ⟨0⟩ fun value =>
  if value.truthy then .load ⟨2⟩ .gives else .gives value

/-- A cell, a computed value that may read the next one, and that one. -/
def aheadMade : Chronicle Unit :=
  [Act.cell (.bool false), .computed ahead, .computed copied].foldl Chronicle.does (.start ())

/-- Then the cell is written. -/
def aheadOnce : Chronicle Unit := aheadMade.does (.write (.store ⟨0⟩ (.text "on")))

/-- The getter that reads ahead is alive after the acts. -/
theorem derives_aheadOnce : aheadOnce.world.Derives ⟨0, 0⟩ ⟨ahead, some ⟨1⟩⟩ :=
  World.derives_getter rfl

/-- The hypotheses of `current_unless_crossed` are met by a getter that reads the computed value
that was made after it, when it is told to. -/
theorem current_unless_crossed_ahead :
    ∃ past, Past () past aheadOnce ∧
      (∃ s', Past () (⟨aheadOnce.world, .rerun ⟨0, 0⟩⟩ :: past) s') ∧
      ∃ value, Machine.Leads ⟨aheadOnce.world, .run ahead.program, []⟩
          ⟨aheadOnce.world, .value value, []⟩ ∧
        (aheadOnce.world.cell ⟨1⟩).Twin value.raw := by
  have hcell : Past () _ _ := Past.start.does (.cell (.bool false))
    (fun _ _ => rfl) (by decide +kernel)
  have hahead : Past () _ _ := hcell.does (.computed ahead)
    (fun _ => Registry.Unread.observers (by decide +kernel)) (by decide +kernel)
  have hmade : Past () _ aheadMade := hahead.does (.computed copied)
    (fun _ => Registry.Unread.observers (by decide +kernel)) (by decide +kernel)
  have honce : Past () _ aheadOnce := hmade.does (.write (.store ⟨0⟩ (.text "on")))
    (hmade.underived (List.forall_mem_cons.2 ⟨fun _ _ => by decide +kernel,
      List.forall_mem_cons.2 ⟨fun _ _ => by decide +kernel, List.forall_mem_singleton.2 nofun⟩⟩))
    (by decide +kernel)
  refine ⟨_, honce, (current_unless_crossed honce).1 _ trivial, ?_⟩
  obtain ⟨d, hd, hcurrent⟩ := (current_unless_crossed honce).2 ⟨0, 0⟩ derives_aheadOnce.isLive
  obtain rfl := hd.unique derives_aheadOnce
  exact hcurrent ⟨1⟩ rfl (Begun.not_crosses_of_unread 60 (by decide +kernel))

/-! ## Two computed values that turn round -/

/-- In what is stored, the first cell depends on the second one: the effect that stores in it
would read this now. -/
def World.Needs (w : World σ) (c c' : CellId) : Prop :=
  ∃ e d, w.Derives e d ∧ d.cell? = some c ∧ Entry.cell c' ∈ d.reader.entries w

/-- The getter that returns what the second cell holds, or else what `back` does. -/
def forth : Reader := .load ⟨0⟩ fun way =>
  if way.truthy then .load ⟨1⟩ .gives else .load ⟨3⟩ .gives

/-- The getter that denies what `forth` returns, or else returns what the second cell holds. -/
def back : Reader := .load ⟨0⟩ fun way =>
  if way.truthy then .load ⟨2⟩ fun value => .gives (.bool !value.truthy) else .load ⟨1⟩ .gives

/-- Two cells, and the two computed values. -/
def swapMade : Chronicle Unit :=
  [Act.cell (.bool true), .cell (.bool true), .computed forth, .computed back].foldl
    Chronicle.does (.start ())

/-- Then the first cell is written. -/
def swapOnce : Chronicle Unit := swapMade.does (.write (.store ⟨0⟩ (.bool false)))

/-- A body that reads a cell and goes on reads this cell, and what it reads then. -/
theorem Reader.mem_entries_load {w : World σ} {c c' : CellId} {next : Value → Reader} :
    Entry.cell c' ∈ (Reader.load c next).entries w ↔
      c' = c ∨ Entry.cell c' ∈ (next (w.cell c).wrap).entries w := by
  simp [Reader.load, Reader.entries, Op.entry?, World.answer, Entry.cell]

/-- Of the two getters each one needs the other one at times, but never both do. -/
theorem World.not_needs_self {w : World σ} (hderives : ∀ e d, w.Derives e d →
    d = ⟨forth, some ⟨2⟩⟩ ∨ d = ⟨back, some ⟨3⟩⟩) (c : CellId) : ¬ TransGen w.Needs c c := by
  have hnone (c' : CellId) (value : Value) : Entry.cell c' ∉ (Reader.gives value).entries w :=
    List.not_mem_nil
  cases hway : (w.cell ⟨0⟩).wrap.truthy with
  | true =>
    refine CellId.not_transGen_self CellId.index ?_ c
    rintro c c' ⟨e, d, hd, hc, hmem⟩
    rcases hderives e d hd with rfl | rfl <;> obtain rfl := Option.some.inj hc
    · simp only [forth, Reader.mem_entries_load, hway, if_true, hnone, or_false] at hmem
      rcases hmem with rfl | rfl <;> decide
    · simp only [back, Reader.mem_entries_load, hway, if_true, hnone, or_false] at hmem
      rcases hmem with rfl | rfl <;> decide
  | false =>
    -- now the third cell comes after the fourth one
    refine CellId.not_transGen_self (fun c => if c.index = 2 then 4 else c.index) ?_ c
    rintro c c' ⟨e, d, hd, hc, hmem⟩
    rcases hderives e d hd with rfl | rfl <;> obtain rfl := Option.some.inj hc
    · simp only [forth, Reader.mem_entries_load, hway, Bool.false_eq_true, if_false, hnone,
        or_false] at hmem
      rcases hmem with rfl | rfl <;> decide
    · simp only [back, Reader.mem_entries_load, hway, Bool.false_eq_true, if_false, hnone,
        or_false] at hmem
      rcases hmem with rfl | rfl <;> decide

/-- The getters that change places are alive after the acts. -/
theorem derives_swapOnce : swapOnce.world.Derives ⟨0, 0⟩ ⟨forth, some ⟨2⟩⟩ :=
  World.derives_getter rfl

/-- **Not to depend on itself in what is stored is not enough.**  At every moment of every act
neither computed value depends on itself; but after the write the first one holds another value
than its getter would return. -/
theorem swap_leaves_stale :
    ∃ past, Past () past swapOnce ∧
      (∀ begun ∈ past, ∀ m, Machine.Leads begun.machine m → ∀ c, ¬ TransGen m.world.Needs c c) ∧
      swapOnce.world.Derives ⟨0, 0⟩ ⟨forth, some ⟨2⟩⟩ ∧
      ∃ value, Machine.Leads ⟨swapOnce.world, .run forth.program, []⟩
          ⟨swapOnce.world, .value value, []⟩ ∧
        ¬ (swapOnce.world.cell ⟨2⟩).Twin value.raw := by
  have hfirst : Past () _ _ := Past.start.does (.cell (.bool true))
    (fun _ _ => rfl) (by decide +kernel)
  have hsecond : Past () _ _ := hfirst.does (.cell (.bool true))
    (fun _ _ => rfl) (by decide +kernel)
  have hforth : Past () _ _ := hsecond.does (.computed forth)
    (fun _ _ => rfl) (by decide +kernel)
  have hmade : Past () _ swapMade := hforth.does (.computed back)
    (fun _ => Registry.Unread.observers (by decide +kernel)) (by decide +kernel)
  have honce : Past () _ swapOnce := hmade.does (.write (.store ⟨0⟩ (.bool false)))
    (hmade.underived (List.forall_mem_cons.2 ⟨fun _ _ => by decide +kernel,
      List.forall_mem_cons.2 ⟨fun _ _ => by decide +kernel, List.forall_mem_cons.2
        ⟨nofun, List.forall_mem_singleton.2 nofun⟩⟩⟩))
    (by decide +kernel)
  have hheld : swapOnce.world.cell ⟨2⟩ = .bool false := rfl
  have hnow : forth.value swapOnce.world = .bool true := rfl
  refine ⟨_, honce, fun begun hbegun m hleads => World.not_needs_self fun e d hd => ?_,
    derives_swapOnce, _, forth.program_leads rfl, ?_⟩
  · obtain ⟨maker, hmaker, hmakes⟩ := honce.made_moment hbegun hleads hd
    obtain ⟨reader, cell?⟩ := d
    simp only [List.mem_cons, List.not_mem_nil, or_false] at hmaker
    -- only two of the acts have made an effect
    rcases hmaker with rfl | rfl | rfl | rfl | rfl <;>
      obtain ⟨hact, hown⟩ | ⟨hact, -⟩ := hmakes <;> cases hact
    · cases hown
      exact .inr rfl
    · cases hown
      exact .inl rfl
  · rw [hheld, hnow]
    rintro (hsame | ⟨⟨x, hzero, -⟩, -⟩)
    · exact absurd (Value.bool.inj hsame) Bool.false_ne_true
    · exact absurd hzero (by simp)

end Reactive
end ReactiveView
