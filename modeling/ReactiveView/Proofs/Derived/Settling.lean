/-
# Derived state settles

A write makes effects stale, and the passes that it begins run them again.  They run depth
first: an effect that stores runs its own observers before the pass that ran it goes on.  So an
effect may run on inputs of which some are stale; but those it read are run later, and when they
change it is run again, unless it is running itself.

While an effect tells others of what it has stored, only those are run that heard of its cell
when it stored: they were registered there, or at cells that followed it (`World.Hears`).  For
whoever is run registers anew, and nobody else does (`World.Guarded`).  So if the effect itself
is passed over, its cell followed itself at that moment.

What a stretch of all this comes to is `Chronicle.Settles`.  Whoever is not current at its end,
and whose cell never follows itself, was not current at its beginning, was not told of anything,
and is still registered as before; so the pass that is to tell it will find it.  The induction
is on the number of effects that are not running (`allPass`).
-/

import ReactiveView.Proofs.Derived.Current
import ReactiveView.Proofs.Derived.Moments
import ReactiveView.Proofs.Effects.Termination

namespace ReactiveView
namespace Reactive

open Relation (TransGen ReflTransGen)
open Recorded (Leads)

variable {σ : Type}

/-! ## Who may be run by whom -/

variable {X : CellId → Prop} {D : EffectId → EffectId → Prop}

/-- The effect stores in none of these cells. -/
def Derivation.Straight (X : CellId → Prop) (d : Derivation) : Prop :=
  ∀ c, d.cell? = some c → ¬ X c

/-- At all moments from here on the world is proper, and only these cells follow themselves. -/
def Recorded.Within (X : CellId → Prop) (r : Recorded σ) : Prop :=
  ∀ r', Leads r r' → r'.machine.world.Proper ∧ ∀ c, TransGen r'.machine.world.Follows c c → X c

/-- What holds at all moments from here on holds from any later moment on. -/
theorem Recorded.Within.leads {r r' : Recorded σ} (h : r.Within X) (hleads : Leads r r') :
    r'.Within X := fun r'' hleads' => h r'' (hleads.trans hleads')

/-- In particular the world is proper now. -/
theorem Recorded.Within.proper {r : Recorded σ} (h : r.Within X) : r.machine.world.Proper :=
  (h r (.refl r)).1

/-- A pass stays within what crosses itself from any moment before it. -/
theorem Recorded.within_of_leads {r : Recorded σ} {m : Machine σ} (h : r.machine.Deriving)
    (hleads : Machine.Leads m r.machine) : r.Within m.Crosses := fun _ hr' =>
  ⟨(h.leads hr'.machine).1.proper, fun _ hfollows => ⟨_, hleads.trans hr'.machine, hfollows⟩⟩

namespace World

variable {w w' : World σ} {e id : EffectId} {d : Derivation} {c : CellId}

/-- The effect is registered at the cell, or at one that follows it. -/
def Hears (w : World σ) (c : CellId) (id : EffectId) : Prop :=
  ∃ c', ReflTransGen w.Follows c' c ∧ id ∈ w.registry.observers (.cell c')

/-- Each running effect has only some effects run before it ends (`D`): whoever is registered
where it or one of these stores is one of these.  It is not one of these itself, unless its cell
follows itself. -/
structure Guarded (X : CellId → Prop) (D : EffectId → EffectId → Prop) (w : World σ) : Prop where
  closed : ∀ e, w.isRunning e = true → ∀ e' d c, e' = e ∨ D e e' → w.Derives e' d →
    d.cell? = some c → ∀ id ∈ w.registry.observers (.cell c), D e id
  apart : ∀ e d, w.isRunning e = true → w.Derives e d → d.Straight X → ¬ D e e

/-- All running effects may have the effect run. -/
def Called (D : EffectId → EffectId → Prop) (w : World σ) (id : EffectId) : Prop :=
  ∀ e, w.isRunning e = true → D e id

/-- Who runs is told by the stack of observers. -/
theorem isRunning_congr (h : w'.observers = w.observers) (e : EffectId) :
    w'.isRunning e = w.isRunning e := by rw [isRunning, isRunning, h]

/-- With an empty stack nobody runs. -/
theorem isRunning_of_idle (h : w.observers = []) (e : EffectId) : w.isRunning e = false := by
  rw [isRunning, h]
  rfl

/-- Where nobody runs there is nothing to guard. -/
theorem guarded_of_idle (h : w.observers = []) : w.Guarded X D where
  closed e hrunning := absurd hrunning (by simp [isRunning_of_idle h])
  apart e _ hrunning := absurd hrunning (by simp [isRunning_of_idle h])

/-- With an empty stack any effect may be called. -/
theorem called_of_idle (h : w.observers = []) (id : EffectId) : w.Called D id :=
  fun e hrunning => absurd hrunning (by simp [isRunning_of_idle h])

/-- Whom the running effects may have run depends on the stack alone. -/
theorem called_congr (h : w'.observers = w.observers) (id : EffectId) :
    w'.Called D id ↔ w.Called D id := by simp only [Called, isRunning_congr h]

/-- **Who is called while it is running stores in a cell that follows itself.** -/
theorem Guarded.isRunning_eq_false (h : w.Guarded X D) (hcalled : w.Called D e)
    (hd : w.Derives e d) (hstraight : d.Straight X) : w.isRunning e = false := by
  rw [← Bool.not_eq_true]
  exact fun hrunning => h.apart e d hrunning hd hstraight (hcalled e hrunning)

/-- As long as only effects that are called register anew, the running effects stay guarded. -/
theorem Guarded.congr (h : w.Guarded X D) (hobservers : w'.observers = w.observers)
    (hbodies : ∀ e, w'.body? e = w.body? e)
    (hspared : ∀ id, ¬ w.Called D id → ∀ x,
      id ∈ w'.registry.observers x ↔ id ∈ w.registry.observers x) : w'.Guarded X D where
  closed e hrunning e' d c he' hd hc id hmem := by
    rw [isRunning_congr hobservers] at hrunning
    by_cases hcalled : w.Called D id
    · exact hcalled e hrunning
    · exact h.closed e hrunning e' d c he' ((derives_congr hbodies).1 hd) hc id
        ((hspared id hcalled _).1 hmem)
  apart e d hrunning hd :=
    h.apart e d (isRunning_congr hobservers e ▸ hrunning) ((derives_congr hbodies).1 hd)

end World

namespace Chronicle

variable {s s₁ s' : Chronicle σ} {w' : World σ} {e id : EffectId} {d : Derivation} {c : CellId}
  {frames : List (Frame σ)} {ids : Finset EffectId}

/-- When the body of an effect begins, it runs beside those that did. -/
theorem Ran.isRunning (h : Ran e d s s₁) : s₁.world.isRunning id = true ↔
    id = e ∨ s.world.isRunning id = true := by
  rw [World.isRunning, h.observers, List.contains_cons, Bool.or_eq_true, beq_iff_eq,
    Option.some.injEq]
  rfl

/-- Whoever is registered there after the run was so before, or it is the effect itself: then
every other running effect may have had it run. -/
theorem Ran.closed (h : Ran e d s s₁) (hguarded : s.world.Guarded X D)
    (hcalled : s.world.Called D e) {e₀ e' : EffectId} {d' : Derivation} {c' : CellId}
    (hrunning : s.world.isRunning e₀ = true) (he' : e' = e₀ ∨ D e₀ e')
    (hd' : s.world.Derives e' d') (hc' : d'.cell? = some c')
    (hmem : id ∈ s₁.world.registry.observers (.cell c')) : D e₀ id := by
  by_cases hid : id = e
  · exact hid ▸ hcalled e₀ hrunning
  · exact hguarded.closed e₀ hrunning e' d' c' he' hd' hc' id (((h.others id hid).2 _).1 hmem)

/-- An effect that stores in its cell has those run that hear of the cell. -/
def has (D : EffectId → EffectId → Prop) (e : EffectId) (s : Chronicle σ) (c : CellId) :
    EffectId → EffectId → Prop :=
  fun e' => if e' = e then s.world.Hears c else D e'

/-- When an effect stores in its cell, the running effects are guarded, it among them. -/
theorem Ran.guarded_store (h : Ran e d s s₁) (hd : s.world.Derives e d) (hc : d.cell? = some c)
    (hguarded : s.world.Guarded X D) (hcalled : s.world.Called D e)
    (hcrosses : TransGen s₁.world.Follows c c → X c)
    (value : Value) : (s₁.store c value).world.Guarded X (has D e s₁ c) where
  closed e₀ hrunning e' d' c' he' hd' hc' id hmem := by
    have hd₀ : s.world.Derives e' d' := (World.derives_congr h.bodies).1 hd'
    by_cases he₀ : e₀ = e
    · subst he₀
      simp only [has, if_true] at he' ⊢
      rcases he' with rfl | ⟨c₁, hfollows, hmem₁⟩
      · obtain rfl := hd₀.unique hd
        obtain rfl := Option.some.inj (hc.symm.trans hc')
        exact ⟨c, .refl, hmem⟩
      · exact ⟨c', .head ⟨e', d', hd', hc', hmem₁⟩ hfollows, hmem⟩
    · simp only [has, if_neg he₀] at he' ⊢
      exact h.closed hguarded hcalled ((h.isRunning.1 hrunning).resolve_left he₀) he' hd₀ hc' hmem
  apart e₀ d' hrunning hd' hstraight := by
    have hd₀ : s.world.Derives e₀ d' := (World.derives_congr h.bodies).1 hd'
    by_cases he₀ : e₀ = e
    · subst he₀
      obtain rfl := hd₀.unique hd
      simp only [has, if_true]
      rintro ⟨c₁, hfollows, hmem⟩
      exact hstraight c hc (hcrosses (.head' ⟨e₀, d', hd', hc, hmem⟩ hfollows))
    · simp only [has, if_neg he₀]
      exact hguarded.apart e₀ d' ((h.isRunning.1 hrunning).resolve_left he₀) hd₀ hstraight

/-- Whoever is registered at the cell is called. -/
theorem Ran.called_store (h : Ran e d s s₁) (hd : s.world.Derives e d) (hc : d.cell? = some c)
    (hguarded : s.world.Guarded X D) (hcalled : s.world.Called D e) (value : Value)
    (hmem : id ∈ s₁.world.registry.observers (.cell c)) :
    (s₁.store c value).world.Called (has D e s₁ c) id := by
  intro e₀ hrunning
  by_cases he₀ : e₀ = e
  · simp only [has, if_pos he₀]
    exact ⟨c, .refl, hmem⟩
  · simp only [has, if_neg he₀]
    have hrunning₀ := (h.isRunning.1 hrunning).resolve_left he₀
    exact h.closed hguarded hcalled hrunning₀ (.inr (hcalled e₀ hrunning₀)) hd hc hmem

/-- Whoever is called then was called before. -/
theorem Ran.called_of_store (h : Ran e d s s₁) (hoff : s.world.isRunning e = false) {value : Value}
    (hcalled : (s₁.store c value).world.Called (has D e s₁ c) id) : s.world.Called D id := by
  intro e₀ hrunning
  have he₀ : e₀ ≠ e := by
    rintro rfl
    exact absurd hrunning (by simp [hoff])
  have hhas := hcalled e₀ (h.isRunning.2 (.inr hrunning))
  simpa only [has, if_neg he₀] using hhas

/-! ## What a stretch comes to -/

/-- Whoever is not current in the end, and stores in no cell that follows itself, was not
current before, was not told of anything, and is registered as before.  So is whoever is not
called.  If all were current before, all are, and nothing has changed that can be read. -/
structure Settles (X : CellId → Prop) (D : EffectId → EffectId → Prop) (told : EffectId → Prop)
    (s s' : Chronicle σ) : Prop where
  bodies : ∀ e, s'.world.body? e = s.world.body? e
  size : s'.world.cells.size = s.world.cells.size
  objects : s'.world.objects = s.world.objects
  observers : s'.world.observers = s.world.observers
  stale : ∀ e d, s.world.Derives e d → d.Straight X → ¬ s'.Current e d →
    ¬ s.Current e d ∧ ¬ told e ∧
      ∀ x, e ∈ s'.world.registry.observers x ↔ e ∈ s.world.registry.observers x
  spared : ∀ id, ¬ s.world.Called D id →
    ∀ x, id ∈ s'.world.registry.observers x ↔ id ∈ s.world.registry.observers x
  still : (∀ e d, s.world.Derives e d → s.Current e d) →
    s'.world.cells = s.world.cells ∧ ∀ e d, s.world.Derives e d → s'.Current e d

variable {told told' told'' : EffectId → Prop}

/-- To do nothing settles those who were told nothing. -/
theorem Settles.refl (s : Chronicle σ) : s.Settles X D (fun _ => False) s where
  bodies _ := rfl
  size := rfl
  objects := rfl
  observers := rfl
  stale _ _ _ _ hstale := ⟨hstale, id, fun _ => Iff.rfl⟩
  spared _ _ _ := Iff.rfl
  still hall := ⟨rfl, hall⟩

/-- Whoever was current, or was told, is current in the end. -/
theorem Settles.current (h : s.Settles X D told s') (hd : s.world.Derives e d)
    (hstraight : d.Straight X) (hbefore : s.Current e d ∨ told e) : s'.Current e d := by
  refine Classical.byContradiction ?_
  intro hstale
  obtain ⟨hstale₀, hnot, -⟩ := h.stale e d hd hstraight hstale
  exact hbefore.elim hstale₀ hnot

/-- Others are told, if they are none of those that are stale in the end. -/
theorem Settles.of_told (h : s.Settles X D told s') (htold : ∀ e d, s.world.Derives e d →
    d.Straight X → told' e → told e) : s.Settles X D told' s' :=
  { h with
    stale := fun e d hd hstraight hstale => by
      obtain ⟨hstale₀, hnot, hsame⟩ := h.stale e d hd hstraight hstale
      exact ⟨hstale₀, fun htold' => hnot (htold e d hd hstraight htold'), hsame⟩ }

/-- Two stretches of a settlement, one after the other, are one. -/
theorem Settles.trans (h : s.Settles X D told s₁) (h' : s₁.Settles X D told' s')
    (htold : ∀ e d, s.world.Derives e d →
      (∀ x, e ∈ s₁.world.registry.observers x ↔ e ∈ s.world.registry.observers x) →
      told'' e → told e ∨ told' e) : s.Settles X D told'' s' where
  bodies e := (h'.bodies e).trans (h.bodies e)
  size := h'.size.trans h.size
  objects := h'.objects.trans h.objects
  observers := h'.observers.trans h.observers
  stale e d hd hstraight hstale := by
    obtain ⟨hstale₁, hnot', hsame'⟩ :=
      h'.stale e d ((World.derives_congr h.bodies).2 hd) hstraight hstale
    obtain ⟨hstale₀, hnot, hsame⟩ := h.stale e d hd hstraight hstale₁
    refine ⟨hstale₀, fun htold'' => ?_, fun x => (hsame' x).trans (hsame x)⟩
    exact (htold e d hd hsame htold'').elim hnot hnot'
  spared id hnot x := by
    have hnot₁ : ¬ s₁.world.Called D id := fun hcalled =>
      hnot ((World.called_congr h.observers id).1 hcalled)
    exact (h'.spared id hnot₁ x).trans (h.spared id hnot x)
  still hall := by
    obtain ⟨hcells₁, hall₁⟩ := h.still hall
    obtain ⟨hcells, hall'⟩ := h'.still fun e d hd =>
      hall₁ e d ((World.derives_congr h.bodies).1 hd)
    exact ⟨hcells.trans hcells₁, fun e d hd =>
      hall' e d ((World.derives_congr h.bodies).2 hd)⟩

/-- The body has ended, and there was nothing to store. -/
theorem Ran.settles (h : Ran e d s s₁) (hd : s.world.Derives e d) (hcalled : s.world.Called D e)
    (hheld : ∀ c, d.cell? = some c → (s₁.world.cell c).Twin (d.reader.value s.world).raw) :
    s.Settles X D (· = e)
      ⟨{ s₁.world with observers := s₁.world.observers.tail }, s₁.logs⟩ := by
  have hcurrent (id : EffectId) (d' : Derivation) (hd' : s.world.Derives id d')
      (hbefore : s.Current id d' ∨ id = e) :
      Current ⟨{ s₁.world with observers := s₁.world.observers.tail }, s₁.logs⟩ id d' := by
    refine current_of_tail ?_
    by_cases hid : id = e
    · subst hid
      obtain rfl := hd'.unique hd
      exact h.current hheld
    · exact h.current_other hid (hbefore.resolve_right hid)
  refine ⟨h.bodies, congrArg Array.size h.cells, h.objects, by rw [h.observers]; rfl, ?_,
    fun id hnot => ?_,
    fun hall => ⟨h.cells, fun id d' hd' => hcurrent id d' hd' (.inl (hall id d' hd'))⟩⟩
  · intro id d' hd' _ hstale
    have hid : id ≠ e := fun hid => hstale (hcurrent id d' hd' (.inr hid))
    exact ⟨fun hbefore => hstale (hcurrent id d' hd' (.inl hbefore)), hid, (h.others id hid).2⟩
  · exact (h.others id fun hid => hnot (hid ▸ hcalled)).2

/-- The body has ended, and what it stored has been told to the observers of the cell. -/
theorem Ran.settles_store (h : Ran e d s s₁) (hproper : s.world.Proper) (hd : s.world.Derives e d)
    (hc : d.cell? = some c) (hcalled : s.world.Called D e) (hoff : s.world.isRunning e = false)
    {old : Value} (hold : s₁.world.cell? c = some old)
    (hdiffers : (old == (d.reader.value s.world).raw) = false)
    (hpass : (s₁.store c (d.reader.value s.world).raw).Settles X (has D e s₁ c)
      (· ∈ s₁.world.registry.observers (.cell c)) s') :
    s.Settles X D (· = e) ⟨{ s'.world with observers := s'.world.observers.tail }, s'.logs⟩ where
  bodies id := (hpass.bodies id).trans (h.bodies id)
  size := hpass.size.trans (h.size_store _)
  objects := hpass.objects.trans h.objects
  observers := by
    have hobservers : s'.world.observers = s₁.world.observers := hpass.observers
    rw [hobservers, h.observers]
    rfl
  stale id d' hd' hstraight hstale := by
    have hd₁ : (s₁.store c (d.reader.value s.world).raw).world.Derives id d' :=
      (World.derives_congr h.bodies).2 hd'
    obtain ⟨hstale₁, hnot, hsame⟩ :=
      hpass.stale id d' hd₁ hstraight fun hcurrent => hstale (current_of_tail hcurrent)
    have hid : id ≠ e := by
      rintro rfl
      obtain rfl := hd'.unique hd
      exact hstale₁ (h.current_self hc (by rw [hold]; rfl) hnot)
    refine ⟨fun hcurrent => ?_, hid, fun x => (hsame x).trans ((h.others id hid).2 x)⟩
    exact hstale₁ (h.current_store hproper hd hc _ hd' hid hnot hcurrent)
  spared id hnot x := by
    have hid : id ≠ e := fun hid => hnot (hid ▸ hcalled)
    exact (hpass.spared id (fun hcalled₁ => hnot (h.called_of_store hoff hcalled₁)) x).trans
      ((h.others id hid).2 x)
  still hall := by
    -- a current effect stores only what differs from itself, and that is there already
    have hcell : s.world.cell? c = some old := by rw [← hold, World.cell?, World.cell?, h.cells]
    have hheld := (hall e d hd).held c hc
    rw [World.cell, hcell] at hheld
    obtain rfl := hheld.eq_of_beq_eq_false hdiffers
    have hcells : (s₁.store c (d.reader.value s.world).raw).world.cells = s.world.cells :=
      (World.setCell_eq_self hold).trans h.cells
    obtain ⟨hcells', hall'⟩ := hpass.still fun id d' hd' => by
      have hd₀ : s.world.Derives id d' := (World.derives_congr h.bodies).1 hd'
      refine Current.store_same ?_ hold
      by_cases hid : id = e
      · subst hid
        obtain rfl := hd₀.unique hd
        refine h.current fun c' hc' => ?_
        obtain rfl := Option.some.inj (hc.symm.trans hc')
        rw [World.cell, hold]
        exact .refl _
      · exact h.current_other hid (hall id d' hd₀)
    exact ⟨hcells'.trans hcells, fun id d' hd' =>
      current_of_tail (hall' id d' ((World.derives_congr h.bodies).2 hd'))⟩

/-! ## Passes -/

/-- All live effects are among these. -/
def Among (ids : Finset EffectId) (s : Chronicle σ) : Prop :=
  ∀ e d, s.world.Derives e d → e ∈ ids

/-- The live effects are read off the bodies. -/
theorem Among.congr (h : s.Among ids) (hbodies : ∀ e, s'.world.body? e = s.world.body? e) :
    s'.Among ids := fun e d hd => h e d ((World.derives_congr hbodies).1 hd)

/-- All live effects are in the arena. -/
theorem among_live (s : Chronicle σ) : s.Among s.world.effects.live := by
  intro e d hd
  obtain ⟨effect, heffect, -⟩ := Option.map_eq_some_iff.1 hd
  exact Arena.mem_live heffect

/-- A pass over the observers that it has before it settles them, if so many effects are not
running. -/
def AllPass (σ : Type) (X : CellId → Prop) (ids : Finset EffectId) (room : Nat) : Prop :=
  ∀ (D : EffectId → EffectId → Prop) (s : Chronicle σ) (now : List EffectId) (value : Value)
    (later : List Entry) (frames : List (Frame σ)),
    (s.gives value (.notify now later :: frames)).Within X → s.Among ids →
    s.world.waiting ids = room → s.world.Guarded X D → (∀ id ∈ now, s.world.Called D id) →
    ∃ s' value', Leads (s.gives value (.notify now later :: frames))
        (s'.gives value' (.notify [] later :: frames)) ∧
      s.Settles X D (· ∈ now) s'

/-- The value is stored, and the observers of the cell settle. -/
theorem Ran.store_leads (h : Ran e d s s₁) (hproper : s.world.Proper) (hd : s.world.Derives e d)
    (hc : d.cell? = some c) (hids : s.Among ids)
    (hrooms : ∀ room < s.world.waiting ids, AllPass σ X ids room)
    (hoff : s.world.isRunning e = false) (hguarded : s.world.Guarded X D)
    (hcalled : s.world.Called D e) (frames : List (Frame σ))
    (hwithin : (s₁.runs (.write (.store c (d.reader.value s.world)) fun _ => .done)
      (.leave :: frames)).Within X) :
    ∃ s', Leads (s₁.runs (.write (.store c (d.reader.value s.world)) fun _ => .done)
        (.leave :: frames)) (s'.gives .undefined frames) ∧ s.Settles X D (· = e) s' := by
  have hown : (s₁.world.cell? c).isSome = true :=
    hwithin.proper.own e d c ((World.derives_congr h.bodies).2 hd) hc
  obtain ⟨old, hold⟩ := Option.isSome_iff_exists.1 hown
  -- An equal value is not stored, and then nobody is told.
  cases hsame : old == (d.reader.value s.world).raw with
  | true =>
    have hwrite : s₁.world.write (.store c (d.reader.value s.world)) = none := by
      simp only [World.write, hold, hsame, if_true]
    refine ⟨_, leads_write_none hwrite (leads_ret (leads_leave (.refl _))),
      h.settles hd hcalled fun c' hc' => ?_⟩
    obtain rfl := Option.some.inj (hc.symm.trans hc')
    rw [World.cell, hold]
    exact Value.twin_of_beq hsame
  | false =>
    have hwrite : s₁.world.write (.store c (d.reader.value s.world)) =
        some (s₁.world.setCell c (some (d.reader.value s.world).raw), [.cell c]) := by
      simp [World.write, hold, hsame]
    have hbegins : Leads (s₁.runs (.write (.store c (d.reader.value s.world)) fun _ => .done)
        (.leave :: frames)) ((s₁.store c (d.reader.value s.world).raw).gives .undefined
          (.notify (s₁.world.registry.observers (.cell c)) [] :: .bind (fun _ => .done) ::
            .leave :: frames)) :=
      leads_write_some hwrite (leads_notify_entry (.refl _))
    have hlt : (s₁.store c (d.reader.value s.world).raw).world.waiting ids <
        s.world.waiting ids := World.waiting_lt (hids e d hd) hoff h.observers
    obtain ⟨s₂, value, hpass, hsettles⟩ := hrooms _ hlt (has D e s₁ c) _ _ _ _ _
      (hwithin.leads hbegins) (hids.congr h.bodies) rfl
      (h.guarded_store hd hc hguarded hcalled ((hwithin _ (.refl _)).2 c) _)
      fun id hmem => h.called_store hd hc hguarded hcalled _ hmem
    refine ⟨_, hbegins.trans (hpass.trans ?_),
      h.settles_store hproper hd hc hcalled hoff hold hsame hsettles⟩
    exact leads_notify_done (leads_bind (leads_ret (leads_leave (.refl _))))

/-- **A run of an effect settles it**, and whoever it tells of what it stores. -/
theorem run_settles (hproper : s.world.Proper) (hids : s.Among ids)
    (hrooms : ∀ room < s.world.waiting ids, AllPass σ X ids room)
    (hoff : s.world.isRunning e = false) (hguarded : s.world.Guarded X D)
    (hcalled : s.world.Called D e) (hbegin : s.world.beginRun e = some (d.program, w'))
    (frames : List (Frame σ))
    (hwithin : ((s.begun e w').runs d.program (.leave :: frames)).Within X) :
    ∃ s' value, Leads ((s.begun e w').runs d.program (.leave :: frames)) (s'.gives value frames) ∧
      s.Settles X D (· = e) s' := by
  have hd : s.world.Derives e d := World.body?_of_beginRun hbegin
  obtain ⟨s₁, hleads, hran⟩ := ran_leads hproper.noted hbegin (.leave :: frames)
  have hwithin₁ := hwithin.leads hleads
  cases hc : d.cell? with
  | none =>
    rw [hc] at hleads
    exact ⟨_, _, hleads.trans (leads_ret (leads_leave (.refl _))),
      hran.settles hd hcalled fun c hc' => absurd (hc.symm.trans hc') (by simp)⟩
  | some c =>
    rw [hc] at hleads hwithin₁
    obtain ⟨s', hstored, hsettles⟩ :=
      hran.store_leads hproper hd hc hids hrooms hoff hguarded hcalled frames hwithin₁
    exact ⟨s', _, hleads.trans hstored, hsettles⟩

/-- A pass comes to its next observer: it settles if it is live and not running, and is passed
over else. -/
theorem next_settles (id : EffectId) (now : List EffectId) (value : Value) (later : List Entry)
    (frames : List (Frame σ))
    (hwithin : (s.gives value (.notify (id :: now) later :: frames)).Within X)
    (hids : s.Among ids) (hrooms : ∀ room < s.world.waiting ids, AllPass σ X ids room)
    (hguarded : s.world.Guarded X D) (hcalled : s.world.Called D id) :
    ∃ s' value', Leads (s.gives value (.notify (id :: now) later :: frames))
        (s'.gives value' (.notify now later :: frames)) ∧
      s.Settles X D (· = id) s' := by
  cases hoff : s.world.isRunning id with
  | true =>
    refine ⟨s, value, leads_notify_running hoff (.refl _),
      (Settles.refl s).of_told fun e d hd hstraight he => ?_⟩
    subst he
    exact absurd (hguarded.isRunning_eq_false hcalled hd hstraight) (by simp [hoff])
  | false =>
    cases hlive : s.world.isLive id with
    | false =>
      refine ⟨s, _, leads_notify_stopped (World.beginRun_of_not_isLive hlive) hoff (.refl _),
        (Settles.refl s).of_told fun e d hd _ he => ?_⟩
      subst he
      exact absurd hd.isLive (by simp [hlive])
    | true =>
      obtain ⟨d, hd⟩ := hwithin.proper.derives hlive
      obtain ⟨w', hbegin⟩ := hd.beginRun
      obtain ⟨s', value', hleads, hsettles⟩ := run_settles hwithin.proper hids hrooms hoff hguarded
        hcalled hbegin (.notify now later :: frames)
        (hwithin.leads (leads_notify_run hbegin hoff (.refl _)))
      exact ⟨s', value', leads_notify_run hbegin hoff hleads, hsettles⟩

/-- **Passes settle whom they are to tell.**  The induction is on the number of effects that are
not running, and within it on the pass. -/
theorem allPass (X : CellId → Prop) (ids : Finset EffectId) (room : Nat) :
    AllPass σ X ids room := by
  induction room using Nat.strongRecOn with
  | ind room hrooms =>
    intro D s now value later frames hwithin hids hroom hguarded hcalled
    induction now generalizing s value with
    | nil =>
      exact ⟨s, value, .refl _,
        (Settles.refl s).of_told fun _ _ _ _ hmem => absurd hmem List.not_mem_nil⟩
    | cons id now ih =>
      obtain ⟨s₁, value₁, hfirst, hsettles₁⟩ := next_settles id now value later frames hwithin hids
        (hroom ▸ hrooms) hguarded (hcalled id List.mem_cons_self)
      have hobservers := hsettles₁.observers
      obtain ⟨s', value', hrest, hsettles⟩ := ih s₁ value₁ (hwithin.leads hfirst)
        (hids.congr hsettles₁.bodies) ((World.waiting_congr hobservers).trans hroom)
        (hguarded.congr hobservers hsettles₁.bodies hsettles₁.spared)
        fun e he => (World.called_congr hobservers e).2 (hcalled e (List.mem_cons_of_mem id he))
      exact ⟨s', value', hfirst.trans hrest,
        hsettles₁.trans hsettles fun e d _ _ hmem => List.mem_cons.1 hmem⟩

/-! ## While nothing is running -/

/-- A live effect that is run by name settles. -/
theorem rerun_settles (D : EffectId → EffectId → Prop) (hproper : s.world.Proper)
    (hidle : s.world.observers = []) (hbegin : s.world.beginRun e = some (d.program, w'))
    (frames : List (Frame σ))
    (hwithin : ((s.begun e w').runs d.program (.leave :: frames)).Within X) :
    ∃ s' value, Leads ((s.begun e w').runs d.program (.leave :: frames)) (s'.gives value frames) ∧
      s.Settles X D (· = e) s' :=
  run_settles hproper s.among_live (fun room _ => allPass X _ room)
    (World.isRunning_of_idle hidle e) (World.guarded_of_idle hidle) (World.called_of_idle hidle e)
    hbegin frames hwithin

/-- The passes over some entries settle whoever is registered there. -/
theorem entries_settle (D : EffectId → EffectId → Prop) (later : List Entry) (now : List EffectId)
    (value : Value) (frames : List (Frame σ)) (hidle : s.world.observers = [])
    (hwithin : (s.gives value (.notify now later :: frames)).Within X) :
    ∃ s' value', Leads (s.gives value (.notify now later :: frames)) (s'.gives value' frames) ∧
      s.Settles X D (fun e => e ∈ now ∨ ∃ x ∈ later, e ∈ s.world.registry.observers x) s' := by
  have hnow := allPass X _ _ D s now value later frames hwithin s.among_live rfl
    (World.guarded_of_idle hidle) fun id _ => World.called_of_idle hidle id
  induction later generalizing s now value with
  | nil =>
    obtain ⟨s', value', hpass, hsettles⟩ := hnow
    refine ⟨s', value', hpass.trans (leads_notify_done (.refl _)),
      hsettles.of_told fun e d _ _ htold => htold.resolve_right ?_⟩
    rintro ⟨x, hx, -⟩
    exact absurd hx List.not_mem_nil
  | cons x later ih =>
    obtain ⟨s₁, value₁, hpass, hsettles₁⟩ := hnow
    have hfirst := hpass.trans (leads_notify_entry (.refl _))
    have hidle₁ : s₁.world.observers = [] := hsettles₁.observers.trans hidle
    obtain ⟨s', value', hrest, hsettles⟩ := ih (s₁.world.registry.observers x) value₁ hidle₁
      (hwithin.leads hfirst) (allPass X _ _ D s₁ _ value₁ later frames (hwithin.leads hfirst)
        s₁.among_live rfl (World.guarded_of_idle hidle₁) fun id _ => World.called_of_idle hidle₁ id)
    refine ⟨s', value', hfirst.trans hrest, ?_⟩
    -- whoever is registered as before is found by the later passes
    refine hsettles₁.trans hsettles fun e d _ hsame htold => ?_
    rcases htold with hnow | ⟨y, hy, hmem⟩
    · exact .inl hnow
    · rcases List.mem_cons.1 hy with rfl | hy
      · exact .inr (.inl ((hsame y).2 hmem))
      · exact .inr (.inr ⟨y, hy, (hsame y).2 hmem⟩)

end Chronicle
end Reactive
end ReactiveView
