/-
# Acts at the top level

A program makes objects, cells, computed values and effects, and writes, one act after the
other (`Act`).  It does so through handles: it cannot write to the cell of a computed value, and
nothing is read before it is made (`Act.Permitted`).  A getter may read what is made after the
getter: it names cells by their numbers.

An act first changes the world itself (`Act.stages`), and then bodies run.  At every moment of it
the world is gently one of those that it has made itself (`World.Proper.moment`).
-/

import ReactiveView.Proofs.Derived.Moments

namespace ReactiveView
namespace Reactive

open Relation (ReflTransGen)

variable {σ : Type}

/-- What is done at the top level. -/
inductive Act where
  /-- An object with some properties is made. -/
  | object (table : KeyTable Value)
  | cell (value : Value)
  | computed (getter : Reader)
  /-- An effect is made that only watches. -/
  | effect (body : Reader)
  /-- A property or a cell is written, or a property deleted. -/
  | write (write : Write)
  /-- An effect is run by name. -/
  | rerun (id : EffectId)
  | stop (id : EffectId)
  /-- The last handle of a computed value goes. -/
  | drop (c : Computed)

namespace World

variable {w w' : World σ} {e id : EffectId} {x : Entry} {c : CellId} {d : Derivation}

/-- The identity of the effect that is made next. -/
def nextEffect (w : World σ) : EffectId := (w.newEffect .done).1

/-- The identity that a new effect gets does not depend on its body. -/
theorem fst_newEffect (w : World σ) (body : Program σ) : (w.newEffect body).1 = w.nextEffect := by
  simp only [nextEffect, newEffect, Arena.insert]
  split <;> rfl

end World

namespace Act

/-- What is done, as a program. -/
def program : Act → Program σ
  | object table => .op (.newObject table) fun _ => .done
  | cell value => .op (.newCell value) fun _ => .done
  | computed getter => .computed getter.program fun _ => .done
  | effect body => .effect body.program fun _ => .done
  | write change => .write change fun _ => .done
  | rerun id => .rerun id .done
  | stop id => .op (.stop id) fun _ => .done
  | drop c => .dropComputed c .done

/-- The act uses handles only: a new object or cell has not been read before it was made; the
cell of a computed value is not written; and no other effect can read what is dropped, or
stores there. -/
def Permitted (w : World σ) : Act → Prop
  | object _ => ∀ x, x.target = .object ⟨w.objects.size⟩ → w.registry.observers x = []
  | cell _ => ∀ x, x.target = .cell ⟨w.cells.size⟩ → w.registry.observers x = []
  | computed _ => ∀ x, x.target = .cell ⟨w.cells.size⟩ → w.registry.observers x = []
  | write (.store c _) => ∀ e d, w.Derives e d → d.cell? ≠ some c
  | drop c => ∀ e d, w.Derives e d → e ≠ c.effect →
      ¬ d.reader.Mentions c.cell ∧ d.cell? ≠ some c.cell
  | _ => True

/-- The bodies of the live effects after the act. -/
def bodies (w : World σ) : Act → EffectId → Option (Program σ)
  | computed getter, e =>
    if e = w.nextEffect then some (Derivation.program ⟨getter, some ⟨w.cells.size⟩⟩) else w.body? e
  | effect body, e => if e = w.nextEffect then some body.program else w.body? e
  | stop id, e => if e = id then none else w.body? e
  | drop c, e => if e = c.effect then none else w.body? e
  | _, e => w.body? e

/-- The worlds that the act makes one after the other before bodies run. -/
def stages (w : World σ) : Act → List (World σ)
  | object table => [w, { w with objects := w.objects.push table }]
  | cell value => [w, { w with cells := w.cells.push (some value.raw) }]
  | computed getter =>
    [w, { w with cells := w.cells.push (some .undefined) },
      (World.newEffect { w with cells := w.cells.push (some .undefined) }
        (Derivation.program ⟨getter, some ⟨w.cells.size⟩⟩)).2]
  | effect body => [w, (w.newEffect body.program).2]
  | write change => w :: ((w.write change).map Prod.fst).toList
  | rerun _ => [w]
  | stop id => [w, w.stop id]
  | drop c => [w, w.stop c.effect, ((w.stop c.effect).answer (.endCell c.cell)).2]

end Act

namespace World

variable {w w' : World σ} {e id : EffectId} {x : Entry} {c : CellId} {d : Derivation}

/-! ## What changes where -/

/-- A stop takes no cell away. -/
theorem cells_stop (id : EffectId) : (w.stop id).cells = w.cells := by
  unfold World.stop
  split <;> rfl

/-- Stopping an effect leaves the current scope as it is. -/
theorem currentScope_stop (id : EffectId) : (w.stop id).currentScope = w.currentScope := by
  unfold World.stop
  split <;> rfl

/-- A cell that ends leaves the observers of everything else. -/
theorem observers_endCell {x : Entry} (h : x.target ≠ .cell c) :
    (w.answer (.endCell c)).2.registry.observers x = w.registry.observers x := by
  rcases w.finish_cases (.cell c) false with hfinish | ⟨-, hfinish⟩ <;>
    simp only [World.answer, hfinish]
  rw [registry_endTarget, Registry.observers_forget, if_neg h]

/-- Nobody comes to observe what ends. -/
theorem mem_observers_endCell {x : Entry}
    (h : e ∈ (w.answer (.endCell c)).2.registry.observers x) : e ∈ w.registry.observers x := by
  rcases w.finish_cases (.cell c) false with hfinish | ⟨-, hfinish⟩ <;>
    simp only [World.answer, hfinish] at h
  · exact h
  · rw [registry_endTarget, Registry.observers_forget] at h
    split at h
    · exact absurd h List.not_mem_nil
    · exact h

/-- What can be read elsewhere is not changed. -/
theorem content_endCell (h : x.target ≠ .cell c) :
    (w.answer (.endCell c)).2.content x = w.content x := by
  rcases w.finish_cases (.cell c) false with hfinish | ⟨-, hfinish⟩ <;>
    simp only [World.answer, hfinish]
  exact content_endTarget h

/-- No effect goes with a cell. -/
theorem body?_endCell (c : CellId) (e : EffectId) :
    (w.answer (.endCell c)).2.body? e = w.body? e :=
  body?_of_effects (effects_finish (.cell c) false) e

/-- When a cell is let go the others keep their values. -/
theorem cell?_endCell {c' : CellId} (h : c' ≠ c) :
    (w.answer (.endCell c)).2.cell? c' = w.cell? c' := by
  rcases w.finish_cases (.cell c) false with hfinish | ⟨-, hfinish⟩ <;>
    simp only [World.answer, hfinish]
  exact cell?_endTarget_ne fun hc => h (Target.cell.inj hc).symm

/-- A write leaves all cells but the one in which it stores. -/
theorem cell?_write {write : Write} {entries : List Entry}
    (h : w.write write = some (w', entries)) (hc : ∀ value, write ≠ .store c value) :
    w'.cell? c = w.cell? c := by
  cases wrote_of_write h with
  | set | delete => rfl
  | store c' value =>
    have hne : c' ≠ c := by
      rintro rfl
      exact hc value rfl
    exact w.cell?_setCell_ne _ hne

/-! ## New effects -/

/-- Outside all scopes a new effect belongs to none. -/
theorem newEffect_eq (h : w.currentScope = none) (body : Program σ) :
    w.newEffect body = ((w.effects.insert ⟨body, []⟩).1,
      { w with effects := (w.effects.insert ⟨body, []⟩).2 }) := by
  simp [newEffect, liveScope, h]

/-- A new effect has its body, and the others have theirs. -/
theorem body?_create (htidy : w.effects.Tidy) (body : Program σ) (e : EffectId) :
    body? { w with effects := (w.effects.insert ⟨body, []⟩).2 } e =
      if e = (w.effects.insert ⟨body, []⟩).1 then some body else w.body? e := by
  simp only [body?, htidy.get?_insert]
  split <;> rfl

/-- The identity of a new effect had no body before it was made. -/
theorem body?_fst_insert (htidy : w.effects.Tidy) (body : Program σ) :
    w.body? (w.effects.insert ⟨body, []⟩).1 = none := by
  rw [body?, htidy.get?_insert_fst]
  rfl

/-- A live effect is the new one, or it was live before. -/
theorem derives_create (htidy : w.effects.Tidy) {d' : Derivation}
    (h : Derives { w with effects := (w.effects.insert ⟨d.program, []⟩).2 } e d') :
    e = (w.effects.insert ⟨d.program, []⟩).1 ∧ d' = d ∨ w.Derives e d' := by
  rw [Derives, body?_create htidy] at h
  split at h
  · exact .inl ⟨‹_›, (Derivation.eq_of_program (Option.some.inj h)).symm⟩
  · exact .inr h

/-- A new effect is proper if the cell in which it stores is there, and nobody else's. -/
theorem Proper.create (h : w.Proper) (d : Derivation)
    (own : ∀ c, d.cell? = some c → (w.cell? c).isSome = true)
    (distinct : ∀ e d' c, w.Derives e d' → d.cell? = some c → d'.cell? ≠ some c) :
    (w.newEffect d.program).2.Proper := by
  have hderives {e : EffectId} {d' : Derivation}
      (hd' : Derives { w with effects := (w.effects.insert ⟨d.program, []⟩).2 } e d') :=
    derives_create h.noted.tidy hd'
  rw [newEffect_eq h.scope]
  refine ⟨h.noted.create _, h.scope, ?_, ?_, ?_⟩
  · intro e body hbody
    rw [body?_create h.noted.tidy] at hbody
    split at hbody
    · exact ⟨d, (Option.some.inj hbody).symm⟩
    · exact h.derived e body hbody
  · intro e d' c hd' hc
    rcases hderives hd' with ⟨-, rfl⟩ | hd'
    · exact own c hc
    · exact h.own e d' c hd' hc
  · intro e e' d₁ d₂ c hd₁ hd₂ hc₁ hc₂
    rcases hderives hd₁ with ⟨he, rfl⟩ | hold₁ <;> rcases hderives hd₂ with ⟨he', rfl⟩ | hold₂
    · exact he'.trans he.symm
    · exact absurd hc₂ (distinct e' d₂ c hold₂ hc₁)
    · exact absurd hc₁ (distinct e d₁ c hold₁ hc₂)
    · exact h.distinct e e' d₁ d₂ c hold₁ hold₂ hc₁ hc₂

/-- An object more does no harm: no body stores in it. -/
theorem Proper.pushObject (h : w.Proper) (table : KeyTable Value) :
    Proper { w with objects := w.objects.push table } :=
  h.of_same ⟨h.noted.tidy, h.noted.noted⟩ rfl (fun _ => rfl) fun _ => id

/-- A cell more does none either: no derivation stores in it yet. -/
theorem Proper.pushCell (h : w.Proper) (content : Option Value) :
    Proper { w with cells := w.cells.push content } := by
  refine h.of_same ⟨h.noted.tidy, h.noted.noted⟩ rfl (fun _ => rfl) fun c hc => ?_
  rw [cell?_push content (Nat.ne_of_lt (lt_size_of_isSome hc))]
  exact hc

/-- The effect of a new computed value is proper, once its cell is there. -/
theorem Proper.computed (h : w.Proper) (getter : Reader) :
    (newEffect { w with cells := w.cells.push (some .undefined) }
      (Derivation.program ⟨getter, some ⟨w.cells.size⟩⟩)).2.Proper := by
  refine (h.pushCell _).create _ (fun c hc => ?_) fun e d c hd hc hc' => ?_
  · obtain rfl := Option.some.inj hc
    simp [cell?]
  · obtain rfl := Option.some.inj hc
    exact Nat.lt_irrefl _ (lt_size_of_isSome (h.own e d _ hd hc'))

/-- An effect that watches stores nowhere, so the world stays proper. -/
theorem Proper.effect (h : w.Proper) (body : Reader) : (w.newEffect body.program).2.Proper :=
  h.create ⟨body, none⟩ (fun _ hc => absurd hc (by simp)) fun _ _ _ _ hc => absurd hc (by simp)

/-- A proper world stays proper when an effect is stopped. -/
theorem Proper.stop (h : w.Proper) (id : EffectId) : (w.stop id).Proper := by
  refine h.of_fewer (h.noted.stop id) ((currentScope_stop id).trans h.scope)
    (fun e body hbody => ?_) fun e d c _ _ hc => ?_
  · exact (body?_stop_eq_some.1 hbody).2
  · rw [cell?, cells_stop]
    exact hc

/-- A cell ends in which nobody stores. -/
theorem Proper.endCell (h : w.Proper) {c : CellId}
    (hunused : ∀ e d, w.Derives e d → d.cell? ≠ some c) : (w.answer (.endCell c)).2.Proper := by
  refine h.of_fewer (kept_noted.alters (alters_answer _) h.noted)
    ?_ (fun e body hbody => body?_endCell c e ▸ hbody) fun e d c' hd hc' hc => ?_
  · obtain ⟨_, _, _, hfinish⟩ := w.finish_eq (.cell c) false
    simp only [World.answer, hfinish, h.scope]
  · have hne : c' ≠ c := by
      rintro rfl
      exact hunused e d ((derives_congr (body?_endCell c')).1 hd) hc'
    rw [cell?_endCell hne]
    exact hc

/-! ## The moments of an act -/

variable {m : Machine σ} {act : Act}

/-- A program that is done leads nowhere. -/
theorem Proper.gentle_done (h : w.Proper) (hleads : Machine.Leads ⟨w, .run .done, []⟩ m) :
    w.Gentle m.world := by
  have hderiving : Machine.Deriving ⟨w, .run .done, []⟩ :=
    ⟨h, .done, fun _ hframe => absurd hframe List.not_mem_nil⟩
  exact (hderiving.leads hleads).2

/-- **While the body of an effect runs the world is gently the one before**, at every moment. -/
theorem Proper.gentle_runEffect (h : w.Proper)
    (hleads : Machine.Leads (Machine.runEffect w e [.bind fun _ => .done]) m) :
    w.Gentle m.world := by
  obtain ⟨hderiving, hgentle⟩ := Machine.deriving_runEffect h e Frame.left_bind_done
  exact hgentle.trans (hderiving.leads hleads).2

/-- **At every moment of an act** the world is gently one of those that the act makes. -/
theorem Proper.moment (h : w.Proper) (hpermitted : act.Permitted w)
    (hleads : Machine.Leads ⟨w, .run act.program, []⟩ m) :
    ∃ w₁ ∈ act.stages w, w₁.Gentle m.world := by
  rcases ReflTransGen.cases_head hleads with rfl | ⟨m₁, hstep, hlater⟩
  · exact ⟨w, by cases act <;> exact List.mem_cons_self, .refl h.noted⟩
  obtain rfl := Option.some.inj hstep
  cases act with
  | object table => exact ⟨_, .tail _ (.head _), (h.pushObject table).gentle_done hlater⟩
  | cell value => exact ⟨_, .tail _ (.head _), (h.pushCell (some value.raw)).gentle_done hlater⟩
  | computed getter =>
    rcases ReflTransGen.cases_head hlater with rfl | ⟨m₂, hstep, hlater⟩
    · exact ⟨_, .tail _ (.head _), .refl (h.pushCell (some .undefined)).noted⟩
    · obtain rfl := Option.some.inj hstep
      simp only [Reader.bind_program] at hlater
      exact ⟨_, .tail _ (.tail _ (.head _)), (h.computed getter).gentle_runEffect hlater⟩
  | effect body => exact ⟨_, .tail _ (.head _), (h.effect body).gentle_runEffect hlater⟩
  | write change =>
    simp only [Act.program, Machine.exec] at hlater
    split at hlater
    · rename_i w₁ entries hwrite
      have hgentle := Gentle.of_write h.noted hwrite
      have hderiving : Machine.Deriving ⟨w₁, .value .undefined,
          [.notify [] entries, .bind fun _ => .done]⟩ :=
        ⟨h.gentle hgentle, .value _, List.forall_mem_cons.2 ⟨trivial, Frame.left_bind_done⟩⟩
      refine ⟨w₁, ?_, (hderiving.leads hlater).2⟩
      simp [Act.stages, hwrite]
    · exact ⟨w, List.mem_cons_self, h.gentle_done hlater⟩
  | rerun id => exact ⟨w, List.mem_cons_self, h.gentle_runEffect hlater⟩
  | stop id => exact ⟨_, .tail _ (.head _), (h.stop id).gentle_done hlater⟩
  | drop c =>
    rcases ReflTransGen.cases_head hlater with rfl | ⟨m₂, hstep, hlater⟩
    · exact ⟨_, .tail _ (.head _), .refl (h.stop c.effect).noted⟩
    · obtain rfl := Option.some.inj hstep
      refine ⟨_, .tail _ (.tail _ (.head _)),
        ((h.stop c.effect).endCell fun e d hd => ?_).gentle_done hlater⟩
      obtain ⟨hne, hd₀⟩ := body?_stop_eq_some.1 hd
      exact (hpermitted e d hd₀ hne).2

/-- What is derived after a new effect was made is its derivation or was derived before. -/
theorem Proper.derives_newEffect (h : w.Proper) {d' : Derivation}
    (hd' : (w.newEffect d.program).2.Derives e d') : d' = d ∨ w.Derives e d' := by
  rw [newEffect_eq h.scope] at hd'
  exact (derives_create h.noted.tidy hd').imp_left And.right

/-- In the worlds that an act makes a live effect was live before, or it is the new one. -/
theorem Proper.derives_stages (h : w.Proper) (act : Act) :
    ∀ w₁ ∈ act.stages w, w₁.Derives e d →
      w.Derives e d ∨ act = .computed d.reader ∧ d.cell? = some ⟨w.cells.size⟩ ∨
        act = .effect d.reader ∧ d.cell? = none := by
  cases act with
  | object table =>
    exact List.forall_mem_cons.2 ⟨.inl, List.forall_mem_singleton.2 .inl⟩
  | cell value =>
    exact List.forall_mem_cons.2 ⟨.inl, List.forall_mem_singleton.2 .inl⟩
  | computed getter =>
    refine List.forall_mem_cons.2 ⟨.inl, List.forall_mem_cons.2 ⟨.inl,
      List.forall_mem_singleton.2 fun hd => ?_⟩⟩
    rcases (h.pushCell (some .undefined)).derives_newEffect hd with rfl | hold
    · exact .inr (.inl ⟨rfl, rfl⟩)
    · exact .inl hold
  | effect body =>
    refine List.forall_mem_cons.2 ⟨.inl, List.forall_mem_singleton.2 fun hd => ?_⟩
    rcases h.derives_newEffect (d := ⟨body, none⟩) hd with rfl | hold
    · exact .inr (.inr ⟨rfl, rfl⟩)
    · exact .inl hold
  | write change =>
    refine List.forall_mem_cons.2 ⟨.inl, fun w₁ hmem hd => .inl ?_⟩
    obtain ⟨⟨_, entries⟩, hwrite, rfl⟩ := Option.map_eq_some_iff.1 (Option.mem_toList.1 hmem)
    exact (derives_congr (body?_of_effects (effects_write hwrite))).1 hd
  | rerun id => exact List.forall_mem_singleton.2 .inl
  | stop id =>
    exact List.forall_mem_cons.2 ⟨.inl, List.forall_mem_singleton.2 fun hd =>
      .inl (body?_stop_eq_some.1 hd).2⟩
  | drop c =>
    exact List.forall_mem_cons.2 ⟨.inl, List.forall_mem_cons.2
      ⟨fun hd => .inl (body?_stop_eq_some.1 hd).2, List.forall_mem_singleton.2 fun hd =>
        .inl (body?_stop_eq_some.1 ((derives_congr (body?_endCell c.cell)).1 hd)).2⟩⟩

/-- At every moment of an act a live effect was live before it, or it is the one that the act
makes. -/
theorem Proper.derives_moment (h : w.Proper) (hpermitted : act.Permitted w)
    (hleads : Machine.Leads ⟨w, .run act.program, []⟩ m) (hd : m.world.Derives e d) :
    w.Derives e d ∨ act = .computed d.reader ∧ d.cell? = some ⟨w.cells.size⟩ ∨
      act = .effect d.reader ∧ d.cell? = none := by
  obtain ⟨w₁, hmem, hgentle⟩ := h.moment hpermitted hleads
  exact h.derives_stages act w₁ hmem ((derives_congr hgentle.bodies).1 hd)

end World

end Reactive
end ReactiveView
