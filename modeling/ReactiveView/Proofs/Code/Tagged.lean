/-
# The JSON form keeps the node

Reading looks for the fields that it knows and takes no notice of their order or of the others.
So a node is read off every JSON value that says what its own form says and perhaps more
(`Json.Says`): at any depth the fields of the objects may stand in another order, and there may
be others among them under names that the objects did not have.

The induction is on the node: what its form says under a name is found again by that name
(`Json.Says.lookup`), and the part is read by itself.  From the readings of the parts the node
is put together (`Code.node_object`).
-/

import Mathlib.Data.List.Forall2
import Mathlib.Data.List.Nodup
import ReactiveView.Code.Tagged

namespace ReactiveView

namespace Json

/-! ## Other fields and another order -/

mutual

/-- The second value says all that the first one says: the fields of an object are there, in
any order, and others may be there under names that it did not have. -/
inductive Says : Json → Json → Prop
  | refl (j : Json) : Says j j
  | array {elements elements' : List Json} (each : SaysEach elements elements') :
    Says (.array elements) (.array elements')
  | object {fields kept more fields' : List (String × Json)} (each : SaysFields fields kept)
    (unknown : ∀ field ∈ more, field.1 ∉ fields.map Prod.fst)
    (order : fields'.Perm (kept ++ more)) : Says (.object fields) (.object fields')

/-- Each value of the second list says what its counterpart says. -/
inductive SaysEach : List Json → List Json → Prop
  | nil : SaysEach [] []
  | cons {j j' : Json} {rest rest' : List Json} (first : Says j j') (others : SaysEach rest rest') :
    SaysEach (j :: rest) (j' :: rest')

/-- Each field of the second list says what its counterpart says, under the same name. -/
inductive SaysFields : List (String × Json) → List (String × Json) → Prop
  | nil : SaysFields [] []
  | cons {name : String} {j j' : Json} {rest rest' : List (String × Json)} (first : Says j j')
    (others : SaysFields rest rest') : SaysFields ((name, j) :: rest) ((name, j') :: rest')

end

/-- A list says what it says. -/
theorem SaysEach.refl (elements : List Json) : SaysEach elements elements := by
  induction elements with
  | nil => exact .nil
  | cons j rest ih => exact .cons (.refl j) ih

namespace SaysFields

variable {fields fields' : List (String × Json)}

/-- Fields say what they say. -/
theorem refl (fields : List (String × Json)) : SaysFields fields fields := by
  induction fields with
  | nil => exact .nil
  | cons field rest ih => exact .cons (.refl field.2) ih

/-- What says the same has the same names, as far as the fields go that have a counterpart. -/
theorem names (h : SaysFields fields fields') : fields'.map Prod.fst = fields.map Prod.fst := by
  induction fields generalizing fields' with
  | nil =>
    cases h
    rfl
  | cons field rest ih =>
    cases h with
    | cons first others => rw [List.map_cons, List.map_cons, ih others]

/-- Every field has its counterpart. -/
theorem mem {name : String} {j : Json} (h : SaysFields fields fields') (hmem : (name, j) ∈ fields) :
    ∃ j', (name, j') ∈ fields' ∧ Says j j' := by
  induction fields generalizing fields' with
  | nil => exact absurd hmem List.not_mem_nil
  | cons field rest ih =>
    cases h with
    | cons first others =>
      rcases List.mem_cons.1 hmem with heq | hmem
      · obtain ⟨rfl, rfl⟩ := Prod.mk.inj heq
        exact ⟨_, List.mem_cons_self, first⟩
      · obtain ⟨j', hj', hform⟩ := ih others hmem
        exact ⟨j', List.mem_cons_of_mem _ hj', hform⟩

end SaysFields

/-- The value under a name that stands once. -/
theorem lookup_eq_some {fields : List (String × Json)} {name : String} {j : Json}
    (hmem : (name, j) ∈ fields) (honce : ∀ j', (name, j') ∈ fields → j' = j) :
    fields.lookup name = some j := by
  induction fields with
  | nil => exact absurd hmem List.not_mem_nil
  | cons field rest ih =>
    obtain ⟨name', j'⟩ := field
    by_cases hname : name = name'
    · subst hname
      rw [List.lookup_cons_self, honce j' List.mem_cons_self]
    · have hrest : (name, j) ∈ rest := by simpa [hname] using hmem
      rw [List.lookup_cons, beq_false_of_ne hname]
      exact ih hrest fun j' hj' => honce j' (List.mem_cons_of_mem _ hj')

namespace Says

variable {j : Json} {elements : List Json} {fields fields' : List (String × Json)}

/-- A text is said by itself only. -/
theorem eq_string {s : String} (h : Says (.string s) j) : j = .string s := by
  cases h
  rfl

/-- An array is said by an array, element by element. -/
theorem exists_array (h : Says (.array elements) j) :
    ∃ elements', j = .array elements' ∧ SaysEach elements elements' := by
  cases h with
  | refl => exact ⟨elements, rfl, .refl elements⟩
  | array each => exact ⟨_, rfl, each⟩

/-- An object is said by an object that has all its fields among others. -/
theorem exists_object (h : Says (.object fields) j) :
    ∃ kept more fields', j = .object fields' ∧ SaysFields fields kept ∧
      (∀ field ∈ more, field.1 ∉ fields.map Prod.fst) ∧ fields'.Perm (kept ++ more) := by
  cases h with
  | refl =>
    refine ⟨fields, [], fields, rfl, .refl fields, ?_, by rw [List.append_nil]⟩
    exact fun _ hfield => absurd hfield List.not_mem_nil
  | object each unknown order => exact ⟨_, _, _, rfl, each, unknown, order⟩

/-- **What an object says under a name is found again**, if its names are different. -/
theorem lookup (h : Says (.object fields) j) (hnames : (fields.map Prod.fst).Nodup) :
    ∃ fields', j = .object fields' ∧ ∀ name part, (name, part) ∈ fields →
      ∃ part', fields'.lookup name = some part' ∧ Says part part' := by
  obtain ⟨kept, more, fields', rfl, each, unknown, order⟩ := h.exists_object
  refine ⟨fields', rfl, fun name part hpart => ?_⟩
  obtain ⟨part', hkept, hform⟩ := each.mem hpart
  have hpart' : (name, part') ∈ fields' := order.mem_iff.2 (List.mem_append_left _ hkept)
  refine ⟨part', lookup_eq_some hpart' fun other hother => ?_, hform⟩
  rcases List.mem_append.1 (order.mem_iff.1 hother) with hother | hmore
  · exact congrArg Prod.snd (List.inj_on_of_nodup_map (each.names ▸ hnames) hother hkept rfl)
  · exact absurd (List.mem_map_of_mem hpart) (unknown (name, other) hmore)

end Says
end Json

open Json (Says SaysEach)

namespace Code

/-! ## Reading -/

/-- Each shape is found by its label. -/
@[simp] theorem ofLabel?_label (shape : Shape) : Shape.ofLabel? shape.label = some shape := by
  cases shape <;> decide

/-- Reading the fields keeps their names, so a field may be looked up before or after. -/
theorem lookup_fieldReadings (fields : List (String × Json)) (name : String) :
    (fieldReadings fields).lookup name = (fields.lookup name).map reading := by
  induction fields with
  | nil => rfl
  | cons field rest ih =>
    obtain ⟨name', j⟩ := field
    rw [fieldReadings, List.lookup_cons, List.lookup_cons, ih]
    split <;> rfl

/-- **An object is read by its shape and the parts under the names of that.** -/
theorem node_object {fields : List (String × Json)} {shape : Shape}
    (h : fields.lookup "type" = some (.string shape.label)) :
    (reading (.object fields)).node =
      ofParts? shape (shape.fieldNames.map fun name => (fields.lookup name).map reading) := by
  have hshape : (reading (.string shape.label)).shape = some shape := ofLabel?_label shape
  rw [reading, ofFields?, lookup_fieldReadings, h]
  simp only [lookup_fieldReadings, Option.map_some, Option.bind_eq_bind, Option.bind_some, hshape]

/-- A tag that is a text names the shape. -/
theorem isNamed_object {fields : List (String × Json)} {shape : Shape}
    (h : fields.lookup "type" = some (.string shape.label)) : isNamed (.object fields) = true := by
  rw [isNamed, h]
  rfl

/-- The fields of the JSON form that hold the parts. -/
def parts : Code → List (String × Json)
  | function id params body =>
    [("id", id.toJson), ("params", .array (toJsons params)), ("body", .array (toJsons body))]
  | ret value => [("return", value.toJson)]
  | call callee arguments =>
    [("callee", callee.toJson), ("arguments", .array (toJsons arguments))]
  | array elements => [("elements", .array (toJsons elements))]
  | string value => [("value", .string value)]
  | identifier name => [("name", .string name)]

/-- **The JSON form**: the tag, then the parts. -/
theorem toJson_eq (code : Code) :
    code.toJson = .object (("type", .string code.shape.label) :: code.parts) := by
  cases code <;> rfl

/-- The parts of a node stand under the names that its shape has. -/
theorem names_parts (code : Code) : code.parts.map Prod.fst = code.shape.fieldNames := by
  cases code <;> rfl

/-- No two fields of a form have the same name. -/
theorem nodup_names (shape : Shape) : ("type" :: shape.fieldNames).Nodup := by
  cases shape <;> decide

variable {code : Code} {j : Json}

/-- **What says what the form of a node says** is an object of its shape, and each part is
found under its name. -/
theorem found (h : Says code.toJson j) :
    ∃ fields : List (String × Json), isNamed j = true ∧
      (reading j).node = ofParts? code.shape
        (code.shape.fieldNames.map fun name => (fields.lookup name).map reading) ∧
      ∀ name part, (name, part) ∈ code.parts →
        ∃ part', fields.lookup name = some part' ∧ Says part part' := by
  rw [toJson_eq] at h
  obtain ⟨fields, rfl, hfields⟩ := h.lookup (by
    rw [List.map_cons, names_parts]
    exact nodup_names code.shape)
  obtain ⟨tag, htag, hform⟩ := hfields "type" _ List.mem_cons_self
  rw [hform.eq_string] at htag
  exact ⟨fields, isNamed_object htag, node_object htag, fun name part hpart =>
    hfields name part (List.mem_cons_of_mem _ hpart)⟩

mutual

/-- A node is read off all that says what its JSON form says. -/
theorem reads : ∀ {code : Code} {j : Json}, Says code.toJson j →
    isNamed j = true ∧ (reading j).node = some code
  | function id params body, j, h => by
    obtain ⟨fields, hnamed, hnode, hparts⟩ := found h
    obtain ⟨jid, hid, hformId⟩ := hparts "id" id.toJson (by simp [parts])
    obtain ⟨jparams, hparams, hformParams⟩ := hparts "params" (.array (toJsons params))
      (by simp [parts])
    obtain ⟨jbody, hbody, hformBody⟩ := hparts "body" (.array (toJsons body)) (by simp [parts])
    refine ⟨hnamed, ?_⟩
    simp [hnode, shape, Shape.fieldNames, hid, hparams, hbody, ofParts?, (reads hformId).2,
      readsArray hformParams, readsArray hformBody]
  | ret value, j, h => by
    obtain ⟨fields, hnamed, hnode, hparts⟩ := found h
    obtain ⟨part, hpart, hform⟩ := hparts "return" value.toJson (by simp [parts])
    exact ⟨hnamed, by simp [hnode, shape, Shape.fieldNames, hpart, ofParts?, (reads hform).2]⟩
  | call callee arguments, j, h => by
    obtain ⟨fields, hnamed, hnode, hparts⟩ := found h
    obtain ⟨jcallee, hcallee, hformCallee⟩ := hparts "callee" callee.toJson (by simp [parts])
    obtain ⟨jarguments, harguments, hformArguments⟩ := hparts "arguments"
      (.array (toJsons arguments)) (by simp [parts])
    refine ⟨hnamed, ?_⟩
    simp [hnode, shape, Shape.fieldNames, hcallee, harguments, ofParts?, (reads hformCallee).2,
      readsArray hformArguments]
  | array elements, j, h => by
    obtain ⟨fields, hnamed, hnode, hparts⟩ := found h
    obtain ⟨part, hpart, hform⟩ := hparts "elements" (.array (toJsons elements)) (by simp [parts])
    exact ⟨hnamed, by simp [hnode, shape, Shape.fieldNames, hpart, ofParts?, readsArray hform]⟩
  | string value, j, h => by
    obtain ⟨fields, hnamed, hnode, hparts⟩ := found h
    obtain ⟨part, hpart, hform⟩ := hparts "value" (.string value) (by simp [parts])
    obtain rfl := hform.eq_string
    exact ⟨hnamed, by simp [hnode, shape, Shape.fieldNames, hpart, ofParts?, reading]⟩
  | identifier name, j, h => by
    obtain ⟨fields, hnamed, hnode, hparts⟩ := found h
    obtain ⟨part, hpart, hform⟩ := hparts "name" (.string name) (by simp [parts])
    obtain rfl := hform.eq_string
    exact ⟨hnamed, by simp [hnode, shape, Shape.fieldNames, hpart, ofParts?, reading]⟩

/-- An array that says the nodes of a list is read as this list. -/
theorem readsArray : ∀ {codes : List Code} {j : Json}, Says (.array (toJsons codes)) j →
    (reading j).nodes = some codes
  | _, _, h => by
    obtain ⟨elements, rfl, each⟩ := h.exists_array
    exact readsEach each

/-- Each of its elements is read as the node that it says. -/
theorem readsEach : ∀ {codes : List Code} {elements : List Json},
    SaysEach (toJsons codes) elements → (readings elements).mapM Reading.node = some codes
  | [], _, h => by
    cases h
    rfl
  | code :: rest, _, h => by
    rw [toJsons] at h
    cases h with
    | cons first others => simp [readings, (reads first).2, readsEach others]

end

/-- What says what the form of a node says is read as that node. -/
theorem ofJson?_of_says (h : Says code.toJson j) : ofJson? j = some code := by
  obtain ⟨hnamed, hnode⟩ := reads h
  rw [ofJson?, if_pos hnamed, hnode]

/-- **The JSON form keeps the node.**  Reading the form of a node gives the node back, and so
does reading any JSON value that has the fields of each of its objects in any order and more
fields under other names, at any depth.  Hence different nodes have different forms. -/
theorem ofJson?_toJson_survives :
    (∀ code : Code, ofJson? code.toJson = some code) ∧
      (∀ (code : Code) (j : Json), Says code.toJson j → ofJson? j = some code) ∧
        Function.Injective toJson := by
  have hsame (code : Code) : ofJson? code.toJson = some code := ofJson?_of_says (.refl code.toJson)
  refine ⟨hsame, fun code j => ofJson?_of_says, fun code code' heq => ?_⟩
  have hread := hsame code'
  rw [← heq, hsame code] at hread
  exact Option.some.inj hread

/-- The call `h('é')`. -/
def oneCall : Code := .call (.identifier "h") [.string "é"]

/-- It with another field, of the name that an array has, and in the opposite order. -/
def looseCall : Json :=
  .object [("elements", .array [.null]),
    ("arguments", .array [.object [("value", .string "é"), ("type", .string "StringLiteral")]]),
    ("callee", .object [("type", .string "Identifier"), ("name", .string "h")]),
    ("type", .string "CallExpression")]

/-- A returned call is read whatever else is said beside it. -/
theorem ofJson?_toJson_survives_looseCall :
    Says (ret oneCall).toJson (.object [("value", .bool true), ("value", .null),
      ("return", looseCall), ("type", .string "ReturnStatement")]) ∧
    ofJson? (.object [("value", .bool true), ("value", .null), ("return", looseCall),
      ("type", .string "ReturnStatement")]) = some (.ret oneCall) := by
  have hargument : Says (Code.string "é").toJson
      (.object [("value", .string "é"), ("type", .string "StringLiteral")]) :=
    @Says.object _ _ [] _ (.refl _) (by simp) (.swap ..)
  have hcall : Says oneCall.toJson looseCall :=
    @Says.object _ _ [("elements", .array [.null])] _
      (.cons (.refl _) (.cons (.refl _) (.cons (.array (.cons hargument .nil)) .nil)))
      (by simp) (List.reverse_perm [_, _, _, _])
  have hform : Says (ret oneCall).toJson (.object [("value", .bool true), ("value", .null),
      ("return", looseCall), ("type", .string "ReturnStatement")]) :=
    @Says.object _ _ [("value", .null), ("value", .bool true)] _
      (.cons (.refl _) (.cons hcall .nil)) (by simp) (List.reverse_perm [_, _, _, _])
  exact ⟨hform, ofJson?_toJson_survives.2.1 (ret oneCall) _ hform⟩

end Code
end ReactiveView
