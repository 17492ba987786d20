import FilterQuery.Proofs.Conditions.Shape
import FilterQuery.Proofs.Param.Typing
/-!
# Values do not change what is asked for

Which fields of a bound filter have a value is told by the keys of its parameters alone.  The
texts of the parameters only decide what the values are, and those go nowhere but into literals,
operands and patterns: as scalars or lists of scalars, never as objects, and never as nulls.  The
one exception is a field that asks for null, which has a condition or none as its value says.
-/

namespace FilterQuery

/-- Filters whose values for fields that ask for null are true in the same places. -/
def Filter.AgreeOnNull (a b : Filter) : Prop :=
  ∀ leaf first second, .field leaf first ∈ a.demands → .field leaf second ∈ b.demands →
    leaf.declared.field.operator = some .isNull → first.isTruthy = second.isTruthy

/-! ## Which fields have a value -/

theorem Param.given_eq_nil_iff {params : List Param} {key : String} :
    Param.given params key = [] ↔ key ∉ params.map Param.key := by
  simp [Param.given]

namespace Definition

variable {definition : Definition}

theorem map_key_groupOf (definition : Definition) {params others : List Param}
    (hkeys : params.map Param.key = others.map Param.key) (field : String) :
    (definition.groupOf params field).map Param.key =
      (definition.groupOf others field).map Param.key := by
  have hgroup : ∀ params : List Param, (definition.groupOf params field).map Param.key =
      (params.map Param.key).filterMap fun key =>
        (definition.passed? field ⟨key, ""⟩).map Param.key := by
    intro params
    rw [groupOf, List.map_filterMap, List.filterMap_map]
    apply List.filterMap_congr
    intro param _
    unfold passed?
    dsimp only [Function.comp_apply]
    cases definition.route param.key with
    | nested name rest => by_cases hname : name = field <;> simp [hname]
    | _ => rfl
  rw [hgroup params, hgroup others, hkeys]

section Level

variable {validate : Bool} {params : List Param} {filter : Filter} (hbuilt : definition.Built)
  (hbinds : definition.Binds validate params filter) {declared : DeclaredField}
  (hmem : declared ∈ definition.fields)

include hbuilt hbinds hmem

theorem Built.get?_eq_none_iff (hkind : declared.kind.nested? = none) :
    filter.get? declared.name = none ↔ declared.name ∉ params.map Param.key := by
  have hfield := hbuilt.regular.field?_of_mem hmem
  have hread := hbinds.leaf declared.name declared hfield hkind
  rw [hbuilt.rawsOf_eq_given hmem hkind] at hread
  rw [(DeclaredField.of_readAll hread).1, List.map_eq_nil_iff, Param.given_eq_nil_iff]

theorem Built.field_mem_demands (hkind : declared.kind.nested? = none) {value : Value}
    (hget : filter.get? declared.name = some value) :
    .field ⟨[], declared, definition.constants⟩ value ∈ filter.demands := by
  have hfield := hbuilt.regular.field?_of_mem hmem
  have hleaf := hbinds.isLeaf_of_get? hfield hget hkind
  exact (hbuilt.regular.mem_demands hbinds.definition_eq).2
    ⟨declared, value, hfield, hget, Value.field_nil_mem_demands.2 ⟨hleaf, rfl, rfl, rfl⟩⟩

end Level

/-! ## Filters bound from the same keys -/

section Runs

variable {first second : Bool} {params others : List Param} {a b : Filter}

theorem Built.sameShape_leaf (hbuilt : definition.Built)
    (hkeys : params.map Param.key = others.map Param.key)
    (ha : definition.Binds first params a) (hb : definition.Binds second others b)
    (hnull : a.AgreeOnNull b) {declared : DeclaredField} (hmem : declared ∈ definition.fields)
    (hkind : declared.kind.nested? = none) :
    Slot.SameShape ⟨declared, a.get? declared.name⟩ ⟨declared, b.get? declared.name⟩ := by
  have hfield := hbuilt.regular.field?_of_mem hmem
  have hnone : a.get? declared.name = none ↔ b.get? declared.name = none := by
    rw [hbuilt.get?_eq_none_iff ha hmem hkind, hbuilt.get?_eq_none_iff hb hmem hkind, hkeys]
  cases hx : a.get? declared.name with
  | none =>
      rw [hnone.1 hx]
      exact .unset declared
  | some x =>
      have hsome : b.get? declared.name ≠ none := by
        rw [Ne, ← hnone, hx]
        nofun
      obtain ⟨y, hy⟩ := Option.ne_none_iff_exists'.1 hsome
      rw [hy]
      exact .leaf (ha.isLeaf_of_get? hfield hx hkind) (hb.isLeaf_of_get? hfield hy hkind)
        (hnull _ x y (hbuilt.field_mem_demands ha hmem hkind hx)
          (hbuilt.field_mem_demands hb hmem hkind hy))

theorem Regular.agreeOnNull_below (hregular : definition.Regular) (ha : a.definition = definition)
    (hb : b.definition = definition) (hnull : a.AgreeOnNull b) {name : String} {x y : Filter}
    (hx : a.get? name = some (.sub x)) (hy : b.get? name = some (.sub y)) : x.AgreeOnNull y := by
  intro ⟨chain, declared, constants⟩ u v hu hv
  exact hnull ⟨name :: chain, declared, constants⟩ u v
    ((hregular.field_cons_mem_demands ha).2 ⟨x, hx, hu⟩)
    ((hregular.field_cons_mem_demands hb).2 ⟨y, hy, hv⟩)

/-- Filters bound from parameters of the same keys have the same shape. -/
theorem Built.sameShape_of_bind (definition : Definition) : definition.Built →
    ∀ (params others : List Param) (a b : Filter), params.map Param.key = others.map Param.key →
      definition.bind first params = .ok a → definition.bind second others = .ok b →
      a.AgreeOnNull b → a.SameShape b := by
  refine nestedInduction (P := fun definition => definition.Built →
    ∀ (params others : List Param) (a b : Filter), params.map Param.key = others.map Param.key →
      definition.bind first params = .ok a → definition.bind second others = .ok b →
      a.AgreeOnNull b → a.SameShape b) ?_ definition
  intro definition ih hbuilt params others a b hkeys hparams hothers hnull
  have hregular := hbuilt.regular
  have ha := hregular.binds_of_bind hparams
  have hb := hregular.binds_of_bind hothers
  have hconstants : a.constants = b.constants :=
    congrArg Definition.constants (ha.definition_eq.trans hb.definition_eq.symm)
  apply Filter.SameShape.of_slots hconstants
  rw [hregular.slots_eq ha.definition_eq, hregular.slots_eq hb.definition_eq,
    List.forall₂_map_left_iff, List.forall₂_map_right_iff, List.forall₂_same]
  intro declared hmem
  cases hkind : declared.kind.nested? with
  | none => exact hbuilt.sameShape_leaf hkeys ha hb hnull hmem hkind
  | some sub =>
      have hnested := hregular.nested?_of_mem hmem (FieldKind.nested?_eq_some_iff.1 hkind)
      have hgroups := definition.map_key_groupOf hkeys declared.name
      by_cases hgroup : definition.groupOf params declared.name = []
      · have hother : definition.groupOf others declared.name = [] := by
          rwa [← List.map_eq_nil_iff, ← hgroups, List.map_eq_nil_iff]
        rw [ha.untouched _ sub hnested hgroup, hb.untouched _ sub hnested hother]
        exact .unset declared
      · have hother : definition.groupOf others declared.name ≠ [] := by
          rwa [Ne, ← List.map_eq_nil_iff, ← hgroups, List.map_eq_nil_iff]
        obtain ⟨x, hx, hgetx⟩ := ha.passed _ sub hnested hgroup
        obtain ⟨y, hy, hgety⟩ := hb.passed _ sub hnested hother
        have hbelow := hregular.agreeOnNull_below ha.definition_eq hb.definition_eq hnull hgetx hgety
        rw [hgetx, hgety]
        exact .sub declared
          (ih declared.name sub hnested (hbuilt.of_nested? hnested) _ _ x y hgroups hx hy hbelow)

end Runs

end Definition

/-! ## What literals and operands are made of -/

/-- A JSON value is a part of itself and of the arrays and objects that hold it, at any depth. -/
inductive Json.PartOf : Json → Json → Prop
  | self (json : Json) : Json.PartOf json json
  | item {part item : Json} {items : List Json} (hmem : item ∈ items)
      (hpart : Json.PartOf part item) : Json.PartOf part (.array items)
  | entry {part value : Json} {key : String} {entries : List (String × Json)}
      (hmem : (key, value) ∈ entries) (hpart : Json.PartOf part value) :
      Json.PartOf part (.fields entries)

def Constraint.operand? : Constraint → Option Json
  | .equals value => some value
  | .meets (.compare _ operand) => some operand
  | .meets (.regex ..) => none

theorem Json.OfKind.eq_of_partOf {kind : FieldKind} {json part : Json} (hkind : json.OfKind kind)
    (hpart : part.PartOf json) : part = json := by
  cases hkind <;> cases hpart <;> rfl

theorem Json.OfKind.plain {kind : FieldKind} {json : Json} (hkind : json.OfKind kind) :
    json ≠ .null ∧ ∀ entries, json ≠ .fields entries := by
  cases hkind <;> exact ⟨nofun, nofun⟩

theorem Value.OfKind.plain_of_isLeaf {kind : FieldKind} {value : Value} (hkind : value.OfKind kind)
    (hleaf : value.isLeaf) {part : Json} (hpart : part.PartOf value.toJson) :
    part ≠ .null ∧ ∀ entries, part ≠ .fields entries := by
  cases hkind with
  | scalar _ hjson =>
      rw [hjson.eq_of_partOf hpart]
      exact hjson.plain
  | boolean value =>
      cases hpart
      exact ⟨nofun, nofun⟩
  | list hitems =>
      cases hpart with
      | self => exact ⟨nofun, nofun⟩
      | item hmem hpart =>
          rw [(hitems _ hmem).eq_of_partOf hpart]
          exact (hitems _ hmem).plain
  | nested => cases hleaf

/-- A condition below `start` that asks for something not to be null: a linked document that has
to be there, or a field that asks for null with a value that is not true. -/
inductive Condition.AsksNotNull (start : Nat) (filter : Filter) : Condition → Prop
  | guard {inner sub : Filter} {declared : DeclaredField} (hinner : filter.Contains inner)
      (hslot : ⟨declared, some (.sub sub)⟩ ∈ inner.slots) (chain : List String) :
      AsksNotNull start filter (.guardBelow start chain declared.name)
  | field {inner : Filter} {declared : DeclaredField} {value : Value} {condition : Condition}
      (hinner : filter.Contains inner) (hslot : ⟨declared, some value⟩ ∈ inner.slots)
      (hoperator : declared.field.operator = some .isNull) (hfalse : value.isTruthy = false)
      (chain : List String)
      (hcondition : declared.conditionBelow? start chain inner.constants value = some condition) :
      AsksNotNull start filter condition

/-- The operand of an operator is the value it is given, except that asking for null has a null
for a value that is not true. -/
theorem Operator.operand_of_expression? {operator : Operator} {value : Value}
    {expression : Expression} (hexpression : operator.expression? value = some expression)
    {operand : Json} (hoperand : (Constraint.meets expression).operand? = some operand) :
    operand = value.toJson ∨
      operator = .isNull ∧ value.isTruthy = false ∧ operand = .null := by
  cases operator with
  | like =>
      cases hexpression
      cases hoperand
  | ilike =>
      cases hexpression
      cases hoperand
  | isNull =>
      unfold Operator.expression? at hexpression
      dsimp only at hexpression
      split at hexpression
      · cases hexpression
      · rename_i htrue
        cases hexpression
        cases hoperand
        exact .inr ⟨rfl, by simpa using htrue, rfl⟩
  | _ =>
      cases hexpression
      cases hoperand
      exact .inl rfl

/-- In the conditions of a well-typed filter no literal or operand has an object for a part, and
none has a null, except that what asks for something not to be null has it for its operand. -/
theorem Filter.WellTyped.operand_plain {limit depth : Nat} {filter : Filter}
    (htyped : filter.WellTyped) (hbuilt : filter.definition.Built) {conditions : List Condition}
    (hok : filter.conditions limit depth = .ok conditions) {condition : Condition}
    (hmem : condition ∈ conditions) {constraint : Constraint}
    (hconstraint : constraint ∈ condition.predicate.constraints) {operand part : Json}
    (hoperand : constraint.operand? = some operand) (hpart : part.PartOf operand) :
    (∀ entries, part ≠ .fields entries) ∧
      (part = .null → operand = .null ∧ condition.AsksNotNull depth filter) := by
  cases Filter.stemsFrom_of_conditions hok hmem with
  | guard hinner hslot chain =>
      cases List.mem_singleton.1 hconstraint
      cases hoperand
      cases hpart
      exact ⟨nofun, fun _ => ⟨rfl, .guard hinner hslot chain⟩⟩
  | @leaf inner declared value _ hinner hslot hleaf chain hcondition =>
      have hkind := (htyped.of_contains hinner hbuilt).1 _ hslot value rfl
      have hown : operand = value.toJson → (∀ entries, part ≠ .fields entries) ∧
          (part = .null → operand = .null ∧ condition.AsksNotNull depth filter) := by
        rintro rfl
        obtain ⟨hnull, hobject⟩ := hkind.plain_of_isLeaf hleaf hpart
        exact ⟨hobject, fun heq => absurd heq hnull⟩
      cases DeclaredField.constrains_of_mem hcondition hconstraint with
      | search => cases hoperand
      | equals => exact hown (Option.some.inj hoperand).symm
      | operator hoperator hexpression =>
          rcases Operator.operand_of_expression? hexpression hoperand with
            heq | ⟨rfl, hfalse, rfl⟩
          · exact hown heq
          · cases hpart
            exact ⟨nofun, fun _ => ⟨rfl, .field hinner hslot hoperator hfalse chain hcondition⟩⟩

/-! ## Two runs -/

/-- Parameters of the same keys have conditions of the same shapes or none for the same reason,
whatever their texts, where fields that ask for null have values that are true in the same places.
No literal or operand has an object for a part, and null is only the operand of what asks for
something not to be null. -/
theorem Definition.Built.shape_of_keys {definition : Definition} {first second : Bool}
    {params others : List Param} {a b : Filter} (hbuilt : definition.Built)
    (hkeys : params.map Param.key = others.map Param.key)
    (ha : definition.bind first params = .ok a) (hb : definition.bind second others = .ok b)
    (hnull : a.AgreeOnNull b) (limit depth : Nat) :
    (a.conditions limit depth).map (List.map Condition.shape) =
        (b.conditions limit depth).map (List.map Condition.shape) ∧
      ∀ filter ∈ [a, b], ∀ conditions, filter.conditions limit depth = .ok conditions →
        ∀ condition ∈ conditions, ∀ constraint ∈ condition.predicate.constraints,
        ∀ operand, constraint.operand? = some operand → ∀ part : Json, part.PartOf operand →
          (∀ entries, part ≠ .fields entries) ∧
            (part = .null → operand = .null ∧ condition.AsksNotNull depth filter) := by
  have hshape := sameShape_of_bind definition hbuilt params others a b hkeys ha hb hnull
  have htyped : ∀ filter ∈ [a, b], filter.definition = definition ∧ filter.WellTyped := by
    simp only [List.mem_cons, List.not_mem_nil, or_false]
    rintro filter (rfl | rfl)
    · exact wellTyped_of_bind definition hbuilt params filter ha
    · exact wellTyped_of_bind definition hbuilt others filter hb
  refine ⟨hshape.shape_conditions_eq limit depth, ?_⟩
  intro filter hfilter conditions hok condition hmem constraint hconstraint operand hoperand part
    hpart
  obtain ⟨rfl, hwell⟩ := htyped filter hfilter
  exact hwell.operand_plain hbuilt hok hmem hconstraint hoperand hpart

/-! ## Two writers of a note -/

namespace Definition.Sample

def noteParams (gone writer : String) : List Param :=
  [⟨"gone__isnull", gone⟩, ⟨"writer__name", writer⟩]

def namedWriter (name : String) : Filter :=
  ⟨"Writer", [⟨⟨.plain "name", .string⟩, some (.scalar (.string name))⟩], {}, []⟩

def noteWith (below : Option Value) : Filter :=
  ⟨"Note", [⟨⟨⟨"gone__isnull", "gone", some .isNull⟩, .boolean⟩, some (.bool false)⟩,
    ⟨⟨.plain "writer", .nested writer⟩, below⟩], {}, []⟩

theorem note_bound (name : String) :
    note.bind true (noteParams "no" name) = .ok (noteWith (some (.sub (namedWriter name)))) ∧
      note.bind true (noteParams "off" name) =
        .ok (noteWith (some (.sub (namedWriter name)))) := by
  have hwriter : writer.bind true [⟨"name", name⟩] = .ok (namedWriter name) :=
    bind_of_groups rfl rfl
  have hassign : (noteWith none).assign "writer" (.sub (namedWriter name)) =
      .ok (noteWith (some (.sub (namedWriter name)))) := by rfl
  have hgroups : [("writer", [⟨"name", name⟩])].foldlM (note.bindGroup true) (noteWith none) =
      .ok (noteWith (some (.sub (namedWriter name)))) := by
    rw [List.foldlM_cons, bindGroup_of_bind rfl hwriter, hassign]
    rfl
  have hnested : bindParam true note (noteWith none, []) ⟨"writer__name", name⟩ =
      .ok (noteWith none, [("writer", [⟨"name", name⟩])]) := by
    have hroute : note.route "writer__name" = .nested "writer" "name" := by rfl
    rw [bindParam, hroute]
    rfl
  have hfirst : ∀ gone,
      bindParam true note (.blank note, []) ⟨"gone__isnull", gone⟩ = .ok (noteWith none, []) →
      (noteParams gone name).foldlM (bindParam true note) (.blank note, []) =
        .ok (noteWith none, [("writer", [⟨"name", name⟩])]) := by
    intro gone hgone
    rw [noteParams, List.foldlM_cons]
    exact Outcome.bind_eq_ok.2 ⟨_, hgone, Outcome.bind_eq_ok.2 ⟨_, hnested, rfl⟩⟩
  exact ⟨bind_of_groups (hfirst "no" rfl) hgroups, bind_of_groups (hfirst "off" rfl) hgroups⟩

theorem note_agrees (name other : String) :
    (noteWith (some (.sub (namedWriter name)))).AgreeOnNull
      (noteWith (some (.sub (namedWriter other)))) := by
  have hdemands : ∀ name, (noteWith (some (.sub (namedWriter name)))).demands =
      [.field ⟨[], ⟨⟨"gone__isnull", "gone", some .isNull⟩, .boolean⟩, {}⟩ (.bool false),
        .link ["writer"],
        .field ⟨["writer"], ⟨.plain "name", .string⟩, {}⟩ (.scalar (.string name))] := fun _ => rfl
  intro leaf first second hfirst hsecond hoperator
  simp only [hdemands, List.mem_cons, List.not_mem_nil, or_false] at hfirst hsecond
  rcases hfirst with h | h | h <;> cases h
  · rcases hsecond with h | h | h <;> cases h
    rfl
  · cases hoperator

/-- Whatever the names of two writers say, the conditions have one shape. -/
theorem note_shape :
    (∀ name, note.bind true (noteParams "no" name) =
        .ok (noteWith (some (.sub (namedWriter name))))) ∧
      ((noteWith (some (.sub (namedWriter "ann")))).conditions 2 1).map (List.map Condition.shape) =
        ((noteWith (some (.sub (namedWriter "$ne: null")))).conditions 2 1).map
          (List.map Condition.shape) := by
  have hkeys : (noteParams "no" "ann").map Param.key =
      (noteParams "off" "$ne: null").map Param.key := by rfl
  have hshape := note_built.shape_of_keys hkeys (note_bound "ann").1 (note_bound "$ne: null").2
    (note_agrees "ann" "$ne: null") 2 1
  exact ⟨fun name => (note_bound name).1, hshape.1⟩

end Definition.Sample

end FilterQuery
