import FilterQuery.Param.Binding
import FilterQuery.Proofs.Definition.Building
import FilterQuery.Proofs.Lists
/-!
# Definitions that were built

A definition is only ever built from a draft, and so are those of its nested fields.
What the draft was checked for holds of the definition from then on: its names are
distinct, a field without an operator stands at the path of its name, and the search
field has no operator.
-/

namespace FilterQuery

/-- A definition that was built from a draft, as were those of its nested fields. -/
inductive Definition.Built : Definition → Prop
  | of_draft {draft : Draft} {definition : Definition}
      (hbuild : draft.build = .ok definition)
      (hnested : ∀ field ∈ draft.fields, ∀ sub, field.kind = some (.nested sub) →
        Definition.Built sub) : Definition.Built definition

/-- What can be relied on in a definition, of its own fields. -/
structure Definition.Regular (definition : Definition) : Prop where
  names_nodup : (definition.fields.map DeclaredField.name).Nodup
  path_eq : ∀ declared ∈ definition.fields, declared.field.operator = none →
    declared.field.path = declared.name
  search_plain : ∀ declared ∈ definition.fields,
    definition.constants.searchField = some declared.name → declared.field.operator = none

/-! ## What a draft hands on -/

theorem FieldName.of_parse {name : String} {field : FieldName}
    (hparse : FieldName.parse name = .ok field) :
    field.name = name ∧ (field.operator = none → field.path = name) := by
  obtain ⟨_, rfl | ⟨segments, operator, _, _, rfl⟩⟩ := parse_cases hparse
  · exact ⟨rfl, fun _ => rfl⟩
  · exact ⟨rfl, nofun⟩

namespace FieldDraft

variable {constants : Constants} {draft : FieldDraft} {declared : DeclaredField}

theorem Declares.field (hdeclares : draft.Declares constants declared) :
    declared.name = draft.name ∧
      (declared.field.operator = none → declared.field.path = draft.name) ∧
      (constants.searchField = some draft.name → declared.field.operator = none) := by
  obtain ⟨hwhole, hparsed⟩ := fieldName_eq_ok_iff.1 hdeclares.1
  by_cases h : draft.Whole constants
  · have hplain := (hwhole h).2
    simp [DeclaredField.name, hplain, FieldName.plain]
  · obtain ⟨hname, hpath⟩ := FieldName.of_parse (hparsed h)
    exact ⟨hname, hpath, fun hsearch => absurd (.inr hsearch) h⟩

theorem Declares.kind_eq (hdeclares : draft.Declares constants declared) {sub : Definition}
    (hkind : declared.kind = .nested sub) : draft.kind = some (.nested sub) := by
  rw [hdeclares.2] at hkind
  unfold FieldKind.forOperator at hkind
  cases hdraft : draft.kind with
  | none =>
      rw [hdraft] at hkind
      unfold FieldKind.infer at hkind
      grind
  | some kind =>
      rw [hdraft] at hkind
      dsimp only at hkind
      split at hkind
      · cases hkind
      · rw [hkind]

theorem Declares.plain_of_nested? (hdeclares : draft.Declares constants declared)
    {sub : Definition} (hnested : draft.kind.bind FieldKind.nested? = some sub) :
    declared.field = .plain draft.name := by
  obtain ⟨kind, hkind, hkind'⟩ := Option.bind_eq_some_iff.1 hnested
  have hsub : draft.kind = some (.nested sub) :=
    hkind.trans (congrArg some (FieldKind.nested?_eq_some_iff.1 hkind'))
  exact ((fieldName_eq_ok_iff.1 hdeclares.1).1 (.inl ⟨sub, hsub⟩)).2

theorem Declares.nested?_eq (hdeclares : draft.Declares constants declared) :
    declared.kind.nested? = draft.kind.bind FieldKind.nested? := by
  cases hdraft : draft.kind.bind FieldKind.nested? with
  | none =>
      rw [Option.eq_none_iff_forall_ne_some]
      intro sub hkind
      rw [hdeclares.kind_eq (FieldKind.nested?_eq_some_iff.1 hkind)] at hdraft
      cases hdraft
  | some sub =>
      obtain ⟨kind, hkind, hnested⟩ := Option.bind_eq_some_iff.1 hdraft
      have hsub : draft.kind = some (.nested sub) :=
        hkind.trans (congrArg some (FieldKind.nested?_eq_some_iff.1 hnested))
      rw [hdeclares.2, hdeclares.plain_of_nested? hdraft, hsub]
      rfl

theorem Declares.operator_of_nested? (hdeclares : draft.Declares constants declared)
    {sub : Definition} (hnested : declared.kind.nested? = some sub) :
    declared.field.operator = none := by
  rw [hdeclares.nested?_eq] at hnested
  rw [hdeclares.plain_of_nested? hnested]
  rfl

theorem Declares.isList_of_membership (hdeclares : draft.Declares constants declared)
    {operator : Operator} (hoperator : declared.field.operator = some operator)
    (hmembership : operator.isMembership) : declared.kind.isList := by
  rw [hdeclares.2, hoperator]
  cases draft.kind with
  | none => simp [FieldKind.forOperator, FieldKind.infer, hmembership, FieldKind.isList]
  | some kind =>
      show FieldKind.isList (if _ then _ else _) = true
      by_cases hlist : kind.isList
      · rw [if_neg (by simp [hlist])]
        exact hlist
      · rw [if_pos (by simp [hmembership, hlist])]
        rfl

theorem map_name_eq {drafts : List FieldDraft} {fields : List DeclaredField}
    (hall : List.Forall₂ (Declares constants) drafts fields) :
    fields.map DeclaredField.name = drafts.map FieldDraft.name := by
  induction hall with
  | nil => rfl
  | cons hhead _ ih => rw [List.map_cons, List.map_cons, hhead.field.1, ih]

end FieldDraft

/-- A field of a definition is that of a draft, or the search field that was added. -/
theorem Draft.declares_of_build {draft : Draft} {definition : Definition}
    (hbuild : draft.build = .ok definition) {declared : DeclaredField}
    (hmem : declared ∈ definition.fields) :
    (∃ field ∈ draft.fields, field.Declares draft.constants declared) ∨
      ∃ name, declared = ⟨.plain name, .string⟩ := by
  obtain ⟨fields, search, hfields, hsearch, rfl⟩ := Draft.build_eq_ok_iff.1 hbuild
  have hall := (FieldDraft.declareAll_eq_ok_iff.1 hfields).1
  rcases List.mem_append.1 hmem with hmem | hmem
  · exact .inl (Lists.exists_of_forall₂ hall hmem)
  · rcases (Draft.searchField_eq_ok_iff.1 hsearch).1 with ⟨_, _⟩ | _
    · exact .inr ⟨_, List.mem_singleton.1 hmem⟩
    · cases hmem

namespace Definition

theorem regular_of_build {draft : Draft} {definition : Definition}
    (hbuild : draft.build = .ok definition) : definition.Regular := by
  have hsplit : ∀ declared ∈ definition.fields,
      (∃ field ∈ draft.fields, field.Declares draft.constants declared) ∨
        ∃ name, declared = ⟨.plain name, .string⟩ := fun _ => Draft.declares_of_build hbuild
  obtain ⟨fields, search, hfields, hsearch, rfl⟩ := Draft.build_eq_ok_iff.1 hbuild
  obtain ⟨hall, hnodup, _⟩ := FieldDraft.declareAll_eq_ok_iff.1 hfields
  have hnames := FieldDraft.map_name_eq hall
  rw [← hnames] at hnodup
  refine ⟨?_, ?_, ?_⟩
  · rcases (Draft.searchField_eq_ok_iff.1 hsearch).1 with ⟨_, hnew⟩ | _
    · rw [List.map_append, List.nodup_append]
      refine ⟨hnodup, by simp, ?_⟩
      rintro other hmem added hadded rfl
      rw [hnames] at hmem
      cases List.mem_singleton.1 hadded
      exact hnew hmem
    · simpa using hnodup
  · intro declared hmem hplain
    rcases hsplit declared hmem with ⟨field, _, hdeclares⟩ | ⟨name, rfl⟩
    · rw [hdeclares.field.2.1 hplain, hdeclares.field.1]
    · rfl
  · intro declared hmem hsearches
    rcases hsplit declared hmem with ⟨field, _, hdeclares⟩ | ⟨name, rfl⟩
    · exact hdeclares.field.2.2 (hdeclares.field.1 ▸ hsearches)
    · rfl

theorem ne_orderingField_of_build {draft : Draft} {definition : Definition}
    (hbuild : draft.build = .ok definition) :
    ∀ declared ∈ definition.fields, declared.name ≠ definition.constants.orderingField := by
  obtain ⟨fields, search, hfields, hsearch, rfl⟩ := Draft.build_eq_ok_iff.1 hbuild
  obtain ⟨hall, _, hnames⟩ := FieldDraft.declareAll_eq_ok_iff.1 hfields
  intro declared hmem
  rcases List.mem_append.1 hmem with hmem | hmem
  · obtain ⟨draft', hdraft', hdeclares⟩ := Lists.exists_of_forall₂ hall hmem
    rw [hdeclares.field.1]
    exact (hnames draft' hdraft').1
  · obtain ⟨hadds, hfree⟩ := Draft.searchField_eq_ok_iff.1 hsearch
    rcases hadds with ⟨hname, hnew⟩ | _
    · rw [List.mem_singleton.1 hmem]
      exact hfree _ hname hnew
    · cases hmem

variable {definition : Definition}

theorem Built.ne_orderingField (hbuilt : definition.Built) {declared : DeclaredField}
    (hmem : declared ∈ definition.fields) :
    declared.name ≠ definition.constants.orderingField := by
  obtain ⟨hbuild, _⟩ := hbuilt
  exact ne_orderingField_of_build hbuild declared hmem

theorem Built.regular (hbuilt : definition.Built) : definition.Regular := by
  obtain ⟨hbuild, _⟩ := hbuilt
  exact regular_of_build hbuild

/-! ## Nested definitions -/

theorem Regular.field?_eq_some_iff (hregular : definition.Regular) {name : String}
    {declared : DeclaredField} :
    definition.field? name = some declared ↔
      declared ∈ definition.fields ∧ declared.name = name :=
  Lists.find?_eq_some_iff hregular.names_nodup

theorem Regular.field?_of_mem (hregular : definition.Regular) {declared : DeclaredField}
    (hmem : declared ∈ definition.fields) : definition.field? declared.name = some declared :=
  hregular.field?_eq_some_iff.2 ⟨hmem, rfl⟩

theorem Regular.nested?_of_mem (hregular : definition.Regular) {declared : DeclaredField}
    (hmem : declared ∈ definition.fields) {sub : Definition}
    (hkind : declared.kind = .nested sub) : definition.nested? declared.name = some sub := by
  rw [nested?_of_field? (hregular.field?_of_mem hmem)]
  exact FieldKind.nested?_eq_some_iff.2 hkind

theorem Built.of_nested? (hbuilt : definition.Built) {name : String} {sub : Definition}
    (hnested : definition.nested? name = some sub) : sub.Built := by
  obtain ⟨hbuild, hbelow⟩ := hbuilt
  obtain ⟨declared, hfind, hkind⟩ := Option.bind_eq_some_iff.1 hnested
  have hkind := FieldKind.nested?_eq_some_iff.1 hkind
  rcases Draft.declares_of_build hbuild (List.mem_of_find?_eq_some hfind) with
    ⟨draft, hdraft, hdeclares⟩ | ⟨name, rfl⟩
  · exact hbelow draft hdraft sub (hdeclares.kind_eq hkind)
  · cases hkind

theorem Built.operator_of_nested? (hbuilt : definition.Built) {declared : DeclaredField}
    (hmem : declared ∈ definition.fields) {sub : Definition}
    (hkind : declared.kind.nested? = some sub) : declared.field.operator = none := by
  obtain ⟨hbuild, _⟩ := hbuilt
  rcases Draft.declares_of_build hbuild hmem with ⟨draft, _, hdeclares⟩ | ⟨name, rfl⟩
  · exact hdeclares.operator_of_nested? hkind
  · rfl

theorem Built.isList_of_membership (hbuilt : definition.Built) {declared : DeclaredField}
    (hmem : declared ∈ definition.fields) {operator : Operator}
    (hoperator : declared.field.operator = some operator) (hmembership : operator.isMembership) :
    declared.kind.isList := by
  obtain ⟨hbuild, _⟩ := hbuilt
  rcases Draft.declares_of_build hbuild hmem with ⟨draft, _, hdeclares⟩ | ⟨name, rfl⟩
  · exact hdeclares.isList_of_membership hoperator hmembership
  · cases hoperator

/-- A law of definitions may be shown for each from those of its nested fields. -/
theorem nestedInduction {P : Definition → Prop}
    (step : ∀ definition, (∀ name sub, definition.nested? name = some sub → P sub) →
      P definition) (definition : Definition) : P definition := by
  induction hsize : sizeOf definition using Nat.strongRecOn generalizing definition with
  | _ n ih =>
      apply step
      intro name sub hnested
      exact ih _ (hsize ▸ sizeOf_nested? hnested) sub rfl

end Definition

end FilterQuery
