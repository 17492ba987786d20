import FilterQuery.Proofs.Conditions.Origin
import FilterQuery.Proofs.Decimal.Integers
import FilterQuery.Proofs.Param.Meaning
/-!
# Bound values are of the kinds of their fields

Setting a value does not look at what the value is, except for sub-filters.  That a bound filter
holds only values of the kinds of its fields is due to how texts are read: a scalar as its kind
says, a list item by item, a sub-filter by binding what was passed on to it.  A field whose
operator takes a list is a list, so its operand is an array.
-/

namespace FilterQuery

/-! ## Values of a kind -/

/-- A JSON value of a kind that is neither a list nor nested. -/
inductive Json.OfKind : FieldKind → Json → Prop
  | string (text : String) : Json.OfKind .string (.string text)
  | integer {n : Int} (hmin : -9223372036854775808 ≤ n) (hmax : n ≤ 9223372036854775807) :
      Json.OfKind .integer (.int n)
  | number {x : Float} (hfinite : x.isFinite) : Json.OfKind .number (.float x)
  | boolean (value : Bool) : Json.OfKind .boolean (.bool value)

/-- A value of a kind.  The items of a list are JSON values, so a list of lists or of sub-filters
has none. -/
inductive Value.OfKind : FieldKind → Value → Prop
  | scalar {kind : FieldKind} {json : Json} (hkind : kind ≠ .boolean) (hjson : json.OfKind kind) :
      Value.OfKind kind (.scalar json)
  | boolean (value : Bool) : Value.OfKind .boolean (.bool value)
  | list {item : FieldKind} {items : List Json} (hitems : ∀ json ∈ items, json.OfKind item) :
      Value.OfKind (.list item) (.list items)
  | nested {definition : Definition} {filter : Filter} (hdefinition : filter.definition = definition)
      (hslots : ∀ slot ∈ filter.slots, ∀ value, slot.value = some value →
        Value.OfKind slot.declared.kind value) :
      Value.OfKind (.nested definition) (.sub filter)

/-- Every value of a filter, and of the filters it contains, is of the kind of its field. -/
def Filter.WellTyped (filter : Filter) : Prop :=
  ∀ slot ∈ filter.slots, ∀ value, slot.value = some value → value.OfKind slot.declared.kind

theorem Value.OfKind.isNull {kind : FieldKind} {value : Value} (hkind : value.OfKind kind) :
    value.isNull = false := by
  cases hkind with
  | scalar _ hjson => cases hjson <;> rfl
  | boolean => rfl
  | list => rfl
  | nested => rfl

theorem Value.OfKind.toJson_of_isList {kind : FieldKind} {value : Value}
    (hkind : value.OfKind kind) (hlist : kind.isList) : ∃ items, value.toJson = .array items := by
  cases hkind with
  | scalar _ hjson => cases hjson <;> cases hlist
  | boolean => cases hlist
  | list => exact ⟨_, rfl⟩
  | nested => cases hlist

/-! ## What is read for a kind -/

namespace FieldKind

variable {field raw : String} {kind : FieldKind}

theorem ofKind_of_readScalar {json : Json} (hread : kind.readScalar field raw = .ok json) :
    json.OfKind kind := by
  unfold readScalar at hread
  cases kind with
  | string =>
      cases hread
      exact .string raw
  | integer =>
      cases hinteger : readInteger? raw <;> simp [hinteger] at hread
      subst hread
      obtain ⟨_, hfits⟩ := Option.filter_eq_some_iff.1 hinteger
      obtain ⟨hmin, hmax⟩ := Decimal.isWord_iff.1 hfits
      exact .integer hmin hmax
  | number =>
      cases hnumber : readNumber? raw <;> simp [hnumber] at hread
      subst hread
      exact .number (Option.filter_eq_some_iff.1 hnumber).2
  | boolean =>
      cases hword : readBool? raw <;> simp [hword] at hread
      subst hread
      exact .boolean _
  | list item => cases hread
  | nested definition => cases hread

theorem ofKind_of_mapM_readScalar {texts : List String} {items : List Json}
    (hitems : texts.mapM (kind.readScalar field) = .ok items) :
    (Value.list items).OfKind (.list kind) := by
  refine .list ?_
  intro json hmem
  obtain ⟨text, _, hread⟩ := Lists.exists_of_forall₂ (Outcome.mapM_eq_ok.1 hitems) hmem
  exact ofKind_of_readScalar hread

theorem ofKind_of_read {value : Value} (hread : kind.read field raw = .ok value) :
    value.OfKind kind := by
  cases kind with
  | list item =>
      obtain ⟨items, hitems, rfl⟩ := Outcome.map_eq_ok.1 hread
      exact ofKind_of_mapM_readScalar hitems
  | boolean =>
      cases hword : readBool? raw <;> simp [read, hword] at hread
      subst hread
      exact .boolean _
  | _ =>
      obtain ⟨json, hjson, rfl⟩ := Outcome.map_eq_ok.1 hread
      refine .scalar ?_ (ofKind_of_readScalar hjson)
      intro heq
      cases heq

end FieldKind

theorem DeclaredField.ofKind_of_readAll {declared : DeclaredField} {raws : List String}
    {value : Value} (hread : declared.readAll raws = .ok (some value)) :
    value.OfKind declared.kind := by
  cases hkind : declared.kind with
  | list item =>
      obtain ⟨items, hitems, hfound⟩ := readAll_of_list hkind hread
      split at hfound
      · cases hfound
      · cases hfound
        exact FieldKind.ofKind_of_mapM_readScalar hitems
  | _ =>
      have hlast := readAll_of_not_list (by rw [hkind]; rfl) hread
      split at hlast
      · cases hlast
      · obtain ⟨found, hfound, heq⟩ := hlast
        cases heq
        exact hkind ▸ FieldKind.ofKind_of_read hfound

/-! ## Bound filters -/

namespace Definition

variable {validate : Bool}

/-- What is bound for a definition has it, and holds values of the kinds of its fields. -/
theorem Built.wellTyped_of_bind (definition : Definition) : definition.Built →
    ∀ params filter, definition.bind validate params = .ok filter →
      filter.definition = definition ∧ filter.WellTyped := by
  refine nestedInduction (P := fun definition => definition.Built → ∀ params filter,
    definition.bind validate params = .ok filter →
      filter.definition = definition ∧ filter.WellTyped) ?_ definition
  intro definition ih hbuilt params filter hbind
  have hregular := hbuilt.regular
  have hbinds := hregular.binds_of_bind hbind
  refine ⟨hbinds.definition_eq, ?_⟩
  intro slot hslot value hvalue
  obtain ⟨hfield, hget⟩ := hregular.get?_of_mem hbinds.definition_eq hslot
  rw [hvalue] at hget
  cases hkind : slot.declared.kind.nested? with
  | none =>
      have hread := hbinds.leaf slot.name slot.declared hfield hkind
      exact DeclaredField.ofKind_of_readAll (hget ▸ hread)
  | some sub =>
      have hnested : definition.nested? slot.name = some sub :=
        (nested?_of_field? hfield).trans hkind
      obtain ⟨below, rfl, hbelow⟩ := hbinds.of_get?_nested hnested hget
      obtain ⟨hdefinition, htyped⟩ :=
        ih slot.name sub hnested (hbuilt.of_nested? hnested) _ below hbelow
      rw [FieldKind.nested?_eq_some_iff.1 hkind]
      exact .nested hdefinition htyped

end Definition

/-! ## Every level -/

theorem Filter.WellTyped.of_contains {filter inner : Filter} (hcontains : filter.Contains inner)
    (htyped : filter.WellTyped) (hbuilt : filter.definition.Built) :
    inner.WellTyped ∧ inner.definition.Built := by
  induction hcontains with
  | self filter => exact ⟨htyped, hbuilt⟩
  | @deeper filter sub inner declared hslot _ ih =>
      have hkind : (Value.sub sub).OfKind declared.kind := htyped _ hslot _ rfl
      generalize hdeclared : declared.kind = kind at hkind
      cases hkind with
      | nested hdefinition hslots =>
          have hnested := hbuilt.regular.nested?_of_mem (declared_mem_fields hslot) hdeclared
          exact ih hslots (hdefinition ▸ hbuilt.of_nested? hnested)

theorem Operator.expression?_among {operator : Operator} {value : Value} {comparison : Comparison}
    {operand : Json} (hexpression : operator.expression? value = some (.compare comparison operand))
    (hamong : comparison = .among ∨ comparison = .notAmong) :
    operator.isMembership ∧ operand = value.toJson := by
  have hneither : ∀ other operand', some (Expression.compare other operand') =
      some (.compare comparison operand) → other ≠ .among → other ≠ .notAmong → False := by
    intro other operand' heq hfirst hsecond
    cases heq
    rcases hamong with rfl | rfl
    · exact hfirst rfl
    · exact hsecond rfl
  cases operator with
  | among =>
      cases hexpression
      exact ⟨rfl, rfl⟩
  | notAmong =>
      cases hexpression
      exact ⟨rfl, rfl⟩
  | like => cases hexpression
  | ilike => cases hexpression
  | isNull =>
      unfold Operator.expression? at hexpression
      dsimp only at hexpression
      split at hexpression
      · cases hexpression
      · exact (hneither _ _ hexpression nofun nofun).elim
  | _ => exact (hneither _ _ hexpression nofun nofun).elim

theorem Filter.WellTyped.among_array {limit depth : Nat} {filter : Filter}
    (htyped : filter.WellTyped) (hbuilt : filter.definition.Built) {conditions : List Condition}
    (hok : filter.conditions limit depth = .ok conditions) {condition : Condition}
    (hmem : condition ∈ conditions) {comparison : Comparison} {operand : Json}
    (hconstraint : .meets (.compare comparison operand) ∈ condition.predicate.constraints)
    (hamong : comparison = .among ∨ comparison = .notAmong) :
    ∃ items, operand = .array items := by
  cases Filter.stemsFrom_of_conditions hok hmem with
  | guard _ _ chain =>
      cases List.mem_singleton.1 hconstraint
      rcases hamong with h | h <;> cases h
  | @leaf inner declared value _ hinner hslot hleaf chain hcondition =>
      obtain ⟨hinnerTyped, hinnerBuilt⟩ := htyped.of_contains hinner hbuilt
      cases DeclaredField.constrains_of_mem hcondition hconstraint with
      | operator hoperator hexpression =>
          obtain ⟨hmembership, rfl⟩ := Operator.expression?_among hexpression hamong
          have hlist := hinnerBuilt.isList_of_membership (Filter.declared_mem_fields hslot)
            hoperator hmembership
          exact (hinnerTyped _ hslot value rfl).toJson_of_isList hlist

/-- A bound filter holds values of the kinds of its fields, at every level.  None of them is null,
so each is among the set fields, and where a list is compared with the operand is an array. -/
theorem Definition.Built.bind_wellTyped {validate : Bool} {definition : Definition}
    {params : List Param} {filter : Filter} (hbuilt : definition.Built)
    (hbind : definition.bind validate params = .ok filter) :
    filter.definition = definition ∧ filter.WellTyped ∧
      (∀ inner, filter.Contains inner → ∀ slot ∈ inner.slots, ∀ value, slot.value = some value →
        value.isNull = false ∧ (slot.declared, value) ∈ inner.setFields) ∧
      ∀ limit depth conditions, filter.conditions limit depth = .ok conditions →
        ∀ condition ∈ conditions, ∀ comparison operand,
          .meets (.compare comparison operand) ∈ condition.predicate.constraints →
          comparison = .among ∨ comparison = .notAmong → ∃ items, operand = .array items := by
  obtain ⟨hdefinition, htyped⟩ := wellTyped_of_bind definition hbuilt params filter hbind
  have hfilter : filter.definition.Built := hdefinition ▸ hbuilt
  refine ⟨hdefinition, htyped, ?_, ?_⟩
  · intro inner hinner slot hslot value hvalue
    have hnull := ((htyped.of_contains hinner hfilter).1 slot hslot value hvalue).isNull
    have hset : slot.set? = some value := Slot.set?_eq_some_iff.2 ⟨hvalue, hnull⟩
    exact ⟨hnull, Filter.mem_setFields.2 ⟨slot, hslot, rfl, hset⟩⟩
  · intro limit depth conditions hok condition hmem comparison operand hconstraint hamong
    exact htyped.among_array hfilter hok hmem hconstraint hamong

/-! ## An article by a writer -/

namespace Definition.Sample

/-- The article and its writer hold values of the kinds of their fields. -/
theorem article_wellTyped :
    article.Built ∧
      article.bind true articleParams = .ok (articleWith (some (.sub writerFilter))) ∧
      (articleWith (some (.sub writerFilter))).WellTyped ∧ writerFilter.WellTyped := by
  obtain ⟨_, htyped, _, _⟩ := article_built.bind_wellTyped article_bound
  have hslot : ⟨⟨.plain "writer", .nested writer⟩, some (.sub writerFilter)⟩ ∈
      (articleWith (some (.sub writerFilter))).slots := by simp [articleWith]
  have hwriter := Filter.Contains.deeper hslot (.self writerFilter)
  exact ⟨article_built, article_bound, htyped, (htyped.of_contains hwriter article_built).1⟩

end Definition.Sample

end FilterQuery
