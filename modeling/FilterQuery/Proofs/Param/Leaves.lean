import FilterQuery.Proofs.Param.Acceptance
/-!
# What is given for a leaf

A leaf is a field that is not nested, at whatever level it stands.  A parameter that leads there is
checked by reading its text for the field, and the bound filter has at the leaf what is read of all
texts given for it, whatever else is bound.  One text that cannot be read there lets nothing be
bound at all.
-/

namespace FilterQuery

def Filter.at? (filter : Filter) : List String → String → Option Value
  | [], name => filter.get? name
  | field :: chain, name =>
      match filter.get? field with
      | some (.sub below) => below.at? chain name
      | _ => none

namespace Definition

/-- Under this key the text sets the leaf to the value, among any parameters that are accepted and
lead elsewhere. -/
def Takes (definition : Definition) (validate : Bool) (key : String) (leaf : Leaf) (raw : String)
    (value : Value) : Prop :=
  ∀ before after : List Param,
    (∀ other ∈ before ++ after, definition.leaf? other.key ≠ some leaf ∧
      ∃ filter, definition.bind validate [other] = .ok filter) →
    ∃ filter, definition.bind validate (before ++ ⟨key, raw⟩ :: after) = .ok filter ∧
      filter.at? leaf.chain leaf.declared.name = some value

/-- Under this key the text lets nothing be bound, and among parameters that are accepted it is
what is reported. -/
def Refuses (definition : Definition) (validate : Bool) (key raw : String) (error : BindError) :
    Prop :=
  ∀ before after : List Param,
    (∃ fault, definition.bind validate (before ++ ⟨key, raw⟩ :: after) = .error fault) ∧
    ((∀ other ∈ before ++ after, ∃ filter, definition.bind validate [other] = .ok filter) →
      definition.bind validate (before ++ ⟨key, raw⟩ :: after) = .error error)

variable {validate : Bool} {definition : Definition} {params before after : List Param}
  {filter : Filter} {leaf : Leaf} {key raw : String} {value : Value} {error : BindError}

/-! ## The check at a leaf -/

theorem check_of_leaf? (hleaf : definition.leaf? key = some leaf) :
    definition.check validate ⟨key, raw⟩ =
      (leaf.declared.kind.read leaf.declared.name raw).map fun _ => () := by
  induction definition using nestedInduction generalizing key leaf with
  | step definition ih =>
      rw [leaf?_eq] at hleaf
      rw [check]
      cases hroute : definition.route key with
      | leaf declared =>
          simp only [hroute] at hleaf ⊢
          cases hleaf
          rfl
      | nested field rest =>
          simp only [hroute] at hleaf ⊢
          obtain ⟨sub, hnested, hbelow⟩ := Option.bind_eq_some_iff.1 hleaf
          obtain ⟨inner, hinner, rfl⟩ := Option.map_eq_some_iff.1 hbelow
          split
          · rename_i found hfound
            cases hfound.symm.trans hnested
            have hcheck : sub.check validate ⟨rest, raw⟩ = _ := ih field sub hnested hinner
            exact hcheck
          · rename_i hnone
            rw [hnone] at hnested
            cases hnested
      | _ =>
          simp only [hroute] at hleaf
          cases hleaf

/-! ## The value at a leaf -/

/-- A leaf has what is read of all texts that are given for it. -/
theorem Built.readAll_at? (hbuilt : definition.Built)
    (hbind : definition.bind validate params = .ok filter)
    (hleaf : definition.leaf? key = some leaf) :
    leaf.declared.readAll (definition.rawsOf params leaf) =
      .ok (filter.at? leaf.chain leaf.declared.name) := by
  obtain ⟨chain, declared, constants⟩ := leaf
  induction chain generalizing definition params filter key with
  | nil =>
      obtain ⟨hroute, rfl⟩ := leaf?_eq_some_nil.1 hleaf
      obtain ⟨hfield, hkind⟩ := field?_of_route hroute
      obtain rfl := name_of_field? hfield
      exact (hbuilt.regular.binds_of_bind hbind).leaf _ declared hfield hkind
  | cons field chain ih =>
      obtain ⟨rest, sub, _, hnested, hbelow⟩ := leaf?_eq_some_cons.1 hleaf
      have hbinds := hbuilt.regular.binds_of_bind hbind
      rw [rawsOf_cons hnested, Filter.at?]
      by_cases hgroup : definition.groupOf params field = []
      · rw [hgroup, hbinds.untouched field sub hnested hgroup]
        rfl
      · obtain ⟨below, hbind', hget⟩ := hbinds.passed field sub hnested hgroup
        rw [hget]
        exact ih (hbuilt.of_nested? hnested) hbind' hbelow

theorem rawsOf_around (hleaf : definition.leaf? key = some leaf)
    (hothers : ∀ other ∈ before ++ after, definition.leaf? other.key ≠ some leaf) :
    definition.rawsOf (before ++ ⟨key, raw⟩ :: after) leaf = [raw] := by
  obtain ⟨hbefore, hafter⟩ := List.forall_mem_append.1 hothers
  have hnone : ∀ params : List Param, (∀ other ∈ params, definition.leaf? other.key ≠ some leaf) →
      definition.rawsOf params leaf = [] := by
    intro params hparams
    rw [rawsOf, List.filterMap_eq_nil_iff]
    exact fun other hmem => if_neg (hparams other hmem)
  have hhere : definition.rawsOf (⟨key, raw⟩ :: after) leaf =
      raw :: definition.rawsOf after leaf := by
    rw [rawsOf, List.filterMap_cons, if_pos hleaf]
    rfl
  rw [rawsOf, List.filterMap_append]
  show definition.rawsOf before leaf ++ definition.rawsOf (⟨key, raw⟩ :: after) leaf = [raw]
  rw [hnone before hbefore, hhere, hnone after hafter, List.nil_append]

/-! ## One text among others -/

/-- A text that can be read for a leaf sets it to what is read. -/
theorem Built.takes_of_read (hbuilt : definition.Built)
    (hleaf : definition.leaf? key = some leaf)
    (hread : leaf.declared.kind.read leaf.declared.name raw = .ok value) :
    definition.Takes validate key leaf raw value := by
  intro before after hothers
  have hcheck : definition.check validate ⟨key, raw⟩ = .ok () := by
    rw [check_of_leaf? hleaf, hread]
    rfl
  obtain ⟨hbefore, hafter⟩ := List.forall_mem_append.1 hothers
  have heach : ∀ param ∈ before ++ ⟨key, raw⟩ :: after,
      ∃ filter, definition.bind validate [param] = .ok filter := by
    refine List.forall_mem_append.2 ⟨fun other hmem => (hbefore other hmem).2,
      List.forall_mem_cons.2 ⟨?_, fun other hmem => (hafter other hmem).2⟩⟩
    exact hbuilt.exists_bind_iff_check.2 (List.forall_mem_singleton.2 hcheck)
  obtain ⟨filter, hbind⟩ := hbuilt.exists_bind_iff.2 heach
  refine ⟨filter, hbind, ?_⟩
  have hvalue := hbuilt.readAll_at? hbind hleaf
  rw [rawsOf_around hleaf fun other hmem => (hothers other hmem).1,
    ← List.nil_append [raw], DeclaredField.readAll_append_singleton rfl hread] at hvalue
  exact (Except.ok.inj hvalue).symm

/-- A text that cannot be read for a leaf lets nothing be bound. -/
theorem Built.refuses_of_read (hbuilt : definition.Built)
    (hleaf : definition.leaf? key = some leaf)
    (hread : leaf.declared.kind.read leaf.declared.name raw = .error error) :
    definition.Refuses validate key raw error := by
  intro before after
  have hcheck : definition.check validate ⟨key, raw⟩ = .error error := by
    rw [check_of_leaf? hleaf, hread]
    rfl
  have hfails : ∃ fault,
      definition.bind validate (before ++ ⟨key, raw⟩ :: after) = .error fault := by
    cases hbind : definition.bind validate (before ++ ⟨key, raw⟩ :: after) with
    | error fault => exact ⟨fault, rfl⟩
    | ok filter =>
        have haccepted := hbuilt.check_of_bind hbind ⟨key, raw⟩ (by simp)
        rw [hcheck] at haccepted
        cases haccepted
  refine ⟨hfails, ?_⟩
  intro hothers
  obtain ⟨fault, hbind⟩ := hfails
  obtain ⟨param, hmem, hfault⟩ := hbuilt.check_of_bind_error hbind
  have hcause : param ∈ before ++ after ∨ param = ⟨key, raw⟩ := by
    simp only [List.mem_append, List.mem_cons] at hmem ⊢
    tauto
  rcases hcause with hother | rfl
  · have haccepted := hbuilt.exists_bind_iff_check.1 (hothers param hother) param (.head _)
    rw [hfault] at haccepted
    cases haccepted
  · rw [hcheck] at hfault
    rw [hbind, Except.error.inj hfault]

end Definition

end FilterQuery
