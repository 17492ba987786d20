import FilterQuery.Proofs.Param.Acceptance
/-!
# Faults of a request

Parameters are refused for what was asked for and never for what binding does with it: a value is
only set under a name that is declared, and is of the kind declared there.  This holds of a
definition and of every definition that it nests.
-/

namespace FilterQuery

/-- A definition, one of its nested fields, or one further down. -/
inductive Definition.Contains : Definition → Definition → Prop
  | self (definition : Definition) : Definition.Contains definition definition
  | deeper {definition sub inner : Definition} {name : String}
      (hnested : definition.nested? name = some sub) (hinner : Definition.Contains sub inner) :
      Definition.Contains definition inner

/-- The faults that a request can have, all but the refusals of a filter. -/
inductive BindError.OfRequest : BindError → Prop
  | unknownKey (key : String) : OfRequest (.unknownKey key)
  | bareNested (field : String) : OfRequest (.bareNested field)
  | unreadable (field raw : String) (kind : FieldKind) : OfRequest (.unreadable field raw kind)
  | unlistable (field : String) (kind : FieldKind) : OfRequest (.unlistable field kind)
  | ordering (field : String) (fault : OrderingFault) : OfRequest (.ordering field fault)

variable {field raw : String} {kind : FieldKind} {error : BindError}

/-! ## Reading -/

namespace FieldKind

theorem ofRequest_of_readScalar (hread : kind.readScalar field raw = .error error) :
    error.OfRequest := by
  have hrequest (value : Option Json)
      (hvalue : (value.elim (.error (.unreadable field raw kind)) .ok : Except BindError Json) =
        .error error) : error.OfRequest := by
    cases value with
    | none =>
        cases hvalue
        exact .unreadable ..
    | some value => cases hvalue
  cases kind with
  | string => cases hread
  | integer => exact hrequest _ hread
  | number => exact hrequest _ hread
  | boolean => exact hrequest _ hread
  | list item =>
      cases hread
      exact .unlistable ..
  | nested definition =>
      cases hread
      exact .unlistable ..

theorem ofRequest_of_read (hread : kind.read field raw = .error error) : error.OfRequest := by
  have hscalar (hmap : Value.scalar <$> kind.readScalar field raw = .error error) :
      error.OfRequest := ofRequest_of_readScalar (Outcome.map_eq_error.1 hmap)
  cases kind with
  | list item =>
      obtain ⟨part, _, hpart⟩ := Outcome.mapM_eq_error (Outcome.map_eq_error.1 hread)
      exact ofRequest_of_readScalar hpart
  | boolean =>
      rw [read] at hread
      split at hread
      · cases hread
      · cases hread
        exact .unreadable ..
  | string => exact hscalar hread
  | integer => exact hscalar hread
  | number => exact hscalar hread
  | nested definition => exact hscalar hread

end FieldKind

theorem ofRequest_of_checkOrdering {constants : Constants} {entries : List String}
    (hcheck : checkOrdering constants entries = .error error) : error.OfRequest := by
  unfold checkOrdering at hcheck
  split at hcheck
  · cases hcheck
    exact .ordering ..
  · cases hcheck

/-! ## Binding -/

namespace Definition

variable {validate : Bool} {definition inner : Definition} {params : List Param} {param : Param}

theorem ofRequest_of_check (hcheck : definition.check validate param = .error error) :
    error.OfRequest := by
  induction definition using nestedInduction generalizing param with
  | step definition ih =>
      rw [check] at hcheck
      cases hroute : definition.route param.key with
      | ordering =>
          simp only [hroute] at hcheck
          split at hcheck
          · exact ofRequest_of_checkOrdering hcheck
          · cases hcheck
      | leaf declared =>
          simp only [hroute] at hcheck
          exact FieldKind.ofRequest_of_read (Outcome.map_eq_error.1 hcheck)
      | bareNested =>
          simp only [hroute] at hcheck
          cases hcheck
          exact .bareNested _
      | nested field rest =>
          simp only [hroute] at hcheck
          split at hcheck
          · rename_i sub hnested
            exact ih field sub hnested hcheck
          · cases hcheck
      | unknown =>
          simp only [hroute] at hcheck
          cases hcheck
          exact .unknownKey _

theorem Built.ofRequest_of_bind (hbuilt : definition.Built)
    (hbind : definition.bind validate params = .error error) : error.OfRequest := by
  obtain ⟨param, _, hcheck⟩ := hbuilt.check_of_bind_error hbind
  exact ofRequest_of_check hcheck

theorem Built.of_contains (hbuilt : definition.Built) (hcontains : definition.Contains inner) :
    inner.Built := by
  induction hcontains with
  | self => exact hbuilt
  | deeper hnested _ ih => exact ih (hbuilt.of_nested? hnested)

end Definition

end FilterQuery
