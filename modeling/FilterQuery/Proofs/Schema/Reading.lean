import FilterQuery.Schema.Outline
import FilterQuery.Proofs.Outcome
/-!
# What it takes to read a document

A document is read section by section.  Reading succeeds when the keys of every section are
accepted, what must be there is there, and every entry for a field can be read; the sections
are said here once, so that nothing later opens the readers again.
-/

namespace FilterQuery.Schema

variable {value : Yaml.Value} {key : String}

theorem string_eq_ok_iff {text : String} :
    string value key = .ok text ↔ string? value key = some text := by
  unfold string
  cases string? value key <;> simp

theorem strings_eq_ok_iff {read : Option (List String)} :
    strings value key = .ok read ↔
      value.get? key = none ∧ read = none ∨
        ∃ found texts, value.get? key = some found ∧
          found.items?.bind (·.mapM Yaml.Value.string?) = some texts ∧ read = some texts := by
  unfold strings
  cases value.get? key with
  | none =>
      constructor
      · rintro ⟨⟩
        exact .inl ⟨rfl, rfl⟩
      · rintro (⟨_, rfl⟩ | ⟨_, _, hfound, _⟩)
        · rfl
        · cases hfound
  | some found =>
      dsimp only
      constructor
      · intro hread
        split at hread
        · rename_i texts htexts
          cases hread
          exact .inr ⟨found, texts, rfl, htexts, rfl⟩
        · cases hread
      · rintro (⟨hfound, _⟩ | ⟨_, texts, hfound, htexts, rfl⟩)
        · cases hfound
        · cases hfound
          rw [htexts]

theorem searchConstants_eq_ok_iff {given constants : Constants} :
    searchConstants value given = .ok constants ↔
      checkKeys value ["field", "model_fields"] "search" = .ok () ∧
        ∃ searchPaths, strings value "model_fields" = .ok (some searchPaths) ∧
          constants = { given with
            searchField := some ((string? value "field").getD "search"), searchPaths } := by
  unfold searchConstants
  rw [Outcome.bind_eq_ok]
  constructor
  · rintro ⟨_, hkeys, hread⟩
    obtain ⟨paths?, hpaths, hread⟩ := Outcome.bind_eq_ok.1 hread
    cases paths? with
    | none => cases hread
    | some searchPaths =>
        cases hread
        exact ⟨hkeys, searchPaths, hpaths, rfl⟩
  · rintro ⟨hkeys, searchPaths, hpaths, rfl⟩
    exact ⟨(), hkeys, Outcome.bind_eq_ok.2 ⟨some searchPaths, hpaths, rfl⟩⟩

theorem outlineConstants_eq_ok_iff {constants : Constants} :
    outlineConstants value = .ok constants ↔
      ∃ sortable, strings value "model_fields" = .ok sortable ∧
        let given : Constants :=
          { orderingField := (string? value "ordering_field").getD ({} : Constants).orderingField,
            sortable }
        (value.get? "search" = none ∧ constants = given) ∨
          ∃ search, value.get? "search" = some search ∧
            searchConstants search given = .ok constants := by
  unfold outlineConstants
  rw [Outcome.bind_eq_ok]
  refine exists_congr fun sortable => and_congr_right fun _ => ?_
  cases value.get? "search" with
  | none =>
      constructor
      · rintro ⟨⟩
        exact .inl ⟨rfl, rfl⟩
      · rintro (⟨_, rfl⟩ | ⟨_, hsearch, _⟩)
        · rfl
        · cases hsearch
  | some search =>
      constructor
      · exact fun hread => .inr ⟨search, rfl, hread⟩
      · rintro (⟨hsearch, _⟩ | ⟨_, hsearch, hread⟩)
        · cases hsearch
        · cases hsearch
          exact hread

/-! ## Fields -/

theorem OutlineField.ofValue_eq_ok_iff {field : OutlineField} :
    ofValue value = .ok field ↔
      value.string? = some field.name ∧ field.kind = .inferred ∨
        value.string? = none ∧ checkKeys value ["name", "type", "nested"] "field" = .ok () ∧
          string? value "name" = some field.name ∧
          outlineKind field.name (string? value "type") (string? value "nested") =
            .ok field.kind := by
  unfold ofValue
  cases value.string? with
  | some text =>
      constructor
      · rintro ⟨⟩
        exact .inl ⟨rfl, rfl⟩
      · rintro (⟨hname, hkind⟩ | ⟨hnone, _⟩)
        · cases hname
          rw [← hkind]
        · cases hnone
  | none =>
      dsimp only
      rw [Outcome.bind_eq_ok]
      constructor
      · rintro ⟨_, hkeys, hread⟩
        obtain ⟨name, hname, hread⟩ := Outcome.bind_eq_ok.1 hread
        obtain ⟨kind, hkind, hread⟩ := Outcome.bind_eq_ok.1 hread
        cases hread
        exact .inr ⟨rfl, hkeys, string_eq_ok_iff.1 hname, hkind⟩
      · rintro (⟨hname, _⟩ | ⟨_, hkeys, hname, hkind⟩)
        · cases hname
        · refine ⟨(), hkeys, Outcome.bind_eq_ok.2 ⟨field.name, string_eq_ok_iff.2 hname, ?_⟩⟩
          exact Outcome.bind_eq_ok.2 ⟨field.kind, hkind, rfl⟩

/-! ## Sections and documents -/

/-- What the section of a filter is read as. -/
structure Outline.ReadIn (value : Yaml.Value) (outline : Outline) : Prop where
  keys : checkKeys value ["name", "ordering_field", "model_fields", "search", "fields"]
    "filter" = .ok ()
  name : string? value "name" = some outline.name
  constants : outlineConstants value = .ok outline.constants
  fields : ((items? value "fields").getD []).mapM OutlineField.ofValue = .ok outline.fields

theorem Outline.ofValue_eq_ok_iff {document : Yaml.Value} {outline : Outline} :
    ofValue document = .ok outline ↔
      checkKeys document ["filter"] "document" = .ok () ∧
        ∃ value, document.get? "filter" = some value ∧ outline.ReadIn value := by
  unfold ofValue
  rw [Outcome.bind_eq_ok]
  constructor
  · rintro ⟨_, hkeys, hread⟩
    cases hvalue : document.get? "filter" with
    | none =>
        rw [hvalue] at hread
        cases hread
    | some value =>
        rw [hvalue] at hread
        obtain ⟨_, hfilter, hread⟩ := Outcome.bind_eq_ok.1 hread
        obtain ⟨name, hname, hread⟩ := Outcome.bind_eq_ok.1 hread
        obtain ⟨constants, hconstants, hread⟩ := Outcome.bind_eq_ok.1 hread
        obtain ⟨fields, hfields, hread⟩ := Outcome.bind_eq_ok.1 hread
        cases hread
        exact ⟨hkeys, value, rfl, hfilter, string_eq_ok_iff.1 hname, hconstants, hfields⟩
  · rintro ⟨hkeys, value, hvalue, hfilter, hname, hconstants, hfields⟩
    refine ⟨(), hkeys, ?_⟩
    rw [hvalue]
    refine Outcome.bind_eq_ok.2 ⟨(), hfilter, ?_⟩
    refine Outcome.bind_eq_ok.2 ⟨outline.name, string_eq_ok_iff.2 hname, ?_⟩
    refine Outcome.bind_eq_ok.2 ⟨outline.constants, hconstants, ?_⟩
    exact Outcome.bind_eq_ok.2 ⟨outline.fields, hfields, rfl⟩

end FilterQuery.Schema
