import FilterQuery.Proofs.Definition.Building
import FilterQuery.Proofs.Lists
import Mathlib.Data.Nat.Find
/-!
# What a draft builds, and what it is refused for

A declared field has at most one fault: its name is that of the ordering, or else an earlier
field has it, or else it is not a name at all.  A draft builds where no field is at fault and
the search does not go by the name of the ordering; otherwise the first field at fault is what
it is refused for.
-/

namespace FilterQuery

/-! ## What a field is declared as -/

inductive FieldKind.GivenBy (operator : Option Operator) : Option FieldKind → FieldKind → Prop
  | members (hmembers : operator.any Operator.isMembership) : GivenBy operator none (.list .string)
  | truth (htruth : operator.any Operator.isBoolean) : GivenBy operator none .boolean
  | text (hmembers : ¬ operator.any Operator.isMembership)
      (htruth : ¬ operator.any Operator.isBoolean) : GivenBy operator none .string
  | wrapped {kind : FieldKind} (hmembers : operator.any Operator.isMembership)
      (hitem : ¬ kind.isList) : GivenBy operator (some kind) (.list kind)
  | kept {kind : FieldKind} (h : operator.any Operator.isMembership → kind.isList) :
      GivenBy operator (some kind) kind

theorem Operator.not_boolean_of_membership {operator : Operator}
    (hmembers : operator.isMembership) : ¬ operator.isBoolean := by
  cases operator <;> simp_all [isMembership, isBoolean]

theorem FieldKind.infer_eq (operator : Option Operator) :
    infer operator =
      if operator.any Operator.isMembership then .list .string
      else if operator.any Operator.isBoolean then .boolean else .string := by
  cases operator <;> rfl

theorem FieldKind.givenBy_iff {operator : Option Operator} {given : Option FieldKind}
    {kind : FieldKind} : GivenBy operator given kind ↔ kind = .forOperator operator given := by
  constructor
  · rintro (hmembers | htruth | ⟨hmembers, htruth⟩ | ⟨hmembers, hitem⟩ | h)
    · simp [forOperator, infer_eq, hmembers]
    · have hmembers : ¬ operator.any Operator.isMembership := by
        cases operator with
        | none => simp
        | some operator => exact fun h => operator.not_boolean_of_membership h htruth
      simp [forOperator, infer_eq, hmembers, htruth]
    · simp [forOperator, infer_eq, hmembers, htruth]
    · simp [forOperator, hmembers, hitem]
    · by_cases hmembers : operator.any Operator.isMembership
      · simp [forOperator, h hmembers]
      · simp [forOperator, hmembers]
  · rintro rfl
    cases given with
    | none =>
        rw [forOperator, infer_eq]
        split
        · exact .members ‹_›
        · split
          · exact .truth ‹_›
          · exact .text ‹_› ‹_›
    | some kind =>
        rw [forOperator]
        split
        · rename_i h
          rw [Bool.and_eq_true, Bool.not_eq_true'] at h
          exact .wrapped h.1 (by simp [h.2])
        · rename_i h
          exact .kept fun hmembers => by simpa [hmembers] using h

namespace FieldDraft

/-- What a field is declared as: its name is taken whole or taken apart, and its kind follows
from the operator. -/
structure Becomes (constants : Constants) (draft : FieldDraft) (declared : DeclaredField) :
    Prop where
  whole : draft.Whole constants → declared.field = ⟨draft.name, draft.name, none⟩
  parsed : ¬ draft.Whole constants → FieldName.parse draft.name = .ok declared.field
  kind : FieldKind.GivenBy declared.field.operator draft.kind declared.kind

inductive NameFault (constants : Constants) (draft : FieldDraft) : DefinitionError → Prop
  | unnamed (hwhole : draft.Whole constants) (hempty : draft.name = "") :
      NameFault constants draft (.invalidName draft.name)
  | unparsed {fault : DefinitionError} (hparsed : ¬ draft.Whole constants)
      (hfault : FieldName.parse draft.name = .error fault) : NameFault constants draft fault

/-- The fault of a field that stands after fields of the names `earlier`. -/
inductive FaultAfter (constants : Constants) (earlier : List String) (draft : FieldDraft) :
    DefinitionError → Prop
  | reserved (hreserved : draft.name = constants.orderingField) :
      FaultAfter constants earlier draft (.reservedName draft.name)
  | duplicate (hfree : draft.name ≠ constants.orderingField) (htaken : draft.name ∈ earlier) :
      FaultAfter constants earlier draft (.duplicateField draft.name)
  | name {fault : DefinitionError} (hfree : draft.name ≠ constants.orderingField)
      (hnew : draft.name ∉ earlier) (hfault : draft.NameFault constants fault) :
      FaultAfter constants earlier draft fault

variable {constants : Constants} {draft : FieldDraft}

theorem declares_iff {declared : DeclaredField} :
    draft.Declares constants declared ↔
      (draft.Whole constants → draft.name ≠ "") ∧ draft.Becomes constants declared := by
  unfold Declares
  rw [fieldName_eq_ok_iff, ← FieldKind.givenBy_iff]
  constructor
  · rintro ⟨⟨hwhole, hparsed⟩, hkind⟩
    exact ⟨fun h => (hwhole h).1, ⟨fun h => (hwhole h).2, hparsed, hkind⟩⟩
  · rintro ⟨hnamed, hwhole, hparsed, hkind⟩
    exact ⟨⟨fun h => ⟨hnamed h, hwhole h⟩, hparsed⟩, hkind⟩

theorem fieldName_eq_error_iff {fault : DefinitionError} :
    draft.fieldName constants = .error fault ↔ draft.NameFault constants fault := by
  unfold fieldName
  by_cases hwhole : draft.Whole constants
  · rw [if_pos (isWhole_iff.2 hwhole)]
    constructor
    · intro herror
      split at herror
      · rename_i hempty
        cases herror
        exact .unnamed hwhole (String.isEmpty_iff.1 hempty)
      · cases herror
    · rintro (⟨_, hempty⟩ | ⟨hparsed, _⟩)
      · simp [hempty]
      · exact absurd hwhole hparsed
  · rw [if_neg (mt isWhole_iff.1 hwhole)]
    constructor
    · exact .unparsed hwhole
    · rintro (⟨h, _⟩ | ⟨_, hfault⟩)
      · exact absurd h hwhole
      · exact hfault

theorem declare_eq_error_iff {seen : List String} {fault : DefinitionError} :
    draft.declare constants seen = .error fault ↔ draft.FaultAfter constants seen fault := by
  unfold declare
  by_cases hreserved : draft.name = constants.orderingField
  · rw [if_pos hreserved]
    constructor
    · rintro ⟨⟩
      exact .reserved hreserved
    · rintro (_ | ⟨hfree, _⟩ | ⟨hfree, _⟩)
      · rfl
      · exact absurd hreserved hfree
      · exact absurd hreserved hfree
  by_cases hseen : draft.name ∈ seen
  · rw [if_neg hreserved, if_pos hseen]
    constructor
    · rintro ⟨⟩
      exact .duplicate hreserved hseen
    · rintro (h | _ | ⟨_, hnew, _⟩)
      · exact absurd h hreserved
      · rfl
      · exact absurd hseen hnew
  · rw [if_neg hreserved, if_neg hseen]
    constructor
    · intro herror
      rcases Outcome.bind_eq_error.1 herror with hname | ⟨_, _, hok⟩
      · exact .name hreserved hseen (fieldName_eq_error_iff.1 hname)
      · cases hok
    · rintro (h | ⟨_, h⟩ | ⟨_, _, hfault⟩)
      · exact absurd h hreserved
      · exact absurd h hseen
      · exact Outcome.bind_eq_error.2 (.inl (fieldName_eq_error_iff.2 hfault))

theorem FaultAfter.of_mem_iff {earlier others : List String} {fault : DefinitionError}
    (hfault : draft.FaultAfter constants earlier fault)
    (hmem : draft.name ∈ earlier ↔ draft.name ∈ others) :
    draft.FaultAfter constants others fault := by
  rcases hfault with hreserved | ⟨hfree, htaken⟩ | ⟨hfree, hnew, hfault⟩
  · exact .reserved hreserved
  · exact .duplicate hfree (hmem.1 htaken)
  · exact .name hfree (mt hmem.2 hnew) hfault

/-! ## The first fault -/

/-- The fault of the field at a place, where the names in `seen` are taken before. -/
def FaultIn (constants : Constants) (seen : List String) (drafts : List FieldDraft)
    (place : Nat) (fault : DefinitionError) : Prop :=
  ∃ draft, drafts[place]? = some draft ∧
    draft.FaultAfter constants (seen ++ (drafts.take place).map (·.name)) fault

variable {seen : List String} {drafts : List FieldDraft} {fault : DefinitionError}

theorem faultIn_zero :
    FaultIn constants seen (draft :: drafts) 0 fault ↔ draft.FaultAfter constants seen fault := by
  simp [FaultIn]

theorem faultIn_succ {place : Nat} :
    FaultIn constants seen (draft :: drafts) (place + 1) fault ↔
      FaultIn constants (draft.name :: seen) drafts place fault := by
  have hmem (name : String) :
      name ∈ seen ++ ((draft :: drafts).take (place + 1)).map (·.name) ↔
        name ∈ draft.name :: seen ++ (drafts.take place).map (·.name) := by
    simp only [List.take_succ_cons, List.map_cons, List.mem_append, List.mem_cons]
    tauto
  simp only [FaultIn, List.getElem?_cons_succ]
  constructor
  · rintro ⟨other, hother, hfault⟩
    exact ⟨other, hother, hfault.of_mem_iff (hmem other.name)⟩
  · rintro ⟨other, hother, hfault⟩
    exact ⟨other, hother, hfault.of_mem_iff (hmem other.name).symm⟩

theorem declareAll_eq_error_iff :
    declareAll constants seen drafts = .error fault ↔
      ∃ place, FaultIn constants seen drafts place fault ∧
        ∀ earlier < place, ∀ other, ¬ FaultIn constants seen drafts earlier other := by
  induction drafts generalizing seen with
  | nil => simp [declareAll, FaultIn, pure, Except.pure]
  | cons draft rest ih =>
      rw [declareAll, Outcome.bind_eq_error]
      constructor
      · rintro (hhere | ⟨declared, hdeclared, hrest⟩)
        · refine ⟨0, faultIn_zero.2 (declare_eq_error_iff.1 hhere), ?_⟩
          exact fun earlier hearlier => absurd hearlier earlier.not_lt_zero
        · have hrest : declareAll constants (draft.name :: seen) rest = .error fault := by
            rcases Outcome.bind_eq_error.1 hrest with hrest | ⟨_, _, hok⟩
            · exact hrest
            · cases hok
          obtain ⟨place, hfault, hfirst⟩ := ih.1 hrest
          refine ⟨place + 1, faultIn_succ.2 hfault, ?_⟩
          intro earlier hearlier other hother
          cases earlier with
          | zero =>
              rw [faultIn_zero, ← declare_eq_error_iff, hdeclared] at hother
              cases hother
          | succ earlier =>
              exact hfirst earlier (by omega) other (faultIn_succ.1 hother)
      · -- A fault further on is reached only where the draft in front has none.
        rintro ⟨place, hfault, hfirst⟩
        cases place with
        | zero => exact .inl (declare_eq_error_iff.2 (faultIn_zero.1 hfault))
        | succ place =>
            cases hdeclare : draft.declare constants seen with
            | error other =>
                exact absurd (faultIn_zero.2 (declare_eq_error_iff.1 hdeclare))
                  (hfirst 0 (by omega) other)
            | ok declared =>
                have hrest : declareAll constants (draft.name :: seen) rest = .error fault :=
                  ih.2 ⟨place, faultIn_succ.1 hfault, fun earlier hearlier other hother =>
                    hfirst (earlier + 1) (by omega) other (faultIn_succ.2 hother)⟩
                exact .inr ⟨declared, rfl, Outcome.bind_eq_error.2 (.inl hrest)⟩

theorem exists_declareAll_iff :
    (∃ fields, declareAll constants seen drafts = .ok fields) ↔
      ∀ place fault, ¬ FaultIn constants seen drafts place fault := by
  constructor
  · rintro ⟨fields, hfields⟩ place fault hfault
    -- the least place with a fault is where declaring them would have failed
    have hexists : ∃ place, ∃ fault, FaultIn constants seen drafts place fault :=
      ⟨place, fault, hfault⟩
    classical
    obtain ⟨least, hleast⟩ := Nat.find_spec hexists
    have herror : declareAll constants seen drafts = .error least :=
      declareAll_eq_error_iff.2 ⟨Nat.find hexists, hleast, fun earlier hearlier other hother =>
        Nat.find_min hexists hearlier ⟨other, hother⟩⟩
    rw [hfields] at herror
    cases herror
  · intro hnone
    cases hdeclare : declareAll constants seen drafts with
    | ok fields => exact ⟨fields, rfl⟩
    | error fault =>
        obtain ⟨place, hfault, _⟩ := declareAll_eq_error_iff.1 hdeclare
        exact absurd hfault (hnone place fault)

end FieldDraft

namespace Draft

/-- What a draft must have to be built. -/
structure Acceptable (draft : Draft) : Prop where
  field_free : ∀ field ∈ draft.fields, field.name ≠ draft.constants.orderingField
  search_free : draft.constants.searchField ≠ some draft.constants.orderingField
  distinct : (draft.fields.map (·.name)).Nodup
  named : ∀ field ∈ draft.fields, field.Whole draft.constants → field.name ≠ ""
  parsed : ∀ field ∈ draft.fields, ¬ field.Whole draft.constants →
    ∃ name, FieldName.parse field.name = .ok name

/-- What a definition has of the draft that it is built from. -/
structure Yields (draft : Draft) (definition : Definition) : Prop where
  name : definition.name = draft.name
  fields : ∃ declared search, definition.fields = declared ++ search ∧
    List.Forall₂ (FieldDraft.Becomes draft.constants) draft.fields declared ∧
    draft.AddsSearch search
  constants : definition.constants =
    { draft.constants with searchPaths := draft.constants.searchPaths.eraseDups }

def FaultAt (draft : Draft) (place : Nat) (fault : DefinitionError) : Prop :=
  ∃ field, draft.fields[place]? = some field ∧
    field.FaultAfter draft.constants ((draft.fields.take place).map (·.name)) fault

/-- The fault that comes first in a draft: that of the first field at fault, and only where
there is none, that of a search by the name of the ordering. -/
inductive FirstFault (draft : Draft) : DefinitionError → Prop
  | field {place : Nat} {fault : DefinitionError} (hfault : draft.FaultAt place fault)
      (hfirst : ∀ earlier < place, ∀ other, ¬ draft.FaultAt earlier other) :
      FirstFault draft fault
  | search (hnone : ∀ place other, ¬ draft.FaultAt place other)
      (hsearch : draft.constants.searchField = some draft.constants.orderingField) :
      FirstFault draft (.reservedName draft.constants.orderingField)

variable {draft : Draft}

theorem searchField_eq_error_iff {fault : DefinitionError} :
    draft.searchField = .error fault ↔
      draft.constants.searchField = some draft.constants.orderingField ∧
        draft.constants.orderingField ∉ draft.fields.map (·.name) ∧
        fault = .reservedName draft.constants.orderingField := by
  rcases draft.search_cases with hdeclared | ⟨name, hsearch, hnew⟩
  · rw [searchField_of_declared hdeclared]
    constructor
    · nofun
    · rintro ⟨hsearch, hnew, _⟩
      exact absurd (hdeclared _ hsearch) hnew
  · rw [searchField_of_undeclared hsearch hnew]
    constructor
    · intro herror
      split at herror
      · rename_i hreserved
        cases herror
        exact ⟨hreserved ▸ hsearch, hreserved ▸ hnew, hreserved ▸ rfl⟩
      · cases herror
    · rintro ⟨hother, _, rfl⟩
      cases hsearch.symm.trans hother
      exact if_pos rfl

/-! ## Building -/

theorem acceptable_of_build {definition : Definition} (hbuild : draft.build = .ok definition) :
    draft.Acceptable := by
  obtain ⟨fields, search, hfields, hsearch, _⟩ := build_eq_ok_iff.1 hbuild
  obtain ⟨hall, hnodup, hnames⟩ := FieldDraft.declareAll_eq_ok_iff.1 hfields
  have hdeclares (field : FieldDraft) (hmem : field ∈ draft.fields) :
      ∃ declared, field.Declares draft.constants declared := by
    obtain ⟨declared, _, hdeclared⟩ := Lists.exists_of_forall₂ hall.flip hmem
    exact ⟨declared, hdeclared⟩
  refine ⟨fun field hmem => (hnames field hmem).1, ?_, hnodup, ?_, ?_⟩
  · intro hreserved
    refine (searchField_eq_ok_iff.1 hsearch).2 _ hreserved ?_ rfl
    intro hmem
    obtain ⟨field, hfield, hname⟩ := List.mem_map.1 hmem
    exact (hnames field hfield).1 hname
  · intro field hmem
    obtain ⟨_, hdeclared⟩ := hdeclares field hmem
    exact (FieldDraft.declares_iff.1 hdeclared).1
  · intro field hmem hparsed
    obtain ⟨declared, hdeclared⟩ := hdeclares field hmem
    exact ⟨declared.field, (FieldDraft.declares_iff.1 hdeclared).2.parsed hparsed⟩

theorem yields_of_build {definition : Definition} (hbuild : draft.build = .ok definition) :
    draft.Yields definition := by
  obtain ⟨fields, search, hfields, hsearch, rfl⟩ := build_eq_ok_iff.1 hbuild
  have hall := (FieldDraft.declareAll_eq_ok_iff.1 hfields).1
  exact ⟨rfl, ⟨fields, search, rfl,
    hall.imp fun _ _ hdeclared => (FieldDraft.declares_iff.1 hdeclared).2,
    (searchField_eq_ok_iff.1 hsearch).1⟩, rfl⟩

theorem Acceptable.build_eq_ok {definition : Definition} (hacceptable : draft.Acceptable)
    (hyields : draft.Yields definition) : draft.build = .ok definition := by
  obtain ⟨hname, ⟨fields, search, hfields, hall, hsearch⟩, hconstants⟩ := hyields
  have hdeclares : List.Forall₂ (FieldDraft.Declares draft.constants) draft.fields fields := by
    have hmembers := (List.forall₂_and_left draft.fields fields).2 ⟨fun _ h => h, hall⟩
    exact hmembers.imp fun field declared h =>
      FieldDraft.declares_iff.2 ⟨hacceptable.named field h.1, h.2⟩
  refine build_eq_ok_iff.2 ⟨fields, search, ?_, ?_, ?_⟩
  · exact FieldDraft.declareAll_eq_ok_iff.2 ⟨hdeclares, hacceptable.distinct,
      fun field hmem => ⟨hacceptable.field_free field hmem, List.not_mem_nil⟩⟩
  · refine searchField_eq_ok_iff.2 ⟨hsearch, ?_⟩
    rintro name hname _ rfl
    exact hacceptable.search_free hname
  · rw [← hname, ← hfields, ← hconstants]
    cases definition
    rfl

theorem Acceptable.exists_yields (hacceptable : draft.Acceptable) :
    ∃ definition, draft.Yields definition := by
  have hbecomes : ∀ field ∈ draft.fields,
      ∃ declared, field.Becomes draft.constants declared := by
    intro field hmem
    by_cases hwhole : field.Whole draft.constants
    · exact ⟨⟨⟨field.name, field.name, none⟩, .forOperator none field.kind⟩,
        fun _ => rfl, fun h => absurd hwhole h, FieldKind.givenBy_iff.2 rfl⟩
    · obtain ⟨name, hname⟩ := hacceptable.parsed field hmem hwhole
      exact ⟨⟨name, .forOperator name.operator field.kind⟩,
        fun h => absurd h hwhole, fun _ => hname, FieldKind.givenBy_iff.2 rfl⟩
  obtain ⟨fields, hall⟩ := Lists.exists_forall₂ hbecomes
  obtain ⟨search, hsearch⟩ : ∃ search, draft.AddsSearch search := by
    rcases draft.search_cases with hdeclared | ⟨name, hsearch, hnew⟩
    · exact ⟨[], .nothing hdeclared⟩
    · exact ⟨_, .undeclared hsearch hnew⟩
  exact ⟨⟨draft.name, fields ++ search, _⟩, rfl, ⟨fields, search, rfl, hall, hsearch⟩, rfl⟩

theorem declareAll_eq_error_iff {fault : DefinitionError} :
    FieldDraft.declareAll draft.constants [] draft.fields = .error fault ↔
      ∃ place, draft.FaultAt place fault ∧
        ∀ earlier < place, ∀ other, ¬ draft.FaultAt earlier other :=
  FieldDraft.declareAll_eq_error_iff

theorem build_eq_error_iff {fault : DefinitionError} :
    draft.build = .error fault ↔ draft.FirstFault fault := by
  have hfields : (∃ fields, FieldDraft.declareAll draft.constants [] draft.fields = .ok fields) ↔
      ∀ place other, ¬ draft.FaultAt place other := FieldDraft.exists_declareAll_iff
  unfold build
  rw [Outcome.bind_eq_error, declareAll_eq_error_iff]
  constructor
  · rintro (⟨place, hfault, hfirst⟩ | ⟨fields, hok, herror⟩)
    · exact .field hfault hfirst
    · rcases Outcome.bind_eq_error.1 herror with hadd | ⟨_, _, hadded⟩
      · obtain ⟨hsearch, _, rfl⟩ := searchField_eq_error_iff.1 hadd
        exact .search (hfields.1 ⟨fields, hok⟩) hsearch
      · cases hadded
  · rintro (⟨hfault, hfirst⟩ | ⟨hnone, hsearch⟩)
    · exact .inl ⟨_, hfault, hfirst⟩
    · obtain ⟨fields, hok⟩ := hfields.2 hnone
      refine .inr ⟨fields, hok, Outcome.bind_eq_error.2 (.inl ?_)⟩
      refine searchField_eq_error_iff.2 ⟨hsearch, ?_, rfl⟩
      intro hmem
      obtain ⟨field, hfield, hname⟩ := List.mem_map.1 hmem
      obtain ⟨place, hplace⟩ := List.getElem?_of_mem hfield
      exact hnone place _ ⟨field, hplace, .reserved hname⟩

/-- A draft builds exactly when it is acceptable, what it builds is settled by what it
declares, and what it is refused for is its first fault. -/
theorem build_exact (draft : Draft) :
    ((∃ definition, draft.build = .ok definition) ↔ draft.Acceptable) ∧
      (∀ definition, draft.build = .ok definition ↔
        draft.Acceptable ∧ draft.Yields definition) ∧
      ∀ fault, draft.build = .error fault ↔ draft.FirstFault fault := by
  refine ⟨⟨?_, ?_⟩, fun definition => ⟨?_, ?_⟩, fun fault => build_eq_error_iff⟩
  · rintro ⟨definition, hbuild⟩
    exact acceptable_of_build hbuild
  · intro hacceptable
    obtain ⟨definition, hyields⟩ := hacceptable.exists_yields
    exact ⟨definition, hacceptable.build_eq_ok hyields⟩
  · intro hbuild
    exact ⟨acceptable_of_build hbuild, yields_of_build hbuild⟩
  · rintro ⟨hacceptable, hyields⟩
    exact hacceptable.build_eq_ok hyields

/-- The second field is at fault before the third, which repeats the first. -/
example : ({ name := "Post", fields := [⟨"title", none⟩, ⟨"age__between", none⟩,
    ⟨"title", none⟩] } : Draft).build = .error (.unknownOperator "age__between" "between") := by
  rfl

end Draft

end FilterQuery
