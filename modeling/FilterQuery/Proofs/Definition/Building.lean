import FilterQuery.Definition.Draft
import FilterQuery.Proofs.Definition.FieldNames
import FilterQuery.Proofs.Outcome
import Mathlib.Data.List.Forall2
/-!
# What building a definition takes

Fields are declared in order.  Declaring them succeeds when each name is accepted by
itself, no name is that of the ordering, and the names are distinct; what is declared
for a field depends on the field alone.
-/

namespace FilterQuery

theorem FieldKind.nested?_eq_some_iff {kind : FieldKind} {sub : Definition} :
    kind.nested? = some sub ↔ kind = .nested sub := by
  cases kind <;> simp [FieldKind.nested?]

namespace FieldDraft

/-- A nested field or the search field, whose name is not taken apart. -/
def Whole (constants : Constants) (draft : FieldDraft) : Prop :=
  (∃ sub, draft.kind = some (.nested sub)) ∨ constants.searchField = some draft.name

theorem isWhole_iff {constants : Constants} {draft : FieldDraft} :
    draft.isWhole constants = true ↔ draft.Whole constants := by
  simp [isWhole, Whole, Option.isSome_iff_exists, Option.bind_eq_some_iff,
    FieldKind.nested?_eq_some_iff]

theorem fieldName_eq_ok_iff {constants : Constants} {draft : FieldDraft} {field : FieldName} :
    draft.fieldName constants = .ok field ↔
      (draft.Whole constants → draft.name ≠ "" ∧ field = .plain draft.name) ∧
        (¬ draft.Whole constants → FieldName.parse draft.name = .ok field) := by
  unfold fieldName
  by_cases hwhole : draft.Whole constants
  · rw [if_pos (isWhole_iff.2 hwhole)]
    by_cases hempty : draft.name = ""
    · simp [hwhole, hempty]
    · have hnamed : ¬ draft.name.isEmpty := by rwa [String.isEmpty_iff]
      rw [if_neg hnamed]
      simp only [hwhole, hempty, Except.ok.injEq, eq_comm, forall_const, not_true_eq_false,
        ne_eq, not_false_eq_true, true_and, false_implies, and_true]
  · rw [if_neg (mt isWhole_iff.1 hwhole)]
    simp only [hwhole, false_implies, true_and, not_false_eq_true, forall_const]

/-- The declared field of a draft, whatever is declared beside it. -/
def Declares (constants : Constants) (draft : FieldDraft) (declared : DeclaredField) : Prop :=
  draft.fieldName constants = .ok declared.field ∧
    declared.kind = .forOperator declared.field.operator draft.kind

variable {constants : Constants}

theorem declare_eq_ok_iff {draft : FieldDraft} {seen : List String}
    {declared : DeclaredField} :
    draft.declare constants seen = .ok declared ↔
      draft.name ≠ constants.orderingField ∧ draft.name ∉ seen ∧
        draft.Declares constants declared := by
  obtain ⟨field, kind⟩ := declared
  unfold declare Declares
  by_cases hreserved : draft.name = constants.orderingField
  · simp [hreserved, throw, throwThe, MonadExceptOf.throw, bind, Except.bind]
  by_cases hseen : draft.name ∈ seen
  · simp [hreserved, hseen, throw, throwThe, MonadExceptOf.throw, bind, Except.bind]
  · simp only [hreserved, hseen, if_false, Outcome.bind_eq_ok]
    simp only [pure, Except.pure, Except.ok.injEq, DeclaredField.mk.injEq]
    constructor
    · rintro ⟨name, hname, rfl, rfl⟩
      exact ⟨hreserved, not_false, hname, rfl⟩
    · rintro ⟨_, _, hname, rfl⟩
      exact ⟨field, hname, rfl, rfl⟩

theorem declareAll_eq_ok_iff {drafts : List FieldDraft} {seen : List String}
    {fields : List DeclaredField} :
    declareAll constants seen drafts = .ok fields ↔
      List.Forall₂ (Declares constants) drafts fields ∧ (drafts.map (·.name)).Nodup ∧
        ∀ draft ∈ drafts, draft.name ≠ constants.orderingField ∧ draft.name ∉ seen := by
  induction drafts generalizing seen fields with
  | nil => simp [declareAll, pure, Except.pure, eq_comm]
  | cons draft rest ih =>
      simp only [declareAll, Outcome.bind_eq_ok, declare_eq_ok_iff, ih]
      constructor
      · rintro ⟨declared, ⟨hreserved, hseen, hdeclares⟩, more, ⟨hrest, hnodup, hnames⟩, heq⟩
        cases heq
        have hfresh : draft.name ∉ rest.map (·.name) := by
          intro hmem
          obtain ⟨other, hother, hname⟩ := List.mem_map.1 hmem
          exact (hnames other hother).2 (by simp [hname])
        refine ⟨.cons hdeclares hrest, List.nodup_cons.2 ⟨hfresh, hnodup⟩, ?_⟩
        intro other hother
        rcases List.mem_cons.1 hother with rfl | hother
        · exact ⟨hreserved, hseen⟩
        · exact ⟨(hnames other hother).1, fun h => (hnames other hother).2 (.tail _ h)⟩
      · rintro ⟨hall, hnodup, hnames⟩
        obtain ⟨declared, more, hdeclares, hrest, rfl⟩ := List.forall₂_cons_left_iff.1 hall
        obtain ⟨hfresh, hnodup⟩ := List.nodup_cons.1 hnodup
        refine ⟨declared, ⟨(hnames draft (.head _)).1, (hnames draft (.head _)).2, hdeclares⟩,
          more, ⟨hrest, hnodup, ?_⟩, rfl⟩
        intro other hother
        refine ⟨(hnames other (.tail _ hother)).1, ?_⟩
        intro hseen
        rcases List.mem_cons.1 hseen with hname | hseen
        · exact hfresh (List.mem_map.2 ⟨other, hother, hname⟩)
        · exact (hnames other (.tail _ hother)).2 hseen

end FieldDraft

namespace Draft

inductive AddsSearch (draft : Draft) : List DeclaredField → Prop
  | undeclared {name : String} (hsearch : draft.constants.searchField = some name)
      (hnew : name ∉ draft.fields.map (·.name)) :
      AddsSearch draft [⟨⟨name, name, none⟩, .string⟩]
  | nothing (hdeclared : ∀ name, draft.constants.searchField = some name →
      name ∈ draft.fields.map (·.name)) : AddsSearch draft []

variable {draft : Draft}

theorem searchField_of_declared (hdeclared : ∀ name, draft.constants.searchField = some name →
    name ∈ draft.fields.map (·.name)) : draft.searchField = .ok [] := by
  unfold searchField
  split
  · rfl
  · rename_i name hsearch
    obtain ⟨field, hfield, hname⟩ := List.mem_map.1 (hdeclared name hsearch)
    rw [if_pos (List.any_eq_true.2 ⟨field, hfield, by simpa using hname⟩)]
    rfl

theorem searchField_of_undeclared {name : String}
    (hsearch : draft.constants.searchField = some name)
    (hnew : name ∉ draft.fields.map (·.name)) :
    draft.searchField =
      if name = draft.constants.orderingField then .error (.reservedName name)
      else .ok [⟨⟨name, name, none⟩, .string⟩] := by
  have hany : ¬ draft.fields.any (·.name == name) := by
    rw [List.any_eq_true]
    rintro ⟨field, hfield, hname⟩
    exact hnew (List.mem_map.2 ⟨field, hfield, by simpa using hname⟩)
  unfold searchField
  rw [hsearch]
  exact if_neg hany

theorem search_cases (draft : Draft) :
    (∀ name, draft.constants.searchField = some name → name ∈ draft.fields.map (·.name)) ∨
      ∃ name, draft.constants.searchField = some name ∧ name ∉ draft.fields.map (·.name) := by
  by_cases h : ∃ name, draft.constants.searchField = some name ∧
      name ∉ draft.fields.map (·.name)
  · exact .inr h
  · exact .inl fun name hsearch => by_contra fun hnew => h ⟨name, hsearch, hnew⟩

theorem searchField_eq_ok_iff {search : List DeclaredField} :
    draft.searchField = .ok search ↔
      draft.AddsSearch search ∧
        ∀ name, draft.constants.searchField = some name →
          name ∉ draft.fields.map (·.name) → name ≠ draft.constants.orderingField := by
  rcases draft.search_cases with hdeclared | ⟨name, hsearch, hnew⟩
  · rw [searchField_of_declared hdeclared]
    constructor
    · rintro ⟨⟩
      exact ⟨.nothing hdeclared, fun name hsearch hnew => absurd (hdeclared name hsearch) hnew⟩
    · rintro ⟨⟨hsearch, hnew⟩ | _, _⟩
      · exact absurd (hdeclared _ hsearch) hnew
      · rfl
  · rw [searchField_of_undeclared hsearch hnew]
    constructor
    · intro hok
      split at hok
      · cases hok
      · rename_i hfree
        cases hok
        refine ⟨.undeclared hsearch hnew, ?_⟩
        intro other hother _
        cases hsearch.symm.trans hother
        exact hfree
    · rintro ⟨⟨hother, _⟩ | hdeclared, hfree⟩
      · cases hsearch.symm.trans hother
        exact if_neg (hfree name hsearch hnew)
      · exact absurd (hdeclared name hsearch) hnew

/-- A draft builds when its fields can be declared and its search field, if it was not
declared, may be added. -/
theorem build_eq_ok_iff {definition : Definition} :
    draft.build = .ok definition ↔
      ∃ fields search, FieldDraft.declareAll draft.constants [] draft.fields = .ok fields ∧
        draft.searchField = .ok search ∧
        definition = ⟨draft.name, fields ++ search,
          { draft.constants with searchPaths := draft.constants.searchPaths.eraseDups }⟩ := by
  unfold build
  simp only [Outcome.bind_eq_ok, pure, Except.pure, Except.ok.injEq]
  constructor
  · rintro ⟨fields, hfields, search, hsearch, rfl⟩
    exact ⟨fields, search, hfields, hsearch, rfl⟩
  · rintro ⟨fields, search, hfields, hsearch, rfl⟩
    exact ⟨fields, hfields, search, hsearch, rfl⟩

theorem name_of_build {definition : Definition} (hbuild : draft.build = .ok definition) :
    definition.name = draft.name := by
  obtain ⟨_, _, _, _, rfl⟩ := build_eq_ok_iff.1 hbuild
  rfl

end Draft

/-! ## What decides whether a draft builds -/

/-- Two drafts of a field with one name that are both nested or both not. -/
def FieldDraft.Alike (a b : FieldDraft) : Prop :=
  a.name = b.name ∧
    (a.kind.bind FieldKind.nested?).isSome = (b.kind.bind FieldKind.nested?).isSome

theorem FieldDraft.Alike.declares {a b : FieldDraft} (halike : a.Alike b)
    {constants : Constants} {declared : DeclaredField}
    (hdeclares : a.Declares constants declared) :
    b.Declares constants ⟨declared.field, .forOperator declared.field.operator b.kind⟩ := by
  have hwhole : b.isWhole constants = a.isWhole constants := by
    unfold FieldDraft.isWhole
    rw [halike.1, halike.2]
  refine ⟨?_, rfl⟩
  rw [FieldDraft.fieldName, hwhole, ← halike.1]
  exact hdeclares.1

theorem FieldDraft.declareAll_of_alike {constants : Constants} {as bs : List FieldDraft}
    (halike : List.Forall₂ FieldDraft.Alike as bs) {seen : List String}
    {fields : List DeclaredField}
    (hdeclare : FieldDraft.declareAll constants seen as = .ok fields) :
    ∃ others, FieldDraft.declareAll constants seen bs = .ok others := by
  induction halike generalizing seen fields with
  | nil => exact ⟨[], rfl⟩
  | @cons a b as bs hhead _ ih =>
      obtain ⟨declared, hdeclared, hmore⟩ := Outcome.bind_eq_ok.1 hdeclare
      obtain ⟨more, hmore, _⟩ := Outcome.bind_eq_ok.1 hmore
      obtain ⟨hreserved, hseen, hdeclares⟩ := FieldDraft.declare_eq_ok_iff.1 hdeclared
      obtain ⟨others, hothers⟩ := ih hmore
      let other : DeclaredField :=
        ⟨declared.field, .forOperator declared.field.operator b.kind⟩
      have hb : b.declare constants seen = .ok other := FieldDraft.declare_eq_ok_iff.2
        ⟨hhead.1 ▸ hreserved, hhead.1 ▸ hseen, hhead.declares hdeclares⟩
      rw [hhead.1] at hothers
      refine ⟨other :: others, ?_⟩
      rw [FieldDraft.declareAll, hb, hothers]
      rfl

theorem FieldDraft.any_name_of_alike {as bs : List FieldDraft}
    (halike : List.Forall₂ FieldDraft.Alike as bs) (name : String) :
    as.any (·.name == name) = bs.any (·.name == name) := by
  induction halike with
  | nil => rfl
  | cons hhead _ ih => simp [hhead.1, ih]

/-- Whether a draft builds depends on the names of its fields and on which of them are
nested, but not on the definitions behind them. -/
theorem Draft.build_of_alike {a b : Draft} (hconstants : a.constants = b.constants)
    (halike : List.Forall₂ FieldDraft.Alike a.fields b.fields) {definition : Definition}
    (hbuild : a.build = .ok definition) : ∃ other, b.build = .ok other := by
  obtain ⟨fields, search, hfields, hsearch, _⟩ := Draft.build_eq_ok_iff.1 hbuild
  obtain ⟨others, hothers⟩ := FieldDraft.declareAll_of_alike halike hfields
  have hsearch' : b.searchField = a.searchField := by
    unfold Draft.searchField
    simp only [hconstants, FieldDraft.any_name_of_alike halike]
  refine ⟨_, Draft.build_eq_ok_iff.2 ⟨others, search, ?_, hsearch'.trans hsearch, rfl⟩⟩
  rw [← hconstants]
  exact hothers

end FilterQuery
