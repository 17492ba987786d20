import FilterQuery.FindQuery
import FilterQuery.Proofs.Conditions.Origin
import FilterQuery.Proofs.Lists
/-!
# What documents tell of predicates

Literals, operators, disjunctions and conjunctions all become objects.  Two keys are taken by the
forms themselves: an object under `$or` is a disjunction and one under `$and` a conjunction.  As
long as no path is one of them and no literal is an object, a predicate can be told from its
document, and the predicates of a query, one by one, from the document of its filter.

Values are equal or not in more than one sense, since the two zeros count as the same.  What a
document tells holds for every sense of equality that goes by the form of values, so it is said
for such a relation, and then of equality itself and of `Json.same`.
-/

namespace FilterQuery

/-! ## Relations that go by the form of values -/

namespace Json

def IsObject (value : Json) : Prop :=
  ∃ entries, value = .fields entries

/-- A relation on values that compares objects field by field, arrays item by item and texts as
they are, and relates an object to objects only. -/
structure Structural (R : Json → Json → Prop) : Prop where
  fields : ∀ {a b}, R (.fields a) (.fields b) →
    List.Forall₂ (fun first second => first.1 = second.1 ∧ R first.2 second.2) a b
  array : ∀ {a b}, R (.array a) (.array b) → List.Forall₂ R a b
  string : ∀ {a b}, R (.string a) (.string b) → a = b
  isObject_iff : ∀ {a b}, R a b → (a.IsObject ↔ b.IsObject)

theorem Structural.singleton {R : Json → Json → Prop} (hR : Structural R) {key other : String}
    {a b : Json} (h : R (.object [(key, a)]) (.object [(other, b)])) : key = other ∧ R a b := by
  cases hR.fields h with
  | cons hhead _ => exact hhead

theorem Structural.keys_eq {R : Json → Json → Prop} (hR : Structural R)
    {a b : List (String × Json)} (h : R (.fields a) (.fields b)) :
    a.map Prod.fst = b.map Prod.fst := by
  rw [← List.forall₂_eq_eq_eq, List.forall₂_map_left_iff, List.forall₂_map_right_iff]
  exact (hR.fields h).imp fun _ _ hentry => hentry.1

theorem structural_eq : Structural Eq where
  fields := by
    intro a b heq
    cases heq
    exact List.forall₂_same.2 fun _ _ => ⟨rfl, rfl⟩
  array := by
    intro a b heq
    cases heq
    exact List.forall₂_same.2 fun _ _ => rfl
  string := Json.string.inj
  isObject_iff := by
    rintro a _ rfl
    rfl

theorem forall₂_of_sameItems {a b : List Json} (hsame : sameItems a b) :
    List.Forall₂ (fun v w => v.same w) a b := by
  induction a generalizing b with
  | nil => cases b <;> simp_all [sameItems]
  | cons v rest ih =>
      cases b with
      | nil => simp [sameItems] at hsame
      | cons w others =>
          rw [sameItems, Bool.and_eq_true] at hsame
          exact .cons hsame.1 (ih hsame.2)

theorem forall₂_of_sameEntries {a b : List (String × Json)} (hsame : sameEntries a b) :
    List.Forall₂ (fun first second => first.1 = second.1 ∧ first.2.same second.2) a b := by
  induction a generalizing b with
  | nil => cases b <;> simp_all [sameEntries]
  | cons first rest ih =>
      obtain ⟨key, v⟩ := first
      cases b with
      | nil => simp [sameEntries] at hsame
      | cons second others =>
          obtain ⟨other, w⟩ := second
          rw [sameEntries, Bool.and_eq_true, Bool.and_eq_true, beq_iff_eq] at hsame
          exact .cons hsame.1 (ih hsame.2)

theorem structural_same : Structural (fun v w => v.same w) where
  fields := by
    intro a b hsame
    rw [same] at hsame
    exact forall₂_of_sameEntries hsame
  array := by
    intro a b hsame
    rw [same] at hsame
    exact forall₂_of_sameItems hsame
  string := by
    intro a b hsame
    rw [same, beq_iff_eq] at hsame
    exact hsame
  isObject_iff := by
    intro a b hsame
    unfold IsObject
    cases a <;> cases b <;> simp_all [same]

end Json

/-! ## Predicates that differ in values only -/

section Alike

variable (R : Json → Json → Prop)

inductive Expression.Alike : Expression → Expression → Prop
  | compare (comparison : Comparison) {a b : Json} (hoperand : R a b) :
      Alike (.compare comparison a) (.compare comparison b)
  | regex (pattern : String) (ignoreCase : Bool) :
      Alike (.regex pattern ignoreCase) (.regex pattern ignoreCase)

inductive Constraint.Alike : Constraint → Constraint → Prop
  | equals {a b : Json} (hvalue : R a b) : Alike (.equals a) (.equals b)
  | meets {e f : Expression} (hexpression : e.Alike R f) : Alike (.meets e) (.meets f)

/-- Predicates that are equal up to the relation on the values in them. -/
inductive Predicate.Alike : Predicate → Predicate → Prop
  | field (path : String) {c d : Constraint} (hconstraint : c.Alike R d) :
      Alike (.field path c) (.field path d)
  | any {a b : List Predicate} (hbranches : List.Forall₂ Predicate.Alike a b) :
      Alike (.any a) (.any b)

end Alike

theorem Predicate.induction {P : Predicate → Prop}
    (field : ∀ path constraint, P (.field path constraint))
    (any : ∀ branches, (∀ branch ∈ branches, P branch) → P (.any branches)) : ∀ p, P p
  | .field path constraint => field path constraint
  | .any branches => any branches fun branch _ => Predicate.induction field any branch
termination_by p => sizeOf p
decreasing_by
  have := List.sizeOf_lt_of_mem ‹branch ∈ branches›
  simp only [Predicate.any.sizeOf_spec]
  omega

theorem Constraint.eq_of_alike {c d : Constraint} (halike : c.Alike Eq d) : c = d := by
  cases halike with
  | equals hvalue => rw [hvalue]
  | meets hexpression =>
      cases hexpression with
      | compare comparison hoperand => rw [hoperand]
      | regex pattern ignoreCase => rfl

theorem Predicate.eq_of_alike {p q : Predicate} (halike : p.Alike Eq q) : p = q := by
  induction p using Predicate.induction generalizing q with
  | field path constraint =>
      cases halike with
      | field _ hconstraint => rw [Constraint.eq_of_alike hconstraint]
  | any branches ih =>
      cases halike with
      | any hbranches =>
          congr 1
          rw [← List.forall₂_eq_eq_eq]
          exact Lists.forall₂_imp_of_mem hbranches fun branch hmem _ _ => ih branch hmem

/-! ## Predicates told from documents -/

mutual

def Predicate.paths : Predicate → List String
  | .field path _ => [path]
  | .any branches => Predicate.branchPaths branches

def Predicate.branchPaths : List Predicate → List String
  | [] => []
  | branch :: rest => branch.paths ++ Predicate.branchPaths rest

end

theorem Predicate.branchPaths_eq_flatMap (branches : List Predicate) :
    branchPaths branches = branches.flatMap paths := by
  induction branches with
  | nil => rfl
  | cons branch rest ih => rw [branchPaths, ih, List.flatMap_cons]

/-- A predicate in which no path and no literal could be taken for a form of its own. -/
structure Predicate.Clear (p : Predicate) : Prop where
  path_ne : "$or" ∉ p.paths
  literal : ∀ value, .equals value ∈ p.constraints → ¬ value.IsObject

theorem Predicate.Clear.branch {branches : List Predicate} (hclear : (any branches).Clear)
    {branch : Predicate} (hmem : branch ∈ branches) : branch.Clear where
  path_ne := by
    intro hpath
    apply hclear.path_ne
    rw [paths, branchPaths_eq_flatMap]
    exact List.mem_flatMap.2 ⟨branch, hmem, hpath⟩
  literal := by
    intro value hvalue
    apply hclear.literal value
    rw [constraints, branchConstraints_eq_flatMap]
    exact List.mem_flatMap.2 ⟨branch, hmem, hvalue⟩

theorem Comparison.key_injective : Function.Injective Comparison.key := by
  intro c d heq
  cases c <;> cases d <;> first | rfl | simp [key] at heq

theorem Comparison.key_ne_regex (c : Comparison) : c.key ≠ "$regex" := by
  cases c <;> simp [key]

def Expression.entries : Expression → List (String × Json)
  | compare c operand => [(c.key, operand)]
  | regex pattern false => [("$regex", .string pattern)]
  | regex pattern true => [("$options", .string "i"), ("$regex", .string pattern)]

theorem Expression.document_eq (e : Expression) : e.document = .fields e.entries := by
  cases e with
  | compare comparison operand => rfl
  | regex pattern ignoreCase => cases ignoreCase <;> rfl

theorem Expression.isObject_document (e : Expression) : e.document.IsObject :=
  ⟨_, e.document_eq⟩

section Documents

variable {R : Json → Json → Prop} (hR : Json.Structural R)

include hR

theorem Expression.alike_of_document {e f : Expression} (h : R e.document f.document) :
    e.Alike R f := by
  rw [document_eq, document_eq] at h
  have hentries := hR.fields h
  -- No comparison is written under the key of patterns, and the option of a pattern makes its
  -- document longer.
  cases e with
  | compare c a =>
      cases f with
      | compare d b =>
          have hhead : c.key = d.key ∧ R a b := by simpa [entries] using hentries
          rw [Comparison.key_injective hhead.1]
          exact .compare d hhead.2
      | regex pattern ignoreCase =>
          cases ignoreCase with
          | false =>
              have hkey : c.key = "$regex" := by simp_all [entries]
              exact absurd hkey c.key_ne_regex
          | true => cases hentries.length_eq
  | regex pattern ignoreCase =>
      cases f with
      | compare d b =>
          cases ignoreCase with
          | false =>
              have hkey : d.key = "$regex" := by simp_all [entries]
              exact absurd hkey d.key_ne_regex
          | true => cases hentries.length_eq
      | regex other otherCase =>
          have hcase : ignoreCase = otherCase := by
            have hlength := hentries.length_eq
            cases ignoreCase <;> cases otherCase <;> first | rfl | cases hlength
          subst hcase
          have hpattern : R (.string pattern) (.string other) := by
            cases ignoreCase <;> simp_all [entries]
          rw [hR.string hpattern]
          exact .regex other ignoreCase

/-- A literal that is no object is told from an expression, which is written as one. -/
theorem Constraint.alike_of_document {c d : Constraint}
    (hc : ∀ value, c = .equals value → ¬ value.IsObject)
    (hd : ∀ value, d = .equals value → ¬ value.IsObject) (h : R c.document d.document) :
    c.Alike R d := by
  have hobject := hR.isObject_iff h
  cases c with
  | equals a =>
      cases d with
      | equals b => exact .equals h
      | meets f => exact absurd (hobject.2 f.isObject_document) (hc a rfl)
  | meets e =>
      cases d with
      | equals b => exact absurd (hobject.1 e.isObject_document) (hd b rfl)
      | meets f => exact .meets (Expression.alike_of_document hR h)

theorem Predicate.alike_of_document {p q : Predicate} (hp : p.Clear) (hq : q.Clear)
    (h : R p.document q.document) : p.Alike R q := by
  induction p using Predicate.induction generalizing q with
  | field path c =>
      cases q with
      | field other d =>
          obtain ⟨hpath, hconstraint⟩ := hR.singleton h
          subst hpath
          refine .field path (Constraint.alike_of_document hR ?_ ?_ hconstraint)
          · rintro value rfl
            exact hp.literal value (.head _)
          · rintro value rfl
            exact hq.literal value (.head _)
      | any branches =>
          have hpath : path = "$or" := (hR.singleton h).1
          exact absurd (List.mem_singleton.2 hpath.symm) hp.path_ne
  | any branches ih =>
      cases q with
      | field other d =>
          have hpath : "$or" = other := (hR.singleton h).1
          exact absurd (List.mem_singleton.2 hpath) hq.path_ne
      | any others =>
          have hbranches := hR.array (hR.singleton h).2
          rw [branchDocuments_eq_map, branchDocuments_eq_map, List.forall₂_map_left_iff,
            List.forall₂_map_right_iff] at hbranches
          refine .any (Lists.forall₂_imp_of_mem hbranches ?_)
          intro branch hbranch other hother hdocument
          exact ih branch hbranch (hp.branch hbranch) (hq.branch hother) hdocument

end Documents

/-! ## Conditions told from the document of a filter -/

def Predicate.documentKey : Predicate → String
  | .field path _ => path
  | .any _ => "$or"

theorem Predicate.exists_document (p : Predicate) :
    ∃ value, p.document = .fields [(p.documentKey, value)] := by
  cases p with
  | field path constraint => exact ⟨constraint.document, rfl⟩
  | any branches => exact ⟨.array (branchDocuments branches), rfl⟩

theorem Predicate.documentKey_ne_and {p : Predicate} (hpath : "$and" ∉ p.paths) :
    p.documentKey ≠ "$and" := by
  cases p with
  | field path constraint =>
      rintro rfl
      exact hpath (.head _)
  | any branches => simp [documentKey]

namespace FindQuery

def conjunctionKeys : List Condition → List String
  | [] => []
  | [condition] => [condition.predicate.documentKey]
  | _ => ["$and"]

theorem exists_conjunction (conditions : List Condition) :
    ∃ entries, conjunction conditions = .fields entries ∧
      entries.map Prod.fst = conjunctionKeys conditions := by
  rcases conditions with _ | ⟨condition, _ | ⟨next, rest⟩⟩
  · exact ⟨[], rfl, rfl⟩
  · obtain ⟨value, hdocument⟩ := condition.predicate.exists_document
    exact ⟨_, hdocument, rfl⟩
  · exact ⟨_, rfl, rfl⟩

/-- A query that holds no predicate which could be taken for another form. -/
structure Clear (query : FindQuery) : Prop where
  predicate : ∀ condition ∈ query.conditions, condition.predicate.Clear
  path_ne : ∀ condition ∈ query.conditions, "$and" ∉ condition.predicate.paths

theorem alike_of_filterDocument {R : Json → Json → Prop} (hR : Json.Structural R)
    {query other : FindQuery} (hquery : query.Clear) (hother : other.Clear)
    (h : R query.filterDocument other.filterDocument) :
    List.Forall₂ (fun first second => first.predicate.Alike R second.predicate)
      query.conditions other.conditions := by
  obtain ⟨first, _, _, _⟩ := query
  obtain ⟨second, _, _, _⟩ := other
  have hclear : ∀ a ∈ first, ∀ b ∈ second, R a.predicate.document b.predicate.document →
      a.predicate.Alike R b.predicate := fun a ha b hb =>
    Predicate.alike_of_document hR (hquery.predicate a ha) (hother.predicate b hb)
  have hfirst : ∀ a ∈ first, a.predicate.documentKey ≠ "$and" := fun a ha =>
    Predicate.documentKey_ne_and (hquery.path_ne a ha)
  have hsecond : ∀ b ∈ second, b.predicate.documentKey ≠ "$and" := fun b hb =>
    Predicate.documentKey_ne_and (hother.path_ne b hb)
  -- The keys tell whether there are no conditions, one, or more.
  have hkeys : conjunctionKeys first = conjunctionKeys second := by
    obtain ⟨entries, heq, hentries⟩ := exists_conjunction first
    obtain ⟨others, heq', hothers⟩ := exists_conjunction second
    rw [filterDocument, filterDocument, heq, heq'] at h
    rw [← hentries, ← hothers]
    exact hR.keys_eq h
  rw [filterDocument, filterDocument] at h
  dsimp only at h ⊢
  rcases first with _ | ⟨a, _ | ⟨a', rest⟩⟩ <;> rcases second with _ | ⟨b, _ | ⟨b', others⟩⟩
  case nil.nil => exact .nil
  case cons.nil.cons.nil => exact .cons (hclear a (.head _) b (.head _) h) .nil
  case cons.cons.cons.cons =>
      have hall := hR.array (hR.singleton h).2
      rw [List.forall₂_map_left_iff, List.forall₂_map_right_iff] at hall
      exact Lists.forall₂_imp_of_mem hall hclear
  all_goals simp_all [conjunctionKeys]

/-- Predicates with one document are one predicate, and filters with one document are made of the
same predicates, as many and in the same order.  Where the documents agree up to the values that
count as the same, so do the predicates. -/
theorem told_by_document :
    (∀ p q : Predicate, p.Clear → q.Clear →
      (p.document = q.document → p = q) ∧
      (p.document.same q.document → p.Alike (fun v w => v.same w) q)) ∧
    ∀ query other : FindQuery, query.Clear → other.Clear →
      (query.filterDocument = other.filterDocument →
        query.conditions.map (·.predicate) = other.conditions.map (·.predicate)) ∧
      (query.filterDocument.same other.filterDocument →
        List.Forall₂ (fun first second => first.predicate.Alike (fun v w => v.same w)
          second.predicate) query.conditions other.conditions) := by
  constructor
  · intro p q hp hq
    constructor
    · intro h
      exact Predicate.eq_of_alike (Predicate.alike_of_document Json.structural_eq hp hq h)
    · intro h
      exact Predicate.alike_of_document Json.structural_same hp hq h
  · intro query other hquery hother
    constructor
    · intro h
      have halike := alike_of_filterDocument Json.structural_eq hquery hother h
      rw [← List.forall₂_eq_eq_eq, List.forall₂_map_left_iff, List.forall₂_map_right_iff]
      exact halike.imp fun _ _ => Predicate.eq_of_alike
    · intro h
      exact alike_of_filterDocument Json.structural_same hquery hother h

/-- A path that is the key of disjunctions could be taken for one. -/
example : (Predicate.field "$or" (.equals (.array []))).document = (Predicate.any []).document :=
  rfl

end FindQuery

namespace Sample

def unrated (zero : Float) : Predicate :=
  .any [.field "tags" (.meets (.compare .among (.object [("$or", .array [])]))),
    .any [.field "rating" (.equals (.float zero))]]

def unratedPosts (zero : Float) : FindQuery :=
  { conditions := [⟨unrated zero, {}⟩, ⟨.field "title" (.meets (.regex ".*lean.*" true)), {}⟩] }

theorem unrated_clear (zero : Float) : (unrated zero).Clear where
  path_ne := by simp [unrated, Predicate.paths, Predicate.branchPaths]
  literal := by simp [unrated, Predicate.constraints, Predicate.branchConstraints, Json.IsObject]

theorem unratedPosts_clear (zero : Float) : (unratedPosts zero).Clear where
  predicate := by
    intro condition hmem
    rcases List.mem_pair.1 hmem with rfl | rfl
    · exact unrated_clear zero
    · exact ⟨by decide, by simp [Predicate.constraints]⟩
  path_ne := by
    intro condition hmem
    rcases List.mem_pair.1 hmem with rfl | rfl
    · simp [unrated, Predicate.paths, Predicate.branchPaths]
    · decide

/-- The two zeros make documents that count as the same, of predicates that do so too. -/
theorem unrated_told :
    (unrated 0.0).document.same (unrated (-0.0)).document ∧
      (unrated 0.0).Alike (fun v w => v.same w) (unrated (-0.0)) ∧
      (unratedPosts 0.0).filterDocument.same (unratedPosts (-0.0)).filterDocument ∧
      List.Forall₂ (fun first second => first.predicate.Alike (fun v w => v.same w)
        second.predicate) (unratedPosts 0.0).conditions (unratedPosts (-0.0)).conditions := by
  have hdocument : (unrated 0.0).document.same (unrated (-0.0)).document := by decide
  have hfilter : (unratedPosts 0.0).filterDocument.same (unratedPosts (-0.0)).filterDocument := by
    decide
  obtain ⟨hpredicates, hqueries⟩ := FindQuery.told_by_document
  refine ⟨hdocument, ?_, hfilter, ?_⟩
  · exact (hpredicates _ _ (unrated_clear 0.0) (unrated_clear (-0.0))).2 hdocument
  · exact (hqueries _ _ (unratedPosts_clear 0.0) (unratedPosts_clear (-0.0))).2 hfilter

end Sample

end FilterQuery
