import FilterQuery.Proofs.Predicate.Documents
/-!
# Predicates below a parent field

Moving a predicate below a parent field changes its paths and nothing else.  The document of the
moved predicate can be had from the document itself: every key is moved but that of a disjunction,
whose alternatives are moved where they stand.  What is written behind a key that was moved is not
looked at, even if it reads like a document of a predicate.
-/

namespace FilterQuery

/-! ## Documents below a parent field -/

namespace Json

mutual

/-- A document with its keys moved below a parent field. -/
def under (parent : String) : Json → Json
  | .fields entries => .object (entriesUnder parent entries)
  | value => value

def entriesUnder (parent : String) : List (String × Json) → List (String × Json)
  | [] => []
  | (key, value) :: rest =>
      (if key = "$or" then (key, alternativesUnder parent value)
        else (parent ++ "." ++ key, value)) :: entriesUnder parent rest

def alternativesUnder (parent : String) : Json → Json
  | .array items => .array (itemsUnder parent items)
  | value => value

def itemsUnder (parent : String) : List Json → List Json
  | [] => []
  | item :: rest => under parent item :: itemsUnder parent rest

end

variable (parent : String)

theorem itemsUnder_eq_map (items : List Json) :
    itemsUnder parent items = items.map (under parent) := by
  induction items with
  | nil => rw [itemsUnder, List.map_nil]
  | cons item rest ih => rw [itemsUnder, ih, List.map_cons]

theorem under_field {key : String} (hkey : key ≠ "$or") (value : Json) :
    under parent (.object [(key, value)]) = .object [(parent ++ "." ++ key, value)] := by
  show under parent (.fields [(key, value)]) = _
  rw [under, entriesUnder, entriesUnder, if_neg hkey]

theorem under_disjunction (items : List Json) :
    under parent (.object [("$or", .array items)]) =
      .object [("$or", .array (items.map (under parent)))] := by
  show under parent (.fields [("$or", .array items)]) = _
  rw [under, entriesUnder, entriesUnder, if_pos rfl, alternativesUnder, itemsUnder_eq_map]

end Json

namespace Predicate

/-! ## Predicates that differ in their paths only -/

/-- The predicate with the same branches in the same order, nested alike and under the same
constraints, and with other names for its paths. -/
inductive Renamed (rename : String → String) : Predicate → Predicate → Prop
  | field (path : String) (constraint : Constraint) :
      Renamed rename (.field path constraint) (.field (rename path) constraint)
  | any {branches others : List Predicate}
      (hbranches : List.Forall₂ (Renamed rename) branches others) :
      Renamed rename (.any branches) (.any others)

theorem renamed_iff {parent : String} {p q : Predicate} :
    p.Renamed (parent ++ "." ++ ·) q ↔ q = p.under parent := by
  induction p using Predicate.induction generalizing q with
  | field path constraint =>
      constructor
      · rintro ⟨⟩
        rfl
      · rintro rfl
        exact .field path constraint
  | any branches ih =>
      rw [under, branchesUnder_eq_map]
      constructor
      · rintro (_ | hbranches)
        congr 1
        rw [← List.forall₂_eq_eq_eq, List.forall₂_map_right_iff]
        have heach := Lists.forall₂_imp_of_mem hbranches fun branch hmem _ _ => (ih branch hmem).1
        exact heach.flip
      · rintro rfl
        refine .any (List.forall₂_map_right_iff.2 (List.forall₂_same.2 ?_))
        intro branch hmem
        exact (ih branch hmem).2 rfl

/-! ## Moving twice, and moving a document -/

theorem under_under (p : Predicate) (a b : String) :
    (p.under a).under b = p.under (b ++ "." ++ a) := by
  induction p using Predicate.induction with
  | field path constraint => simp [under, String.append_assoc]
  | any branches ih =>
      simp only [under, branchesUnder_eq_map, List.map_map]
      congr 1
      exact List.map_congr_left ih

theorem document_under {p : Predicate} (hpath : "$or" ∉ p.paths) (parent : String) :
    (p.under parent).document = p.document.under parent := by
  induction p using Predicate.induction with
  | field path constraint =>
      have hne : path ≠ "$or" := fun heq => hpath (List.mem_singleton.2 heq.symm)
      rw [under, document, document, Json.under_field parent hne]
  | any branches ih =>
      rw [paths, branchPaths_eq_flatMap] at hpath
      rw [under, document, document, Json.under_disjunction, branchesUnder_eq_map,
        branchDocuments_eq_map, branchDocuments_eq_map, List.map_map, List.map_map]
      have hbranches : branches.map (document ∘ under parent) =
          branches.map (Json.under parent ∘ document) := by
        apply List.map_congr_left
        intro branch hmem
        exact ih branch hmem fun hbranch => hpath (List.mem_flatMap.2 ⟨branch, hmem, hbranch⟩)
      rw [hbranches]

/-- Moving a predicate below one field and then below another moves it below their path.  It gives
the predicate that differs in its paths only, each with the parent in front.  Where no path is the
key of disjunctions, it can as well be done on the document. -/
theorem under_exact (p : Predicate) (a b : String) :
    (p.under a).under b = p.under (b ++ "." ++ a) ∧
    (∀ q, p.Renamed (a ++ "." ++ ·) q ↔ q = p.under a) ∧
    ("$or" ∉ p.paths → (p.under a).document = p.document.under a) :=
  ⟨under_under p a b, fun _ => renamed_iff, fun hpath => document_under hpath a⟩

end Predicate

namespace Sample

/-- The operand under `tags` stays as it is, though it reads like a disjunction. -/
theorem unrated_moved :
    "$or" ∉ (unrated 0.0).paths ∧
      ((unrated 0.0).under "posts").under "user" = (unrated 0.0).under "user.posts" ∧
      ((unrated 0.0).under "posts").document =
        .object [("$or", .array [
          .object [("posts.tags", .object [("$in", .object [("$or", .array [])])])],
          .object [("$or", .array [.object [("posts.rating", .float 0.0)]])]])] := by
  have hpath : "$or" ∉ (unrated 0.0).paths := by
    simp [unrated, Predicate.paths, Predicate.branchPaths]
  obtain ⟨htwice, _, hdocument⟩ := (unrated 0.0).under_exact "posts" "user"
  refine ⟨hpath, htwice, (hdocument hpath).trans ?_⟩
  rfl

end Sample

end FilterQuery
