import FilterQuery.Proofs.Conditions.Walk
import Mathlib.Data.List.Forall2
/-!
# The shape of conditions

The shape of a condition is what is left of it without the values in it: the literal of an
equality, the operand of a comparison, the text of a pattern.  Paths, operators, hints and the
branches of a disjunction stay.  Filters of one definition that have values in the same places
have conditions of the same shapes, or none for the same reason, as long as their values for
fields that ask for null are true in the same places.
-/

namespace FilterQuery

/-! ## Taking the values out -/

/-- The expression with its operand, or the text of its pattern, taken out. -/
def Expression.shape : Expression → Expression
  | .compare comparison _ => .compare comparison .null
  | .regex _ ignoreCase => .regex "" ignoreCase

def Constraint.shape : Constraint → Constraint
  | .equals _ => .equals .null
  | .meets expression => .meets expression.shape

mutual

def Predicate.shape : Predicate → Predicate
  | .field path constraint => .field path constraint.shape
  | .any branches => .any (Predicate.branchShapes branches)

def Predicate.branchShapes : List Predicate → List Predicate
  | [] => []
  | branch :: rest => branch.shape :: Predicate.branchShapes rest

end

def Condition.shape (condition : Condition) : Condition :=
  { condition with predicate := condition.predicate.shape }

@[simp] theorem Predicate.branchShapes_eq_map (branches : List Predicate) :
    branchShapes branches = branches.map shape := by
  induction branches with
  | nil => rfl
  | cons branch rest ih => rw [branchShapes, ih, List.map_cons]

@[simp] theorem Predicate.path?_shape (predicate : Predicate) :
    predicate.shape.path? = predicate.path? := by
  cases predicate <;> simp [shape, path?]

@[simp] theorem Expression.key_shape (expression : Expression) :
    expression.shape.key = expression.key := by
  cases expression <;> rfl

@[simp] theorem Predicate.key?_shape (predicate : Predicate) :
    predicate.shape.key? = predicate.key? := by
  cases predicate with
  | any branches => simp [shape, key?]
  | field path constraint => cases constraint <;> simp [shape, Constraint.shape, key?]

theorem Condition.agree_of_shape {first second : Condition}
    (hshape : first.shape = second.shape) :
    first.hints = second.hints ∧ first.predicate.path? = second.predicate.path? ∧
      first.predicate.key? = second.predicate.key? := by
  obtain ⟨hpredicate, hhints⟩ := Condition.mk.inj hshape
  refine ⟨hhints, ?_, ?_⟩
  · rw [← Predicate.path?_shape, hpredicate, Predicate.path?_shape]
  · rw [← Predicate.key?_shape, hpredicate, Predicate.key?_shape]

/-! ## One field with two values -/

section Field

variable {first second : Value}

theorem Operator.shape_expression? {operator : Operator}
    (htruth : operator = .isNull → first.isTruthy = second.isTruthy) :
    (operator.expression? first).map Expression.shape =
      (operator.expression? second).map Expression.shape := by
  cases operator with
  | isNull => rw [expression?, expression?, htruth rfl]
  | _ => rfl

theorem DeclaredField.shape_conditionBelow? (start : Nat) (chain : List String)
    (declared : DeclaredField) (constants : Constants)
    (htruth : declared.field.operator = some .isNull → first.isTruthy = second.isTruthy) :
    (declared.conditionBelow? start chain constants first).map Condition.shape =
      (declared.conditionBelow? start chain constants second).map Condition.shape := by
  unfold DeclaredField.conditionBelow?
  cases hoperator : declared.field.operator with
  | some operator =>
      have hshape : (operator.expression? first).map Expression.shape =
          (operator.expression? second).map Expression.shape := by
        refine Operator.shape_expression? ?_
        rintro rfl
        exact htruth hoperator
      have hfield : ∀ value : Value,
          ((operator.expression? value).map fun expression =>
            (⟨.field (pathBelow chain declared.field.path) (.meets expression),
              .below start chain⟩ : Condition)).map Condition.shape =
          ((operator.expression? value).map Expression.shape).map fun expression =>
            ⟨.field (pathBelow chain declared.field.path) (.meets expression),
              .below start chain⟩ := by
        intro value
        rw [Option.map_map, Option.map_map]
        rfl
      exact (hfield first).trans (hshape ▸ (hfield second).symm)
  | none =>
      by_cases hsearches : constants.searches declared.name
      · simp [hsearches, Condition.shape, Predicate.shape, Constraint.shape, Expression.shape,
          Expression.contains]
      · simp [hsearches, Condition.shape, Predicate.shape, Constraint.shape]

end Field

/-! ## Filters with values in the same places -/

/-- Filters that cannot be told apart without looking at the values in their conditions. -/
structure Filter.SameShape (a b : Filter) : Prop where
  isEmpty_eq : a.isEmpty = b.isEmpty
  height_eq : a.height = b.height
  walk_eq : ∀ start chain,
    (a.walk start chain).map Condition.shape = (b.walk start chain).map Condition.shape

inductive Slot.SameShape : Slot → Slot → Prop
  | unset (declared : DeclaredField) : SameShape ⟨declared, none⟩ ⟨declared, none⟩
  | leaf {declared : DeclaredField} {first second : Value} (hfirst : first.isLeaf)
      (hsecond : second.isLeaf)
      (htruth : declared.field.operator = some .isNull → first.isTruthy = second.isTruthy) :
      SameShape ⟨declared, some first⟩ ⟨declared, some second⟩
  | sub (declared : DeclaredField) {first second : Filter} (hsub : first.SameShape second) :
      SameShape ⟨declared, some (.sub first)⟩ ⟨declared, some (.sub second)⟩

namespace Slot

variable {a b : List Slot} (hslots : List.Forall₂ Slot.SameShape a b)

include hslots

theorem allVoid_eq_of_sameShape : Slot.allVoid a = Slot.allVoid b := by
  induction hslots with
  | nil => rfl
  | cons hhead _ ih =>
      cases hhead with
      | unset => rw [allVoid, allVoid, ih]
      | leaf hfirst hsecond =>
          rw [allVoid, allVoid, Value.isVoid_of_isLeaf hfirst, Value.isVoid_of_isLeaf hsecond, ih]
      | sub _ hsub => rw [allVoid, allVoid, Value.isVoid, Value.isVoid, hsub.isEmpty_eq, ih]

theorem height_eq_of_sameShape : Slot.height a = Slot.height b := by
  induction hslots with
  | nil => rfl
  | cons hhead _ ih =>
      cases hhead with
      | unset => rw [height_unset, height_unset, ih]
      | leaf hfirst hsecond => rw [height_leaf _ _ hfirst, height_leaf _ _ hsecond, ih]
      | sub _ hsub =>
          rw [height, height, Value.height, Value.height, hsub.isEmpty_eq, hsub.height_eq, ih]

theorem shape_walk_eq_of_sameShape (start : Nat) (chain : List String) (constants : Constants) :
    (Slot.walk start chain constants a).map Condition.shape =
      (Slot.walk start chain constants b).map Condition.shape := by
  induction hslots with
  | nil => rfl
  | cons hhead _ ih =>
      cases hhead with
      | unset => exact ih
      | @leaf declared _ _ hfirst hsecond htruth =>
          have hfield := declared.shape_conditionBelow? start chain constants htruth
          rw [walk_leaf _ _ _ _ _ hfirst, walk_leaf _ _ _ _ _ hsecond, List.map_append,
            List.map_append, ← Option.toList_map, ← Option.toList_map, hfield, ih]
      | @sub declared first second hsub =>
          have hbelow := hsub.walk_eq start (chain ++ [declared.name])
          by_cases hempty : second.isEmpty
          · rw [walk_sub_of_isEmpty _ _ _ _ _ (hsub.isEmpty_eq.trans hempty),
              walk_sub_of_isEmpty _ _ _ _ _ hempty, ih]
          · rw [Bool.not_eq_true] at hempty
            rw [walk_sub _ _ _ _ _ (hsub.isEmpty_eq.trans hempty), walk_sub _ _ _ _ _ hempty,
              List.map_append, List.map_append, List.map_cons, List.map_cons, hbelow, ih]

end Slot

namespace Filter

variable {a b : Filter}

theorem SameShape.of_slots (hconstants : a.constants = b.constants)
    (hslots : List.Forall₂ Slot.SameShape a.slots b.slots) : a.SameShape b := by
  cases a with
  | mk name slots constants ordering =>
      cases b with
      | mk name' slots' constants' ordering' =>
          cases hconstants
          exact ⟨Slot.allVoid_eq_of_sameShape hslots, Slot.height_eq_of_sameShape hslots,
            fun start chain => Slot.shape_walk_eq_of_sameShape hslots start chain constants⟩

/-- Filters of the same shape have conditions of the same shapes, or none for the same reason. -/
theorem SameShape.shape_conditions_eq (hshape : a.SameShape b) (limit depth : Nat) :
    (a.conditions limit depth).map (List.map Condition.shape) =
      (b.conditions limit depth).map (List.map Condition.shape) := by
  have hlists : ∀ filter : Filter, (filter.conditions limit depth).map (List.map Condition.shape) =
      if depth = 0 then .error (.invalidDepth 0)
      else if limit < depth then .error (.tooDeep depth limit)
      else if limit < depth + filter.height then .error (.tooDeep (limit + 1) limit)
      else .ok ((filter.walk depth []).map Condition.shape) := by
    intro filter
    rw [conditions_eq]
    split
    · rfl
    split
    · rfl
    split <;> rfl
  rw [hlists a, hlists b, hshape.height_eq, hshape.walk_eq]

end Filter

end FilterQuery
