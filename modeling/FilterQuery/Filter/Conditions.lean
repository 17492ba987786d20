import FilterQuery.Operator.Expression
/-!
# The conditions of a filter

A filter becomes a list of conditions, one for each set field in declaration
order.  A field with an operator asks for its expression, the search field for a
disjunction, any other field for equality.  A sub-filter asks first that the
linked document is there, then for its own conditions below the field; one that
is empty asks for nothing.  Sub-filters nest up to a limit, counted from one.
-/

namespace FilterQuery

inductive NestingError where
  /-- a sub-filter lies deeper than the limit -/
  | tooDeep (depth limit : Nat)
  /-- levels start at one -/
  | invalidDepth (depth : Nat)
deriving DecidableEq, Repr

def NestingError.message : NestingError → String
  | .tooDeep depth limit =>
      "Nesting depth " ++ depth.repr ++ " exceeds the maximum of " ++ limit.repr
  | .invalidDepth depth => "Invalid nesting depth: " ++ depth.repr

def defaultLimit : Nat := 16

def checkDepth (limit depth : Nat) : Except NestingError Unit :=
  if depth = 0 then .error (.invalidDepth depth)
  else if limit < depth then .error (.tooDeep depth limit)
  else .ok ()

/-- The condition of a field whose value is not a sub-filter, if it asks for
anything. -/
def DeclaredField.condition? (declared : DeclaredField) (constants : Constants)
    (value : Value) : Option Condition :=
  match declared.field.operator with
  | some operator =>
      (operator.expression? value).map fun expression =>
        { predicate := .field declared.field.path (.meets expression) }
  | none =>
      if constants.searches declared.name then
        some { predicate := .search constants.searchPaths value }
      else
        some { predicate := .field declared.name (.equals value.toJson) }

/-- The condition that the document linked under a field is there. -/
def Condition.guard (field : String) (depth : Nat) : Condition :=
  ⟨.field field (.meets (.compare .ne .null)), .linked depth⟩

def Condition.linkedAll (field : String) (depth : Nat) (inner : List Condition) :
    List Condition :=
  .guard field depth :: inner.map (.linkedUnder field depth)

mutual

def Value.conditions (limit depth : Nat) (constants : Constants)
    (declared : DeclaredField) : Value → Except NestingError (List Condition)
  | .sub filter =>
      if filter.isEmpty then .ok []
      else (filter.conditions limit (depth + 1)).map (Condition.linkedAll declared.name depth)
  | .scalar .null => .ok []
  | value => .ok (declared.condition? constants value).toList

def Slot.conditions (limit depth : Nat) (constants : Constants) :
    List Slot → Except NestingError (List Condition)
  | [] => .ok []
  | ⟨_, none⟩ :: rest => Slot.conditions limit depth constants rest
  | ⟨declared, some value⟩ :: rest => do
      let first ← value.conditions limit depth constants declared
      return first ++ (← Slot.conditions limit depth constants rest)

/-- The conditions of a filter at a level. -/
def Filter.conditions (limit depth : Nat) : Filter → Except NestingError (List Condition)
  | ⟨_, slots, constants, _⟩ => do
      checkDepth limit depth
      Slot.conditions limit depth constants slots

end

/-- The conditions of a sub-filter under a field of a filter at a level. -/
def Filter.linkedConditions (limit : Nat) (field : String) (depth : Nat)
    (filter : Filter) : Except NestingError (List Condition) :=
  if filter.isEmpty then .ok []
  else (filter.conditions limit (depth + 1)).map (Condition.linkedAll field depth)

theorem Value.conditions_sub (limit depth : Nat) (constants : Constants)
    (declared : DeclaredField) (filter : Filter) :
    (Value.sub filter).conditions limit depth constants declared =
      filter.linkedConditions limit declared.name depth := by
  rw [Value.conditions, Filter.linkedConditions]

end FilterQuery
