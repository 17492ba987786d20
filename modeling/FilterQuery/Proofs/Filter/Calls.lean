import FilterQuery.Filter.InPlace
import FilterQuery.Proofs.Filter.Assignment
/-!
# Calls on a filter

Values are set and cleared and orderings replaced, in place or on copies.  Whether a call is
granted is told by the definition of the filter and by what the call says, never by what the
filter holds, and a call that is refused changes nothing.
-/

namespace FilterQuery

/-! ## Calls -/

/-- A call on a filter: in place, or on a copy that is kept in its stead. -/
inductive Call where
  | set (name : String) (value : Value)
  | unset (name : String)
  | order (entries : List String)
  /-- sets a value on a copy -/
  | withValue (name : String) (value : Value)
  /-- replaces the ordering of a copy -/
  | withOrder (entries : List String)

namespace Call

def name? : Call → Option String
  | set name _ | unset name | withValue name _ => some name
  | order _ | withOrder _ => none

def value? : Call → Option Value
  | set _ value | withValue _ value => some value
  | unset _ | order _ | withOrder _ => none

end Call

namespace Filter

/-- What a call gives, and the filter after it.  A copy that is refused is not kept. -/
def perform (filter : Filter) : Call → Except FilterError (Option Value) × Filter
  | .set name value => filter.call do
      InPlace.set name value
      return none
  | .unset name => filter.call (InPlace.unset name)
  | .order entries => filter.call do
      InPlace.order entries
      return none
  | .withValue name value =>
      match filter.set name value with
      | .ok later => (.ok none, later)
      | .error error => (.error error, filter)
  | .withOrder entries => (.ok none, { filter with ordering := entries })

def outcome (filter : Filter) (call : Call) : Except FilterError (Option Value) :=
  (filter.perform call).1

def after (filter : Filter) (call : Call) : Filter :=
  (filter.perform call).2

def afterAll (filter : Filter) (calls : List Call) : Filter :=
  calls.foldl after filter

def granted (filter : Filter) : List Call → List Call
  | [] => []
  | call :: rest =>
      if (filter.outcome call).isOk then call :: (filter.after call).granted rest
      else (filter.after call).granted rest

end Filter

/-- Whether a field of a kind may hold a value: a nested field the filters of its definition, any
other field everything but a filter. -/
def FieldKind.MayHold (kind : FieldKind) (value : Value) : Prop :=
  value.sub?.map Filter.definition = kind.nested?

instance (kind : FieldKind) (value : Value) : Decidable (kind.MayHold value) :=
  inferInstanceAs (Decidable (_ = _))

/-! ## One call -/

namespace Filter

section InPlace

variable (filter : Filter) (name : String)

theorem call_bind {α β : Type} (action : InPlace α) (next : α → InPlace β) :
    filter.call (action >>= next) =
      match filter.call action with
      | (.ok a, later) => later.call (next a)
      | (.error error, later) => (.error error, later) := by
  rw [Filter.call, Outcome.run_bind, ← Filter.call]
  rcases filter.call action with ⟨_ | _, _⟩ <;> rfl

theorem call_slot : filter.call (InPlace.slot name) = (filter.slot? name, filter) := by
  have hlift : filter.call (ofExcept (filter.slot? name)) = (filter.slot? name, filter) := by
    cases filter.slot? name <;> rfl
  unfold InPlace.slot
  rw [call_bind]
  exact hlift

theorem call_set (value : Value) :
    filter.call (InPlace.set name value) =
      match filter.set name value with
      | .ok later => (.ok (), later)
      | .error error => (.error error, filter) := by
  unfold InPlace.set Filter.set
  rw [call_bind, call_slot]
  cases filter.slot? name with
  | error error => rfl
  | ok slot =>
      simp only [bind, Except.bind]
      split <;> rfl

theorem call_unset :
    filter.call (InPlace.unset name) =
      match filter.unset name with
      | .ok (later, value) => (.ok value, later)
      | .error error => (.error error, filter) := by
  unfold InPlace.unset Filter.unset
  rw [call_bind, call_slot]
  cases filter.slot? name <;> rfl

end InPlace

end Filter

theorem FieldKind.accepts_iff {kind : FieldKind} {value : Value} :
    kind.accepts value ↔ kind.MayHold value := by
  cases kind <;> cases value <;>
    simp [FieldKind.accepts, FieldKind.MayHold, Value.sub?, FieldKind.nested?]

namespace Filter

variable (filter : Filter) (name : String)

theorem slot?_eq :
    filter.slot? name =
      match filter.slots.find? (·.name == name) with
      | some slot => .ok slot
      | none => .error (.unknownField filter.name name) :=
  rfl

theorem set_eq (value : Value) :
    filter.set name value =
      match filter.definition.field? name with
      | none => .error (.unknownField filter.name name)
      | some declared =>
          if declared.kind.MayHold value then
            .ok { filter with slots := Slot.assign name (some value) filter.slots }
          else .error (.kindMismatch name declared.kind.describe) := by
  rw [field?_definition, set, slot?_eq]
  cases filter.slots.find? (·.name == name) with
  | none => rfl
  | some slot =>
      simp only [← FieldKind.accepts_iff]
      rfl

theorem unset_eq :
    filter.unset name =
      match filter.definition.field? name with
      | none => .error (.unknownField filter.name name)
      | some _ => .ok ({ filter with slots := Slot.assign name none filter.slots },
          filter.get? name) := by
  rw [field?_definition, unset, slot?_eq, get?]
  cases filter.slots.find? (·.name == name) <;> rfl

end Filter

/-- Why filters of a definition refuse a call. -/
def Definition.refusal? (definition : Definition) (call : Call) : Option FilterError :=
  call.name?.bind fun name =>
    match definition.field? name with
    | none => some (.unknownField definition.name name)
    | some declared => call.value?.bind fun value =>
        if declared.kind.MayHold value then none
        else some (.kindMismatch name declared.kind.describe)

namespace Call

def change (filter : Filter) : Call → Filter
  | set name value | withValue name value =>
      { filter with slots := Slot.assign name (some value) filter.slots }
  | unset name => { filter with slots := Slot.assign name none filter.slots }
  | order entries | withOrder entries => { filter with ordering := entries }

def reply (filter : Filter) : Call → Option Value
  | unset name => filter.get? name
  | _ => none

end Call

namespace Filter

variable {filter : Filter} {call : Call}

theorem perform_withValue (filter : Filter) (name : String) (value : Value) :
    filter.perform (.withValue name value) = filter.perform (.set name value) := by
  rw [perform, perform, call_bind, call_set]
  cases filter.set name value <;> rfl

theorem perform_set (filter : Filter) (name : String) (value : Value) :
    filter.perform (.set name value) =
      match filter.definition.refusal? (.set name value) with
      | none => (.ok none, (Call.set name value).change filter)
      | some error => (.error error, filter) := by
  rw [perform, call_bind, call_set, set_eq]
  simp only [Definition.refusal?, Call.name?, Call.value?, Option.bind_some]
  cases filter.definition.field? name with
  | none => rfl
  | some declared =>
      by_cases hholds : declared.kind.MayHold value
      · simp only [if_pos hholds]
        rfl
      · simp only [if_neg hholds]

/-- A call is granted or refused as a whole. -/
theorem perform_eq (filter : Filter) (call : Call) :
    filter.perform call =
      match filter.definition.refusal? call with
      | none => (.ok (call.reply filter), call.change filter)
      | some error => (.error error, filter) := by
  cases call with
  | set name value => exact perform_set filter name value
  | withValue name value => exact (perform_withValue filter name value).trans (perform_set ..)
  | unset name =>
      rw [perform, call_unset, unset_eq]
      simp only [Definition.refusal?, Call.name?, Call.value?, Option.bind_some, Option.bind_none]
      cases filter.definition.field? name <;> rfl
  | order entries => rfl
  | withOrder entries => rfl

theorem outcome_eq_error_iff {error : FilterError} :
    filter.outcome call = .error error ↔ filter.definition.refusal? call = some error := by
  rw [outcome, perform_eq]
  cases filter.definition.refusal? call <;> simp

theorem isOk_outcome_iff :
    (filter.outcome call).isOk ↔ filter.definition.refusal? call = none := by
  rw [outcome, perform_eq]
  cases filter.definition.refusal? call <;> simp [Except.isOk, Except.toBool]

theorem after_of_refused {error : FilterError} (hrefused : filter.outcome call = .error error) :
    filter.after call = filter := by
  rw [after, perform_eq, outcome_eq_error_iff.1 hrefused]

theorem after_eq (filter : Filter) (call : Call) :
    filter.after call =
      if filter.definition.refusal? call = none then call.change filter else filter := by
  rw [after, perform_eq]
  cases filter.definition.refusal? call <;> rfl

@[simp] theorem definition_change (filter : Filter) (call : Call) :
    (call.change filter).definition = filter.definition := by
  cases call <;> simp [Call.change, definition]

@[simp] theorem definition_after (filter : Filter) (call : Call) :
    (filter.after call).definition = filter.definition := by
  rw [after_eq]
  split
  · exact definition_change filter call
  · rfl

end Filter

/-! ## Which calls are refused -/

namespace Definition

variable {definition : Definition} {call : Call} {field : String}

theorem refusal?_eq_unknown_iff {owner : String} :
    definition.refusal? call = some (.unknownField owner field) ↔
      owner = definition.name ∧ call.name? = some field ∧ definition.field? field = none := by
  unfold refusal?
  cases call.name? with
  | none => simp
  | some name =>
      rw [Option.bind_some]
      cases hfield : definition.field? name with
      | none => grind
      | some declared => cases call.value? <;> grind

theorem refusal?_eq_mismatch_iff {expected : String} :
    definition.refusal? call = some (.kindMismatch field expected) ↔
      ∃ declared value, call.name? = some field ∧ call.value? = some value ∧
        definition.field? field = some declared ∧ ¬ declared.kind.MayHold value ∧
        expected = declared.kind.describe := by
  unfold refusal?
  cases call.name? with
  | none => simp
  | some name =>
      rw [Option.bind_some]
      cases hfield : definition.field? name with
      | none => grind
      | some declared => cases call.value? <;> grind

end Definition

/-! ## What a call changes -/

namespace Filter

variable {filter : Filter} {call : Call} {name : String}

theorem exists_slot_of_granted (hgranted : filter.definition.refusal? call = none)
    (hname : call.name? = some name) :
    ∃ slot, filter.slots.find? (·.name == name) = some slot ∧
      ∀ value, call.value? = some value → slot.declared.kind.MayHold value := by
  unfold Definition.refusal? at hgranted
  rw [hname, Option.bind_some, field?_definition] at hgranted
  cases hfind : filter.slots.find? (·.name == name) with
  | none =>
      rw [hfind] at hgranted
      cases hgranted
  | some slot =>
      rw [hfind] at hgranted
      refine ⟨slot, rfl, ?_⟩
      intro value hvalue
      rw [hvalue] at hgranted
      simpa using hgranted

/-- A call that is granted leaves the value it sets under its name, or none, and every other
value. -/
theorem get?_after (filter : Filter) (call : Call) (name : String) :
    (filter.after call).get? name =
      if (filter.outcome call).isOk ∧ call.name? = some name then call.value?
      else filter.get? name := by
  simp only [after_eq, isOk_outcome_iff]
  by_cases hgranted : filter.definition.refusal? call = none
  · have hassign (field : String) (value : Option Value) (hfield : call.name? = some field) :
        ({ filter with slots := Slot.assign field value filter.slots } : Filter).get? name =
          if some field = some name then value else filter.get? name := by
      obtain ⟨slot, hfind, _⟩ := exists_slot_of_granted hgranted hfield
      rw [get?_assign, hfind]
      grind
    rw [if_pos hgranted]
    simp only [hgranted, true_and]
    cases call with
    | set field value => exact hassign field (some value) rfl
    | unset field => exact hassign field none rfl
    | withValue field value => exact hassign field (some value) rfl
    | order entries => rfl
    | withOrder entries => rfl
  · simp [hgranted]

theorem slots_after (hname : call.name? = none) : (filter.after call).slots = filter.slots := by
  rw [after_eq]
  cases call with
  | order entries => split <;> rfl
  | withOrder entries => split <;> rfl
  | _ => cases hname

theorem ordering_after (hname : call.name? = some name) :
    (filter.after call).ordering = filter.ordering := by
  rw [after_eq]
  cases call with
  | order entries => cases hname
  | withOrder entries => cases hname
  | _ => split <;> rfl

end Filter

end FilterQuery
