import FilterQuery.Yaml.Value.Basic
/-!
# Places in a value

A place is the way to it from the root of a value: under keys, and to items of sequences.  What
stands at a place can be edited there, while tags and everything beside it stay as they are.
-/

namespace FilterQuery.Yaml.Value

def keys (value : Value) : List Value :=
  (value.entries?.getD []).map (·.1)

/-- A step into a value: to what is under a key, or to an item. -/
inductive Step where
  | key (key : String)
  | item (place : Nat)
deriving DecidableEq

def step? (value : Value) : Step → Option Value
  | .key key => value.get? key
  | .item place => value.items?.bind (·[place]?)

def at? (value : Value) : List Step → Option Value
  | [] => some value
  | step :: rest => (value.step? step).bind (·.at? rest)

/-! ## Editing -/

def editEntries (edit : List (Value × Value) → List (Value × Value)) : Value → Value
  | mapping entries => mapping (edit entries)
  | tagged tag value => tagged tag (value.editEntries edit)
  | value => value

def editItems (edit : List Value → List Value) : Value → Value
  | sequence items => sequence (edit items)
  | tagged tag value => tagged tag (value.editItems edit)
  | value => value

/-- A mapping without what is under a key. -/
def drop (key : String) (value : Value) : Value :=
  value.editEntries fun entries => entries.filter fun entry => !entry.1.isKey key

def editStep (edit : Value → Value) (value : Value) : Step → Value
  | .key key => value.editEntries fun entries => entries.map fun entry =>
      (entry.1, if entry.1.isKey key then edit entry.2 else entry.2)
  | .item place => value.editItems fun items => items.modify place edit

def editAt (edit : Value → Value) (value : Value) : List Step → Value
  | [] => edit value
  | step :: rest => value.editStep (fun inner => inner.editAt edit rest) step

section Views

variable (edit : List (Value × Value) → List (Value × Value))

theorem string?_editEntries : ∀ value : Value,
    (value.editEntries edit).string? = value.string?
  | tagged _ value => string?_editEntries value
  | mapping _ | sequence _ | null | bool _ | int _ | float _ | string _ => rfl

theorem items?_editEntries : ∀ value : Value, (value.editEntries edit).items? = value.items?
  | tagged _ value => items?_editEntries value
  | mapping _ | sequence _ | null | bool _ | int _ | float _ | string _ => rfl

theorem entries?_editEntries : ∀ value : Value,
    (value.editEntries edit).entries? = value.entries?.map edit
  | tagged _ value => entries?_editEntries value
  | mapping _ | sequence _ | null | bool _ | int _ | float _ | string _ => rfl

variable (edit : List Value → List Value)

theorem string?_editItems : ∀ value : Value, (value.editItems edit).string? = value.string?
  | tagged _ value => string?_editItems value
  | mapping _ | sequence _ | null | bool _ | int _ | float _ | string _ => rfl

theorem items?_editItems : ∀ value : Value,
    (value.editItems edit).items? = value.items?.map edit
  | tagged _ value => items?_editItems value
  | mapping _ | sequence _ | null | bool _ | int _ | float _ | string _ => rfl

theorem entries?_editItems : ∀ value : Value,
    (value.editItems edit).entries? = value.entries?
  | tagged _ value => entries?_editItems value
  | mapping _ | sequence _ | null | bool _ | int _ | float _ | string _ => rfl

end Views

theorem entries?_of_string? {value : Value} {text : String} (htext : value.string? = some text) :
    value.entries? = none := by
  unfold string? at htext
  unfold entries?
  split at htext
  · rename_i heq
    rw [heq]
  · cases htext

theorem isKey_iff {key : String} {value : Value} : value.isKey key = true ↔ value = .string key := by
  unfold isKey
  cases value <;> simp

theorem get?_eq (value : Value) (key : String) :
    value.get? key =
      value.entries?.bind fun entries => (entries.find? (·.1.isKey key)).map (·.2) := rfl

theorem get?_drop (key other : String) (value : Value) :
    (value.drop key).get? other = if other = key then none else value.get? other := by
  rw [get?_eq, get?_eq, drop, entries?_editEntries]
  cases value.entries? with
  | none => simp
  | some entries =>
      simp only [Option.map_some, Option.bind_some, List.find?_filter]
      split
      · rename_i heq
        subst heq
        rw [List.find?_eq_none.2 (by simp)]
        rfl
      · rename_i hne
        congr 2
        funext entry
        by_cases hkey : entry.1.isKey other
        · have hother : entry.1.isKey key = false := by
            rw [Bool.eq_false_iff, Ne, isKey_iff, isKey_iff.1 hkey, string.injEq]
            exact hne
          simp [hkey, hother]
        · simp [hkey]

theorem get?_editStep (edit : Value → Value) (key other : String) (value : Value) :
    (value.editStep edit (.key key)).get? other =
      if other = key then (value.get? other).map edit else value.get? other := by
  rw [get?_eq, get?_eq, editStep, entries?_editEntries]
  cases value.entries? with
  | none => simp
  | some entries =>
      simp only [Option.map_some, Option.bind_some, List.find?_map, Function.comp_def]
      cases hfind : entries.find? (·.1.isKey other) with
      | none => simp
      | some entry =>
          have hother : entry.1 = .string other :=
            isKey_iff.1 (by simpa using List.find?_some hfind)
          have hkey : entry.1.isKey key = true ↔ other = key := by
            rw [isKey_iff, hother, string.injEq]
          simp only [Option.map_some, hkey]
          split <;> rfl

/-! ## Looking up what was edited -/

theorem step?_editStep (edit : Value → Value) (value : Value) (step : Step) :
    (value.editStep edit step).step? step = (value.step? step).map edit := by
  cases step with
  | key key => rw [step?, step?, get?_editStep, if_pos rfl]
  | item place =>
      rw [step?, step?, editStep, items?_editItems]
      cases value.items? <;> simp

theorem at?_editAt (edit : Value → Value) (value : Value) (steps : List Step) :
    (value.editAt edit steps).at? steps = (value.at? steps).map edit := by
  induction steps generalizing value with
  | nil => rfl
  | cons step rest ih =>
      rw [editAt, at?, step?_editStep, at?, Option.bind_map, Option.map_bind]
      congr 1
      funext inner
      exact ih inner

theorem keys_drop (key : String) (value : Value) :
    (value.drop key).keys = value.keys.filter (!·.isKey key) := by
  rw [keys, drop, entries?_editEntries, keys]
  cases value.entries? with
  | none => rfl
  | some entries => simp [List.filter_map, Function.comp_def]

theorem keys_editStep (edit : Value → Value) (value : Value) (step : Step) :
    (value.editStep edit step).keys = value.keys := by
  cases step with
  | key key =>
      rw [keys, editStep, entries?_editEntries, keys]
      cases value.entries? <;> simp [Function.comp_def]
  | item place => rw [keys, editStep, entries?_editItems, keys]

end FilterQuery.Yaml.Value
