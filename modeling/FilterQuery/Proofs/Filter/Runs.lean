import FilterQuery.Proofs.Filter.Calls
import FilterQuery.Proofs.Param.Meaning
/-!
# Filters made by calls

A filter is only ever made by calls on the blank filter of a definition.  What it holds can be
read off the calls that were granted, the last one on each field, and a nested field never holds
anything but filters of its own definition.
-/

namespace FilterQuery

/-- No field of a filter, or of a filter that it holds, holds what it may not. -/
inductive Filter.Sound : Filter → Prop
  | intro {filter : Filter}
      (holds : ∀ slot ∈ filter.slots, ∀ value, slot.value = some value →
        slot.declared.kind.MayHold value)
      (below : ∀ slot ∈ filter.slots, ∀ sub, slot.value = some (.sub sub) → Filter.Sound sub) :
      Filter.Sound filter

/-- A filter that was made by calls on a blank one, and of no other filters. -/
inductive Filter.Made : Filter → Prop
  | of_calls {definition : Definition} (hbuilt : definition.Built) {calls : List Call}
      (hsubs : ∀ call ∈ calls, ∀ sub, call.value? = some (.sub sub) → Filter.Made sub) :
      Filter.Made ((Filter.blank definition).afterAll calls)

namespace Filter

variable {filter : Filter} {call : Call} {name : String}

/-! ## What a filter may hold -/

theorem sound_blank (definition : Definition) : (blank definition).Sound := by
  refine .intro ?_ ?_
  · intro slot hmem value hvalue
    rw [value_of_mem_blank hmem] at hvalue
    cases hvalue
  · intro slot hmem sub hvalue
    rw [value_of_mem_blank hmem] at hvalue
    cases hvalue

theorem Sound.assign (hsound : filter.Sound) {value : Option Value}
    (hholds : ∀ slot, filter.slots.find? (·.name == name) = some slot →
      ∀ held, value = some held → slot.declared.kind.MayHold held)
    (hsub : ∀ sub, value = some (.sub sub) → sub.Sound) :
    ({ filter with slots := Slot.assign name value filter.slots } : Filter).Sound := by
  obtain ⟨holds, below⟩ := hsound
  refine .intro ?_ ?_
  · intro slot hmem held hheld
    rcases Slot.mem_assign hmem with hmem | ⟨old, hfind, rfl⟩
    · exact holds slot hmem held hheld
    · exact hholds old hfind held hheld
  · intro slot hmem sub hheld
    rcases Slot.mem_assign hmem with hmem | ⟨old, _, rfl⟩
    · exact below slot hmem sub hheld
    · exact hsub sub hheld

theorem Sound.after (hsound : filter.Sound)
    (hsub : ∀ sub, call.value? = some (.sub sub) → sub.Sound) : (filter.after call).Sound := by
  rw [after_eq]
  split
  · rename_i hgranted
    have hassign (field : String) (hfield : call.name? = some field) :
        ({ filter with slots := Slot.assign field call.value? filter.slots } : Filter).Sound := by
      refine hsound.assign ?_ hsub
      intro slot hslot held hheld
      obtain ⟨found, hfound, hholds⟩ := exists_slot_of_granted hgranted hfield
      rw [hslot] at hfound
      cases hfound
      exact hholds held hheld
    have hordered (entries : List String) : ({ filter with ordering := entries } : Filter).Sound := by
      obtain ⟨holds, below⟩ := hsound
      exact .intro holds below
    cases call with
    | set field value => exact hassign field rfl
    | unset field => exact hassign field rfl
    | withValue field value => exact hassign field rfl
    | order entries => exact hordered entries
    | withOrder entries => exact hordered entries
  · exact hsound

/-! ## Runs -/

theorem definition_afterAll (filter : Filter) (calls : List Call) :
    (filter.afterAll calls).definition = filter.definition := by
  induction calls generalizing filter with
  | nil => rfl
  | cons call rest ih => exact (ih (filter.after call)).trans (definition_after filter call)

theorem Sound.afterAll (hsound : filter.Sound) {calls : List Call}
    (hsubs : ∀ call ∈ calls, ∀ sub, call.value? = some (.sub sub) → sub.Sound) :
    (filter.afterAll calls).Sound := by
  induction calls generalizing filter with
  | nil => exact hsound
  | cons call rest ih =>
      exact ih (hsound.after (hsubs call (.head _))) fun later hmem => hsubs later (.tail _ hmem)

theorem Made.sound (hmade : filter.Made) : filter.Sound := by
  induction hmade with
  | of_calls _ _ ih => exact (sound_blank _).afterAll ih

/-- The last granted call on a field decides what it holds. -/
theorem get?_afterAll (filter : Filter) (calls : List Call) (name : String) :
    (filter.afterAll calls).get? name =
      match ((filter.granted calls).filter (·.name? == some name)).getLast? with
      | some call => call.value?
      | none => filter.get? name := by
  induction calls generalizing filter with
  | nil => rfl
  | cons call rest ih =>
      have hrest := ih (filter.after call)
      rw [get?_after] at hrest
      show ((filter.after call).afterAll rest).get? name = _
      rw [hrest, granted]
      by_cases hgranted : (filter.outcome call).isOk
      · by_cases hname : call.name? = some name
        · simp only [hgranted, hname, and_self, if_true, List.filter_cons, beq_self_eq_true,
            List.getLast?_cons]
          cases (((filter.after call).granted rest).filter (·.name? == some name)).getLast? <;> rfl
        · simp [hgranted, hname]
      · simp [hgranted]

/-- What a filter of a definition is after calls, and what the next call does to it. -/
structure Follows (definition : Definition) (calls : List Call) (filter : Filter) : Prop where
  definition_eq : filter.definition = definition
  /-- one slot for each field -/
  fields_eq : filter.slots.map Slot.declared = definition.fields
  sound : filter.Sound
  unknown : ∀ call owner field, filter.outcome call = .error (.unknownField owner field) ↔
    owner = definition.name ∧ call.name? = some field ∧ definition.field? field = none
  mismatch : ∀ call field expected,
    filter.outcome call = .error (.kindMismatch field expected) ↔
      ∃ declared value, call.name? = some field ∧ call.value? = some value ∧
        definition.field? field = some declared ∧ ¬ declared.kind.MayHold value ∧
        expected = declared.kind.describe
  refused : ∀ call error, filter.outcome call = .error error → filter.after call = filter
  /-- the last call on a field that was granted decides -/
  value_eq : ∀ name, filter.get? name =
    (((blank definition).granted calls).filter (·.name? == some name)).getLast?.bind Call.value?
  cleared : ∀ name, definition.field? name ≠ none →
    filter.outcome (.unset name) = .ok (filter.get? name)
  setFields_eq : filter.setFields = definition.fields.filterMap fun declared =>
    ((filter.get? declared.name).filter (!·.isNull)).map (declared, ·)
  values_kept : ∀ call, call.name? = none → (filter.after call).slots = filter.slots
  ordering_kept : ∀ call name, call.name? = some name →
    (filter.after call).ordering = filter.ordering

end Filter

namespace Definition

variable {definition : Definition}

/-- Whatever the calls on the blank filter of a definition, each slot holds what it may, and what
was set last and not cleared since. -/
theorem Built.follows_calls (hbuilt : definition.Built) {calls : List Call}
    (hsubs : ∀ call ∈ calls, ∀ sub, call.value? = some (.sub sub) → sub.Made) :
    ((Filter.blank definition).afterAll calls).Follows definition calls := by
  have hdefinition : ((Filter.blank definition).afterAll calls).definition = definition :=
    (Filter.definition_afterAll _ calls).trans (Filter.definition_blank definition)
  refine
    { definition_eq := hdefinition
      fields_eq := congrArg Definition.fields hdefinition
      sound := (Filter.Made.of_calls hbuilt hsubs).sound
      unknown := ?_
      mismatch := ?_
      refused := fun _ _ => Filter.after_of_refused
      value_eq := ?_
      cleared := ?_
      setFields_eq := hbuilt.regular.setFields_eq hdefinition
      values_kept := fun _ => Filter.slots_after
      ordering_kept := fun _ _ => Filter.ordering_after }
  · intro call owner field
    rw [Filter.outcome_eq_error_iff, hdefinition, refusal?_eq_unknown_iff]
  · intro call field expected
    rw [Filter.outcome_eq_error_iff, hdefinition, refusal?_eq_mismatch_iff]
  · intro name
    rw [Filter.get?_afterAll, Filter.get?_blank]
    cases (((Filter.blank definition).granted calls).filter (·.name? == some name)).getLast? <;> rfl
  · intro name hdeclared
    have hgranted : definition.refusal? (.unset name) = none := by
      obtain ⟨declared, hfield⟩ := Option.ne_none_iff_exists'.1 hdeclared
      simp [refusal?, Call.name?, Call.value?, hfield]
    rw [Filter.outcome, Filter.perform_eq, hdefinition, hgranted]
    rfl

/-! ## Calls on an article -/

namespace Sample

def writerCalls : List Call :=
  [.set "name" (.scalar (.string "ann")), .order ["name"]]

theorem writerFilter_made : writerFilter.Made := by
  have hcalls : (Filter.blank writer).afterAll writerCalls = writerFilter := by rfl
  rw [← hcalls]
  refine .of_calls writer_built ?_
  intro call hmem sub hvalue
  simp only [writerCalls, List.mem_cons, List.not_mem_nil, or_false] at hmem
  rcases hmem with rfl | rfl <;> cases hvalue

def articleCalls : List Call :=
  [.set "title" (.scalar (.string "one")), .set "writer" (.bool true), .set "tag" (.bool true),
    .set "tag__in" (.scalar .null), .withValue "writer" (.sub writerFilter),
    .withOrder ["title"], .unset "title"]

/-- Of the calls on an article only the one on its writer is seen in the end. -/
theorem article_follows :
    (Filter.blank article).outcome (.set "writer" (.bool true)) =
        .error (.kindMismatch "writer" "sub-filter 'Writer'") ∧
      (Filter.blank article).outcome (.set "tag" (.bool true)) =
        .error (.unknownField "Article" "tag") ∧
      ((Filter.blank article).afterAll articleCalls).Follows article articleCalls ∧
      ((Filter.blank article).afterAll articleCalls).setFields =
        [(⟨.plain "writer", .nested writer⟩, .sub writerFilter)] := by
  refine ⟨rfl, rfl, article_built.follows_calls ?_, rfl⟩
  intro call hmem sub hvalue
  simp only [articleCalls, List.mem_cons, List.not_mem_nil, or_false] at hmem
  rcases hmem with rfl | rfl | rfl | rfl | rfl | rfl | rfl <;> cases hvalue
  exact writerFilter_made

end Sample

end Definition

end FilterQuery
