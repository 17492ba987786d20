import FilterQuery.Proofs.Conditions.Depth
import FilterQuery.Proofs.Engine.Query
import FilterQuery.Proofs.Param.Faults
import FilterQuery.Proofs.Registry.Registration
/-!
# Faults of queries

A query fails for what was asked of the engine: for a name that is not registered, for a parameter,
or for sub-filters that nest too deep.  The filter it binds never refuses a value, and every level
at which conditions are taken is one.
-/

namespace FilterQuery

/-! ## Levels -/

namespace Filter

variable {limit depth level : Nat} {filter : Filter}

theorem tooDeep_of_conditions {cause : NestingError} (hdepth : depth ≠ 0)
    (hcause : filter.conditions limit depth = .error cause) :
    cause = .tooDeep (max depth (limit + 1)) limit := by
  rw [error_of_conditions hcause, if_neg hdepth]
  split
  · rw [Nat.max_eq_left ‹limit < depth›]
  · rw [Nat.max_eq_right (by omega)]

theorem ne_invalidDepth (hdepth : depth ≠ 0) :
    filter.conditions limit depth ≠ .error (.invalidDepth level) := by
  intro hcause
  cases tooDeep_of_conditions hdepth hcause

theorem word_ne_invalidDepth {limit : UInt32} (filter : Filter) : ∀ {depth : UInt32}, depth ≠ 0 →
    filter.wordConditions limit depth ≠ .error (.nesting (.invalidDepth level)) := by
  refine Filter.induction
    (P := fun filter => ∀ {depth : UInt32}, depth ≠ 0 →
      filter.wordConditions limit depth ≠ .error (.nesting (.invalidDepth level)))
    (Q := fun slots => ∀ {depth : UInt32} constants, depth ≠ 0 →
      Slot.wordConditions limit depth constants slots ≠ .error (.nesting (.invalidDepth level)))
    ?filter ?nil ?unset ?null ?leaf ?sub filter
  case filter =>
    intro name slots constants ordering hslots depth hdepth herror
    rw [wordConditions] at herror
    rcases Outcome.bind_eq_error.1 herror with hlevel | ⟨_, _, hbelow⟩
    · rw [checkLevel, if_neg hdepth] at hlevel
      split at hlevel <;> cases hlevel
    · exact hslots constants hdepth hbelow
  case nil =>
    intro depth constants _ herror
    cases herror
  case unset =>
    intro declared rest ih depth constants hdepth
    exact ih constants hdepth
  case null =>
    intro declared rest ih depth constants hdepth
    rw [Slot.wordConditions_null]
    exact ih constants hdepth
  case leaf =>
    intro declared value rest hleaf ih depth constants hdepth herror
    rw [Slot.wordConditions_leaf _ _ _ _ _ hleaf] at herror
    exact ih constants hdepth (Outcome.map_eq_error.1 herror)
  case sub =>
    intro declared sub rest hsub ih depth constants hdepth herror
    rw [Slot.wordConditions] at herror
    rcases Outcome.bind_eq_error.1 herror with hvalue | ⟨_, _, hrest⟩
    · rw [Value.wordConditions] at hvalue
      split at hvalue
      · cases hvalue
      · rcases Outcome.bind_eq_error.1 hvalue with hnext | ⟨next, hnext, hbelow⟩
        · -- A level that fits no word is refused as such, and is not taken for zero.
          unfold nextLevel at hnext
          split at hnext <;> cases hnext
        · rcases Outcome.bind_eq_error.1 hbelow with hinner | ⟨_, _, hdone⟩
          · exact hsub (nextLevel_ne_zero hnext) hinner
          · cases hdone
    · rcases Outcome.bind_eq_error.1 hrest with hlater | ⟨_, _, hdone⟩
      · exact ih constants hdepth hlater
      · cases hdone

end Filter

/-! ## Queries -/

namespace Engine

variable {engine : Engine} {name : String} {params : List Param} {error : Error}

/-- The faults that a query can have. -/
inductive Error.OfQuery (engine : Engine) (name : String) : Error → Prop
  | unknownFilter (hname : name ∉ engine.registry.names) : OfQuery engine name (.unknownFilter name)
  | binding {cause : BindError} (hname : name ∈ engine.registry.names) (hcause : cause.OfRequest) :
      OfQuery engine name (.binding cause)
  | nesting (hname : name ∈ engine.registry.names) :
      OfQuery engine name (.nesting (.tooDeep (engine.nestingLimit + 1) engine.nestingLimit))

theorem definition_of_mem (hname : name ∈ engine.registry.names) :
    ∃ definition, engine.definition name = .ok definition := by
  obtain ⟨definition, hget⟩ := Option.isSome_iff_exists.1 (Registry.isSome_get?_iff.2 hname)
  refine ⟨definition, ?_⟩
  rw [Engine.definition, hget]

theorem query_of_not_mem (hname : name ∉ engine.registry.names) :
    engine.query name params = .error (.unknownFilter name) := by
  have hget : engine.registry.get? name = none := by
    rwa [← Option.not_isSome_iff_eq_none, Registry.isSome_get?_iff]
  have hdefinition : engine.definition name = .error (.unknownFilter name) := by
    rw [Engine.definition, hget]
  rw [Engine.query, Engine.bind, hdefinition]
  rfl

theorem nesting_of_findQuery {filter : Filter} (hfind : engine.findQuery filter = .error error) :
    error = .nesting (.tooDeep (engine.nestingLimit + 1) engine.nestingLimit) := by
  rcases Outcome.bind_eq_error.1 hfind with hconditions | ⟨_, _, hdone⟩
  · obtain ⟨cause, hcause, rfl⟩ := Outcome.mapError_eq_error.1 hconditions
    rw [Filter.tooDeep_of_conditions Nat.one_ne_zero hcause, Nat.max_eq_right (by omega)]
  · cases hdone

theorem ofQuery_of_query (hbuilt : engine.registry.Built)
    (hquery : engine.query name params = .error error) : error.OfQuery engine name := by
  by_cases hname : name ∈ engine.registry.names
  · obtain ⟨definition, hdefinition⟩ := definition_of_mem hname
    rcases Outcome.bind_eq_error.1 hquery with hbind | ⟨filter, _, hfind⟩
    · rw [Engine.bind, hdefinition] at hbind
      obtain ⟨cause, hcause, rfl⟩ := Outcome.mapError_eq_error.1 hbind
      have hdefinitionBuilt := hbuilt definition (mem_of_definition hdefinition)
      exact .binding hname (hdefinitionBuilt.ofRequest_of_bind hcause)
    · rw [nesting_of_findQuery hfind]
      exact .nesting hname
  · rw [query_of_not_mem hname] at hquery
    cases hquery
    exact .unknownFilter hname

/-- A query of an engine that was built succeeds or has a fault of the request: it names no
definition that is registered, a parameter is at fault, or sub-filters nest beyond the limit.  No
binding at any level of nested definitions comes to a value that the filter refuses, and no level
of conditions is zero unless the first is. -/
theorem query_faults {contentOf : String → Option String} {config : Config}
    {definitions : List Definition} (hbuilt : ∀ definition ∈ definitions, definition.Built)
    (hengine : build contentOf config definitions = .ok engine) :
    (∀ name params, (∃ query, engine.query name params = .ok query) ∨
      ∃ error, engine.query name params = .error error ∧ error.OfQuery engine name) ∧
    (∀ name params, engine.query name params = .error (.unknownFilter name) ↔
      name ∉ engine.registry.names) ∧
    (∀ outer ∈ engine.registry.definitions, ∀ inner, outer.Contains inner →
      ∀ validate params cause, inner.bind validate params = .error cause → cause.OfRequest) ∧
    (∀ (filter : Filter) (limit depth level : Nat), depth ≠ 0 →
      filter.conditions limit depth ≠ .error (.invalidDepth level)) ∧
    ∀ (filter : Filter) (limit depth : UInt32) (level : Nat), depth ≠ 0 →
      filter.wordConditions limit depth ≠ .error (.nesting (.invalidDepth level)) := by
  have hall : engine.registry.Built := built_of_build hbuilt hengine
  refine ⟨?_, ?_, ?_, fun _ _ _ _ hdepth => Filter.ne_invalidDepth hdepth,
    fun filter _ _ _ hdepth => filter.word_ne_invalidDepth hdepth⟩
  · intro name params
    cases hquery : engine.query name params with
    | ok query => exact .inl ⟨query, rfl⟩
    | error error => exact .inr ⟨error, rfl, ofQuery_of_query hall hquery⟩
  · intro name params
    refine ⟨fun hquery => ?_, query_of_not_mem⟩
    cases ofQuery_of_query hall hquery with
    | unknownFilter hname => exact hname
  · intro outer houter inner hcontains validate params cause hcause
    exact ((hall outer houter).of_contains hcontains).ofRequest_of_bind hcause

/-! ## Requests that fail -/

end Engine

namespace Sample

theorem nameless_company :
    post.bind true [⟨"author__company__name", "NL"⟩] = .error (.unknownKey "name") := by
  have hauthor : post.nested? "author" = some author := by rfl
  have hcompany : author.nested? "company" = some company := by rfl
  have hbelow : post.check true ⟨"author__company__name", "NL"⟩ =
      author.check true ⟨"company__name", "NL"⟩ := Definition.check_of_passed hauthor rfl
  have hlast : author.check true ⟨"company__name", "NL"⟩ = company.check true ⟨"name", "NL"⟩ :=
    Definition.check_of_passed hcompany rfl
  rw [post_built.bind_singleton_eq_error_iff, hbelow, hlast, Definition.check]
  rfl

theorem nameless_query : engine.query "Post" [⟨"author__company__name", "NL"⟩] =
    .error (.binding (.unknownKey "name")) := by
  have hname : engine.definition "Post" = .ok post := by rfl
  refine Outcome.bind_eq_error.2 (.inl ?_)
  rw [Engine.bind, hname]
  exact Outcome.mapError_eq_error.2 ⟨_, nameless_company, rfl⟩

/-- A filter that is not registered, and a key that leads nowhere two levels down. -/
theorem post_query_faults :
    (∀ definition ∈ [post], definition.Built) ∧
      Engine.build (fun _ => none) {} [post] = .ok engine ∧
      engine.query "Page" [] = .error (.unknownFilter "Page") ∧
      (∃ error, engine.query "Post" [⟨"author__company__name", "NL"⟩] = .error error ∧
        error.OfQuery engine "Post") ∧
      BindError.OfRequest (.unknownKey "name") ∧
      companyFilter.conditions 0 1 ≠ .error (.invalidDepth 1) := by
  have hbuilt : ∀ definition ∈ [post], definition.Built := by
    intro definition hmem
    exact List.mem_singleton.1 hmem ▸ post_built
  have hengine : Engine.build (fun _ => none) {} [post] = .ok engine := by rfl
  obtain ⟨hqueries, hunknown, hrequest, hlevels, -⟩ := Engine.query_faults hbuilt hengine
  refine ⟨hbuilt, hengine, (hunknown "Page" []).2 (by decide), ?_, ?_, ?_⟩
  · rcases hqueries "Post" [⟨"author__company__name", "NL"⟩] with ⟨query, hquery⟩ | hfails
    · rw [nameless_query] at hquery
      cases hquery
    · exact hfails
  · exact hrequest post (List.mem_singleton_self _) post (.self _) true _ _ nameless_company
  · exact hlevels companyFilter 0 1 1 Nat.one_ne_zero

end Sample

end FilterQuery
