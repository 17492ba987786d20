import FilterQuery.Proofs.Engine.Definitions
import FilterQuery.Proofs.Param.Account
import Mathlib.Data.List.Infix
/-!
# Parameters and the conditions of a query

The conditions of a query are told by its parameters: each leaf that was given asks for
one condition at its place, and each chain of nested fields that leads to such a leaf asks
once for the document it links to.  Nothing else is asked for, so a parameter neither gets
lost on the way nor adds a condition that was not asked for.
-/

namespace FilterQuery

/-! ## Conditions told by parameters -/

namespace Leaf

/-- The hints of a condition on a leaf: below nested fields, how many there are. -/
def hints (leaf : Leaf) : Hints :=
  if leaf.chain = [] then {} else .linked leaf.chain.length

/-- What a value of a leaf asks for.  A search looks in every field searched, with the
chain in front. -/
def predicate? (leaf : Leaf) (value : Value) : Option Predicate :=
  if leaf.constants.searches leaf.declared.name then
    some (.any (leaf.constants.searchPaths.map fun path =>
      .field (pathBelow leaf.chain path) (.meets (.contains value true))))
  else
    match leaf.declared.field.operator with
    | some operator => (operator.expression? value).map fun expression =>
        .field (pathBelow leaf.chain leaf.declared.field.path) (.meets expression)
    | none =>
        some (.field (pathBelow leaf.chain leaf.declared.field.path) (.equals value.toJson))

def condition? (leaf : Leaf) (value : Value) : Option Condition :=
  (leaf.predicate? value).map fun predicate => ⟨predicate, leaf.hints⟩

end Leaf

namespace Definition

def value? (definition : Definition) (params : List Param) (leaf : Leaf) : Option Value :=
  match leaf.declared.readAll (definition.rawsOf params leaf) with
  | .ok value => value
  | .error _ => none

/-- The chains of nested fields that lead to the leaves given, each once. -/
def links (definition : Definition) (params : List Param) : List (List String) :=
  ((definition.leaves params).flatMap fun leaf => leaf.chain.inits.filter (!·.isEmpty)).dedup

variable {definition : Definition} {params : List Param}

theorem mem_links {chain : List String} :
    chain ∈ definition.links params ↔
      chain ≠ [] ∧ ∃ leaf ∈ definition.leaves params, chain <+: leaf.chain := by
  simp only [links, List.mem_dedup, List.mem_flatMap, List.mem_filter, List.mem_inits]
  constructor
  · rintro ⟨leaf, hleaf, hprefix, hne⟩
    exact ⟨by simpa using hne, leaf, hleaf, hprefix⟩
  · rintro ⟨hne, leaf, hleaf, hprefix⟩
    exact ⟨leaf, hleaf, hprefix, by simpa using hne⟩

theorem value?_eq_some_iff {leaf : Leaf} {value : Value} :
    definition.value? params leaf = some value ↔
      leaf.declared.readAll (definition.rawsOf params leaf) = .ok (some value) := by
  unfold value?
  cases leaf.declared.readAll (definition.rawsOf params leaf) <;> simp

def demandsOf (definition : Definition) (params : List Param) : List Demand :=
  (definition.leaves params).filterMap
      (fun leaf => (definition.value? params leaf).map (.field leaf)) ++
    (definition.links params).map .link

theorem nodup_demandsOf (definition : Definition) (params : List Param) :
    (definition.demandsOf params).Nodup := by
  unfold demandsOf
  rw [List.nodup_append]
  refine ⟨?_, ?_, ?_⟩
  · apply List.Nodup.filterMap
    · intro a b demand ha hb
      obtain ⟨_, _, rfl⟩ := Option.map_eq_some_iff.1 ha
      obtain ⟨_, _, heq⟩ := Option.map_eq_some_iff.1 hb
      cases heq
      rfl
    · exact List.nodup_dedup _
  · apply List.Nodup.map
    · intro a b heq
      cases heq
      rfl
    · exact List.nodup_dedup _
  · rintro _ hfield _ hlink rfl
    obtain ⟨leaf, _, hfield⟩ := List.mem_filterMap.1 hfield
    obtain ⟨value, _, rfl⟩ := Option.map_eq_some_iff.1 hfield
    obtain ⟨chain, _, heq⟩ := List.mem_map.1 hlink
    cases heq

theorem Accounts.perm {filter : Filter} (haccounts : definition.Accounts params filter) :
    filter.demands.Perm (definition.demandsOf params) := by
  rw [List.perm_ext_iff_of_nodup haccounts.nodup (nodup_demandsOf definition params)]
  intro demand
  unfold demandsOf
  rw [List.mem_append, List.mem_filterMap, List.mem_map]
  cases demand with
  | field leaf value =>
      rw [haccounts.field, ← value?_eq_some_iff]
      constructor
      · rintro ⟨hleaf, hvalue⟩
        exact .inl ⟨leaf, hleaf, by rw [hvalue]; rfl⟩
      · rintro (⟨other, hleaf, hvalue⟩ | ⟨chain, _, heq⟩)
        · obtain ⟨found, hfound, heq⟩ := Option.map_eq_some_iff.1 hvalue
          cases heq
          exact ⟨hleaf, hfound⟩
        · cases heq
  | link chain =>
      rw [haccounts.link, ← mem_links]
      constructor
      · intro hmem
        exact .inr ⟨chain, hmem, rfl⟩
      · rintro (⟨leaf, _, hvalue⟩ | ⟨other, hmem, heq⟩)
        · obtain ⟨found, _, heq⟩ := Option.map_eq_some_iff.1 hvalue
          cases heq
        · cases heq
          exact hmem

end Definition

/-! ## Leaves of definitions that were built -/

theorem Hints.below_one (chain : List String) :
    Hints.below 1 chain = if chain = [] then {} else .linked chain.length := by
  cases chain with
  | nil => rfl
  | cons name inner =>
      rw [if_neg (List.cons_ne_nil name inner), List.length_cons, Nat.add_comm]
      rfl

theorem Constants.searchField_of_searches {constants : Constants} {name : String}
    (hsearches : constants.searches name) :
    constants.searchField = some name ∧ constants.searchPaths ≠ [] := by
  unfold Constants.searches at hsearches
  simpa using hsearches

namespace Definition.Built

variable {definition : Definition} (hbuilt : definition.Built) {key : String} {leaf : Leaf}
  (hleaf : definition.leaf? key = some leaf)

include hbuilt hleaf

theorem operator_of_searches (hsearches : leaf.constants.searches leaf.declared.name) :
    leaf.declared.field.operator = none := by
  obtain ⟨home, hhome, hmem, _, hconstants⟩ := hbuilt.of_leaf? hleaf
  apply hhome.regular.search_plain leaf.declared hmem
  rw [← hconstants]
  exact (Constants.searchField_of_searches hsearches).1

theorem condition?_eq (value : Value) :
    leaf.declared.conditionBelow? 1 leaf.chain leaf.constants value = leaf.condition? value := by
  unfold DeclaredField.conditionBelow? Leaf.condition? Leaf.predicate?
  rw [Hints.below_one]
  cases hoperator : leaf.declared.field.operator with
  | some operator =>
      have hplain : ¬ leaf.constants.searches leaf.declared.name := by
        intro hsearches
        rw [hbuilt.operator_of_searches hleaf hsearches] at hoperator
        cases hoperator
      dsimp only
      rw [if_neg hplain, Option.map_map]
      rfl
  | none =>
      obtain ⟨home, hhome, hmem, _, _⟩ := hbuilt.of_leaf? hleaf
      have hpath := hhome.regular.path_eq leaf.declared hmem hoperator
      dsimp only
      split
      · rfl
      · rw [hpath]
        rfl

theorem condition?_eq_none_iff (value : Value) :
    leaf.condition? value = none ↔
      leaf.declared.field.operator = some .isNull ∧ value.isTruthy := by
  unfold Leaf.condition? Leaf.predicate?
  rw [Option.map_eq_none_iff]
  by_cases hsearches : leaf.constants.searches leaf.declared.name
  · rw [if_pos hsearches, hbuilt.operator_of_searches hleaf hsearches]
    simp
  · rw [if_neg hsearches]
    cases leaf.declared.field.operator with
    | none => simp
    | some operator =>
        dsimp only
        rw [Option.map_eq_none_iff, operator.expression?_eq_none_iff, Option.some.injEq]

end Definition.Built

/-! ## Queries -/

@[simp] theorem Filter.conditions_sort (filter : Filter) (query : FindQuery) :
    (filter.sort query).conditions = query.conditions := by
  unfold Filter.sort
  split <;> rfl

theorem Engine.conditions_of_findQuery {engine : Engine} {filter : Filter} {query : FindQuery}
    (hfind : engine.findQuery filter = .ok query) : query.conditions = filter.walk 1 [] := by
  obtain ⟨conditions, hconditions, heq⟩ := Outcome.bind_eq_ok.1 hfind
  cases heq
  obtain ⟨_, _, rfl⟩ := Filter.conditions_eq_ok_iff.1 (Outcome.mapError_eq_ok.1 hconditions)
  exact Filter.conditions_sort filter _

theorem Engine.query_eq_ok_iff {engine : Engine} {name : String} {definition : Definition}
    (hname : engine.definition name = .ok definition) {params : List Param}
    {query : FindQuery} :
    engine.query name params = .ok query ↔
      ∃ filter, definition.bind engine.validateOrdering params = .ok filter ∧
        engine.findQuery filter = .ok query := by
  have hbind : ∀ filter, engine.bind name params = .ok filter ↔
      definition.bind engine.validateOrdering params = .ok filter := by
    intro filter
    rw [Engine.bind, hname]
    exact Outcome.mapError_eq_ok
  rw [Engine.query, Outcome.bind_eq_ok]
  simp only [hbind]

theorem Engine.query_eq_ok {engine : Engine} {name : String} {definition : Definition}
    (hname : engine.definition name = .ok definition) {params : List Param}
    {query : FindQuery} (hquery : engine.query name params = .ok query) :
    ∃ filter, definition.bind engine.validateOrdering params = .ok filter ∧
      query.conditions = filter.walk 1 [] := by
  obtain ⟨filter, hbind, hfind⟩ := (Engine.query_eq_ok_iff hname).1 hquery
  exact ⟨filter, hbind, Engine.conditions_of_findQuery hfind⟩

/-- The conditions of a query are one for each leaf that its parameters lead to, and one for
each chain of nested fields on the way to such a leaf.  Every parameter leads to a leaf or to
an ordering; a leaf that was given has a value, which is no null and asks for nothing only
where it asks for null and is true; and a search looks somewhere. -/
theorem Engine.query_conditions {contentOf : String → Option String} {config : Config}
    {definitions : List Definition} (hbuilt : ∀ definition ∈ definitions, definition.Built)
    {engine : Engine} (hengine : Engine.build contentOf config definitions = .ok engine)
    {name : String} {definition : Definition}
    (hname : engine.definition name = .ok definition) {params : List Param}
    {query : FindQuery} (hquery : engine.query name params = .ok query) :
    (∀ param ∈ params, (definition.destination? param.key).isSome) ∧
      (∀ leaf ∈ definition.leaves params, ∃ value,
        definition.value? params leaf = some value ∧ value.isNull = false ∧
          (leaf.condition? value = none ↔
            leaf.declared.field.operator = some .isNull ∧ value.isTruthy) ∧
          (leaf.constants.searches leaf.declared.name → leaf.constants.searchPaths ≠ [])) ∧
      query.conditions.Perm
        ((definition.leaves params).filterMap
            (fun leaf => (definition.value? params leaf).bind leaf.condition?) ++
          (definition.links params).map Condition.linkAt) := by
  have hdefinition : definition.Built :=
    Engine.built_of_build hbuilt hengine definition (Engine.mem_of_definition hname)
  obtain ⟨filter, hbind, hconditions⟩ := Engine.query_eq_ok hname hquery
  have haccounts := hdefinition.accounts hbind
  refine ⟨haccounts.arrives, ?_, ?_⟩
  · intro leaf hmem
    obtain ⟨value, hvalue⟩ := haccounts.read leaf hmem
    obtain ⟨param, _, hleaf⟩ := Definition.mem_leaves.1 hmem
    have hset : value.isLeaf := (DeclaredField.of_readAll hvalue).2 value rfl
    exact ⟨value, Definition.value?_eq_some_iff.2 hvalue, Value.isNull_of_isLeaf hset,
      hdefinition.condition?_eq_none_iff hleaf value,
      fun hsearches => (Constants.searchField_of_searches hsearches).2⟩
  · have hperm := haccounts.perm.filterMap (Demand.conditionBelow? [])
    rw [← Filter.walk_eq_demands, ← hconditions] at hperm
    refine hperm.trans (.of_eq ?_)
    unfold Definition.demandsOf
    rw [List.filterMap_append, List.filterMap_filterMap, List.filterMap_map]
    congr 1
    · apply List.filterMap_congr
      intro leaf hmem
      obtain ⟨param, _, hleaf⟩ := Definition.mem_leaves.1 hmem
      cases definition.value? params leaf with
      | none => rfl
      | some value => exact hdefinition.condition?_eq hleaf value
    · exact congrFun List.filterMap_eq_map' _

/-! ## A query over three definitions -/

namespace Sample

def companyDraft : Draft :=
  { name := "Company", fields := [⟨"country", none⟩] }

def authorDraft : Draft :=
  { name := "Author",
    fields := [⟨"age__gt", some .integer⟩, ⟨"company", some (.nested company)⟩],
    constants := { searchField := some "q", searchPaths := ["name", "bio"] } }

def postDraft : Draft :=
  { name := "Post",
    fields := [⟨"author", some (.nested author)⟩, ⟨"gone__isnull", none⟩, ⟨"title", none⟩] }

def post : Definition := postFilter.definition

theorem company_built : company.Built := by
  have hbuild : companyDraft.build = .ok company := by rfl
  refine .of_draft hbuild ?_
  intro field hmem sub hkind
  cases List.mem_singleton.1 hmem
  cases hkind

theorem author_built : author.Built := by
  have hbuild : authorDraft.build = .ok author := by rfl
  refine .of_draft hbuild ?_
  intro field hmem sub hkind
  simp only [authorDraft, List.mem_cons, List.not_mem_nil, or_false] at hmem
  rcases hmem with rfl | rfl <;> cases hkind
  exact company_built

theorem post_built : post.Built := by
  have hbuild : postDraft.build = .ok post := by rfl
  refine .of_draft hbuild ?_
  intro field hmem sub hkind
  simp only [postDraft, List.mem_cons, List.not_mem_nil, or_false] at hmem
  rcases hmem with rfl | rfl | rfl <;> cases hkind
  exact author_built

def engine : Engine :=
  { registry := ⟨[post]⟩, nestingLimit := defaultLimit, validateOrdering := true }

def postParams : List Param :=
  [⟨"title", "lean"⟩, ⟨"author__company__country", "NL"⟩, ⟨"author__age__gt", "30"⟩,
    ⟨"gone__isnull", "true"⟩, ⟨"author__q", "ann"⟩]

def authorParams : List Param :=
  [⟨"company__country", "NL"⟩, ⟨"age__gt", "30"⟩, ⟨"q", "ann"⟩]

def authorBase : Filter :=
  ⟨"Author",
    [⟨⟨⟨"age__gt", "age", some .gt⟩, .integer⟩, some (.scalar (.int 30))⟩,
      ⟨⟨.plain "company", .nested company⟩, none⟩,
      ⟨⟨.plain "q", .string⟩, some (.scalar (.string "ann"))⟩],
    { searchField := some "q", searchPaths := ["name", "bio"] }, []⟩

def postBase : Filter :=
  ⟨"Post",
    [⟨⟨.plain "author", .nested author⟩, none⟩,
      ⟨⟨⟨"gone__isnull", "gone", some .isNull⟩, .boolean⟩, some (.bool true)⟩,
      ⟨⟨.plain "title", .string⟩, some (.scalar (.string "lean"))⟩], {}, []⟩

theorem companyFilter_bound : company.bind true [⟨"country", "NL"⟩] = .ok companyFilter :=
  Definition.bind_of_groups rfl rfl

theorem authorFilter_bound : author.bind true authorParams = .ok authorFilter := by
  have hfirst : authorParams.foldlM (bindParam true author) (.blank author, []) =
      .ok (authorBase, [("company", [⟨"country", "NL"⟩])]) := by rfl
  have hassign : authorBase.assign "company" (.sub companyFilter) = .ok authorFilter := by rfl
  refine Definition.bind_of_groups hfirst ?_
  rw [List.foldlM_cons, Definition.bindGroup_of_bind rfl companyFilter_bound, hassign]
  rfl

theorem postFilter_bound : post.bind true postParams = .ok postFilter := by
  have hfirst : postParams.foldlM (bindParam true post) (.blank post, []) =
      .ok (postBase, [("author", authorParams)]) := by rfl
  have hassign : postBase.assign "author" (.sub authorFilter) = .ok postFilter := by rfl
  refine Definition.bind_of_groups hfirst ?_
  rw [List.foldlM_cons, Definition.bindGroup_of_bind rfl authorFilter_bound, hassign]
  rfl

theorem post_query : engine.query "Post" postParams = .ok { conditions := postConditions } := by
  have hbind : engine.bind "Post" postParams = .ok postFilter := by
    have hname : engine.definition "Post" = .ok post := by rfl
    rw [Engine.bind, hname]
    exact Outcome.mapError_eq_ok.2 postFilter_bound
  rw [Engine.query, hbind]
  rfl

/-- Five parameters, given in no order, ask for four leaves and the links to two documents. -/
theorem post_query_conditions :
    (∀ definition ∈ [post], definition.Built) ∧
      Engine.build (fun _ => none) {} [post] = .ok engine ∧
      engine.definition "Post" = .ok post ∧
      engine.query "Post" postParams = .ok { conditions := postConditions } ∧
      postConditions.Perm
        ((post.leaves postParams).filterMap
            (fun leaf => (post.value? postParams leaf).bind leaf.condition?) ++
          (post.links postParams).map Condition.linkAt) := by
  have hbuilt : ∀ definition ∈ [post], definition.Built := by
    intro definition hmem
    exact List.mem_singleton.1 hmem ▸ post_built
  have hengine : Engine.build (fun _ => none) {} [post] = .ok engine := by rfl
  have hname : engine.definition "Post" = .ok post := by rfl
  exact ⟨hbuilt, hengine, hname, post_query,
    (Engine.query_conditions hbuilt hengine hname post_query).2.2⟩

end Sample

end FilterQuery
