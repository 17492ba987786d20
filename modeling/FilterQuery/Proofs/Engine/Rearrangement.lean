import FilterQuery.Proofs.Engine.Query
import FilterQuery.Proofs.Param.Acceptance
/-!
# The order of parameters

A filter is told by what is given under each key, so parameters may be moved past those of
other keys.  What is passed on to a nested field has the keys that were routed there with one
prefix taken off; the order within each key is the same below, and the filter below is the
same by the same law.
-/

namespace FilterQuery

/-- The same parameters in another order, where those of one key keep theirs. -/
def Param.Rearranges (params others : List Param) : Prop :=
  ∀ key, Param.given others key = Param.given params key

namespace Param.Rearranges

variable {params others : List Param}

theorem symm (hrearranges : Rearranges params others) : Rearranges others params :=
  fun key => (hrearranges key).symm

theorem iff_keys :
    Rearranges params others ↔
      ∀ key ∈ (params ++ others).map Param.key,
        Param.given others key = Param.given params key := by
  constructor
  · intro hrearranges key _
    exact hrearranges key
  · intro hkeys key
    by_cases hmem : key ∈ (params ++ others).map Param.key
    · exact hkeys key hmem
    · have hnone : ∀ param ∈ params ++ others, ¬ (param.key == key) = true := by
        intro param hparam heq
        exact hmem (List.mem_map.2 ⟨param, hparam, beq_iff_eq.1 heq⟩)
      have hparams : Param.given params key = [] :=
        List.filter_eq_nil_iff.2 fun param hparam => hnone param (List.mem_append_left _ hparam)
      have hothers : Param.given others key = [] :=
        List.filter_eq_nil_iff.2 fun param hparam => hnone param (List.mem_append_right _ hparam)
      rw [hparams, hothers]

instance : Decidable (Rearranges params others) :=
  decidable_of_iff _ iff_keys.symm

theorem count_given (params : List Param) (param : Param) :
    (Param.given params param.key).count param = params.count param :=
  List.count_filter (by simp)

theorem perm (hrearranges : Rearranges params others) : others.Perm params := by
  rw [List.perm_iff_count]
  intro param
  calc
    others.count param = (Param.given others param.key).count param :=
      (count_given others param).symm
    _ = (Param.given params param.key).count param := by rw [hrearranges]
    _ = params.count param := count_given params param

theorem given_groupOf (definition : Definition) (params : List Param) (field key : String) :
    Param.given (definition.groupOf params field) key =
      definition.groupOf (Param.given params (field ++ Text.delimiter ++ key)) field := by
  unfold Param.given Definition.groupOf
  rw [List.filter_filterMap, List.filterMap_filter]
  apply List.filterMap_congr
  intro param _
  cases hpassed : definition.passed? field param with
  | none => simp
  | some passed =>
      have hunder := (Definition.passed?_eq_some_iff.1 hpassed).2
      have hkey : (param.key == field ++ Text.delimiter ++ key) = (passed.key == key) := by
        rw [← hunder, Bool.eq_iff_iff, beq_iff_eq, beq_iff_eq]
        exact String.append_right_inj _
      simp [hkey, Option.filter]

theorem groupOf (hrearranges : Rearranges params others) (definition : Definition)
    (field : String) :
    Rearranges (definition.groupOf params field) (definition.groupOf others field) := by
  intro key
  rw [given_groupOf, given_groupOf, hrearranges]

end Param.Rearranges

namespace Definition

variable {validate : Bool} {definition : Definition} {params others : List Param}
  {filter : Filter}

/-- What describes a filter describes it after parameters are rearranged, where this is so of
the filters below. -/
theorem Describes.rearrange (hrearranges : Param.Rearranges params others)
    (hbelow : ∀ name sub below, definition.nested? name = some sub →
      sub.bind validate (definition.groupOf others name) = .ok below →
      sub.bind validate (definition.groupOf params name) = .ok below)
    (hregular : definition.Regular)
    (hdescribes : definition.Describes validate others filter) :
    definition.Describes validate params filter := by
  have hrouted : ∀ field, params.filter (definition.routesTo field ·.key) = [] ↔
      others.filter (definition.routesTo field ·.key) = [] := by
    intro field
    simp only [List.filter_eq_nil_iff, hrearranges.perm.mem_iff]
  refine ⟨hdescribes.definition_eq, ?_, ?_, ?_, ?_, ?_⟩
  · rw [← hrearranges]
    exact hdescribes.ordering
  · intro declared
    rw [← hrearranges]
    exact hdescribes.scalar declared
  · intro declared
    rw [← hrearranges]
    exact hdescribes.list declared
  · intro declared hmem sub hkind hnil
    exact hdescribes.untouched declared hmem sub hkind ((hrouted declared.name).1 hnil)
  · intro declared hmem sub hkind hne
    obtain ⟨group, below, hgroup, hbind, hget⟩ := hdescribes.passed declared hmem sub hkind
      (fun hnil => hne ((hrouted declared.name).2 hnil))
    rw [eq_groupOf hgroup] at hbind
    exact ⟨_, below, map_under_groupOf definition params declared.name,
      hbelow declared.name sub below (hregular.nested?_of_mem hmem hkind) hbind, hget⟩

theorem Built.bind_rearrange (hbuilt : definition.Built)
    (hrearranges : Param.Rearranges params others)
    (hbind : definition.bind validate others = .ok filter) :
    definition.bind validate params = .ok filter := by
  induction definition using nestedInduction generalizing params others filter with
  | step definition ih =>
      obtain ⟨hcheck, hdescribes⟩ := hbuilt.bind_eq_ok_iff.1 hbind
      rw [hbuilt.bind_eq_ok_iff]
      constructor
      · intro param hmem
        exact hcheck param (hrearranges.perm.mem_iff.2 hmem)
      · apply hdescribes.rearrange hrearranges _ hbuilt.regular
        intro name sub below hnested
        exact ih name sub hnested (hbuilt.of_nested? hnested) (hrearranges.groupOf definition name)

end Definition

/-! ## Queries -/

/-- Parameters are accepted and refused one by one, and their order counts within a key
only. -/
theorem Definition.Built.parameters_independent {definition : Definition}
    (hbuilt : definition.Built) (validate : Bool) (params : List Param) :
    ((∃ filter, definition.bind validate params = .ok filter) ↔
        ∀ param ∈ params, ∃ filter, definition.bind validate [param] = .ok filter) ∧
      (∀ error, definition.bind validate params = .error error →
        ∃ param ∈ params, definition.bind validate [param] = .error error) ∧
      ∀ others, Param.Rearranges params others →
        (∀ filter, definition.bind validate others = .ok filter ↔
          definition.bind validate params = .ok filter) ∧
        ∀ (engine : Engine) (name : String), engine.definition name = .ok definition →
          engine.validateOrdering = validate →
          ∀ query, engine.query name others = .ok query ↔
            engine.query name params = .ok query := by
  refine ⟨hbuilt.exists_bind_iff, fun error hbind => hbuilt.exists_bind_error hbind, ?_⟩
  intro others hrearranges
  have hbind : ∀ filter, definition.bind validate others = .ok filter ↔
      definition.bind validate params = .ok filter := by
    intro filter
    constructor
    · exact hbuilt.bind_rearrange hrearranges
    · exact hbuilt.bind_rearrange hrearranges.symm
  refine ⟨hbind, ?_⟩
  intro engine name hname hvalidate query
  rw [Engine.query_eq_ok_iff hname, Engine.query_eq_ok_iff hname]
  simp only [hvalidate, hbind]

/-! ## The parameters of an article in another order -/

namespace Definition.Sample

def articleShuffled : List Param :=
  [⟨"writer__order_by", "name"⟩, ⟨"writer__name", "ann"⟩, ⟨"title", "one"⟩,
    ⟨"tag__in", "a,b"⟩, ⟨"title", "two"⟩, ⟨"order_by", "title"⟩,
    ⟨"order_by", "-title, ,title"⟩, ⟨"tag__in", "c"⟩]

def articles : Engine :=
  { registry := ⟨[article]⟩, nestingLimit := defaultLimit, validateOrdering := true }

/-- The groups of the writer differ in their order, and the filters do not. -/
theorem article_shuffled :
    article.Built ∧ Param.Rearranges articleParams articleShuffled ∧
      articles.definition "Article" = .ok article ∧
      article.bind true articleShuffled = .ok (articleWith (some (.sub writerFilter))) ∧
      (∀ param ∈ articleParams, ∃ filter, article.bind true [param] = .ok filter) ∧
      ∀ query, articles.query "Article" articleShuffled = .ok query ↔
        articles.query "Article" articleParams = .ok query := by
  have hrearranges : Param.Rearranges articleParams articleShuffled := by decide
  have hname : articles.definition "Article" = .ok article := by rfl
  obtain ⟨haccepted, _, hrearranged⟩ :=
    article_built.parameters_independent true articleParams
  obtain ⟨hbind, hquery⟩ := hrearranged articleShuffled hrearranges
  exact ⟨article_built, hrearranges, hname, (hbind _).2 article_bound,
    haccepted.1 ⟨_, article_bound⟩, hquery articles "Article" hname rfl⟩

end Definition.Sample

end FilterQuery
