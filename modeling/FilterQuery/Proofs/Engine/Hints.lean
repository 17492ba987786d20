import FilterQuery.Proofs.Conditions.Levels
import FilterQuery.Proofs.Engine.Query
/-!
# The hints of a query

The levels that the conditions of a query record are those from one to the height of its filter,
whatever its sub-filters ask for.
-/

namespace FilterQuery

section Query

variable {filter : Filter} {query : FindQuery} (hwalk : query.conditions = filter.walk 1 [])

include hwalk

theorem FindQuery.depth?_of_walk :
    query.depth? = if 1 ≤ filter.height then some filter.height else none := by
  have hlevels : ∀ depth, depth ∈ query.conditions.filterMap (·.hints.depth) ↔
      1 ≤ depth ∧ depth ≤ filter.height := by
    intro depth
    rw [List.mem_filterMap, hwalk, Filter.exists_depth_iff]
  unfold FindQuery.depth?
  split
  · rename_i hheight
    rw [List.max?_eq_some_iff]
    exact ⟨(hlevels _).2 ⟨hheight, Nat.le_refl _⟩, fun depth hmem => ((hlevels depth).1 hmem).2⟩
  · rename_i hheight
    rw [List.max?_eq_none_iff, List.eq_nil_iff_forall_not_mem]
    intro depth hmem
    obtain ⟨hone, hle⟩ := (hlevels depth).1 hmem
    exact hheight (Nat.le_trans hone hle)

theorem FindQuery.fetchLinks_iff_of_walk : query.fetchLinks ↔ 1 ≤ filter.height := by
  unfold FindQuery.fetchLinks
  rw [List.any_eq_true, hwalk]
  constructor
  · rintro ⟨condition, hmem, hfetch⟩
    obtain ⟨depth, hdepth⟩ :=
      Option.isSome_iff_exists.1 ((Filter.fetchLinks_iff_of_mem_walk hmem).1 hfetch)
    obtain ⟨hone, hle⟩ := Filter.exists_depth_iff.1 ⟨condition, hmem, hdepth⟩
    exact Nat.le_trans hone hle
  · intro hheight
    obtain ⟨condition, hmem, hdepth⟩ := Filter.exists_depth_iff.2 ⟨hheight, Nat.le_refl _⟩
    refine ⟨condition, hmem, (Filter.fetchLinks_iff_of_mem_walk hmem).2 ?_⟩
    rw [hdepth]
    rfl

end Query

/-- A query fetches links exactly where sub-filters nest below its filter, and its depth is the
length of the longest chain of them.  Each condition fetches links exactly where it records a
level, which is one of those levels. -/
theorem Engine.findQuery_hints {engine : Engine} {filter : Filter} {query : FindQuery}
    (hfind : engine.findQuery filter = .ok query) :
    ∃ height,
      IsGreatest {levels | ∃ chain, filter.Nests chain ∧ chain.length = levels} height ∧
      (query.fetchLinks ↔ 1 ≤ height) ∧
      query.depth? = (if 1 ≤ height then some height else none) ∧
      ∀ condition ∈ query.conditions,
        (condition.hints.fetchLinks ↔ condition.hints.depth.isSome) ∧
          ∀ depth, condition.hints.depth = some depth → 1 ≤ depth ∧ depth ≤ height := by
  have hwalk := Engine.conditions_of_findQuery hfind
  refine ⟨filter.height, filter.isGreatest_height, FindQuery.fetchLinks_iff_of_walk hwalk,
    FindQuery.depth?_of_walk hwalk, ?_⟩
  intro condition hmem
  rw [hwalk] at hmem
  exact ⟨Filter.fetchLinks_iff_of_mem_walk hmem,
    fun depth hdepth => Filter.exists_depth_iff.1 ⟨condition, hmem, hdepth⟩⟩

/-- The post has a level for its author and one for the company of the author. -/
theorem Sample.post_hints :
    engine.findQuery postFilter = .ok { conditions := postConditions } ∧
      ∃ height,
        IsGreatest {levels | ∃ chain, postFilter.Nests chain ∧ chain.length = levels} height ∧
        height = 2 := by
  have hfind : engine.findQuery postFilter = .ok { conditions := postConditions } := by rfl
  obtain ⟨height, hgreatest, _, hdepth, _⟩ := Engine.findQuery_hints hfind
  refine ⟨hfind, height, hgreatest, ?_⟩
  have htwo : FindQuery.depth? { conditions := postConditions } = some 2 := by rfl
  rw [htwo] at hdepth
  split at hdepth <;> cases hdepth
  rfl

end FilterQuery
