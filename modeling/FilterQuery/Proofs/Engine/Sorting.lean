import FilterQuery.Proofs.Engine.Query
import FilterQuery.Proofs.Param.Meaning
import FilterQuery.Proofs.Param.Ordering
/-!
# How queries are sorted

A query is sorted by what the last ordering of its parameters writes.  The entries of an ordering
are read once to be checked and again to sort by them, and both times they name the same fields;
what was ordered below a nested field is not looked at.
-/

namespace FilterQuery

variable {definition : Definition} {params : List Param} {param : Param} {filter : Filter}

/-! ## Orderings among parameters -/

namespace Definition

theorem mem_given_iff {key : String} :
    param ∈ Param.given params key ↔ param ∈ params ∧ param.key = key := by
  simp [Param.given]

theorem key_eq_orderingField_iff {chain : List String}
    (hleads : definition.destination? param.key = some (.ordering chain)) :
    param.key = definition.constants.orderingField ↔ chain = [] := by
  rw [destination?_eq] at hleads
  rw [← route_eq_ordering_iff]
  cases hroute : definition.route param.key with
  | ordering =>
      rw [hroute] at hleads
      cases hleads
      exact iff_of_true rfl rfl
  | nested field rest =>
      rw [hroute] at hleads
      obtain ⟨sub, _, hbelow⟩ := Option.bind_eq_some_iff.1 hleads
      obtain ⟨inner, _, hunder⟩ := Option.map_eq_some_iff.1 hbelow
      cases inner with
      | ordering below =>
          cases hunder
          exact iff_of_false nofun nofun
      | leaf inner => cases hunder
  | _ => simp [hroute] at hleads

theorem checkOrdering_of_bind (hbind : definition.bind true params = .ok filter)
    (hmem : param ∈ Param.given params definition.constants.orderingField) :
    checkOrdering definition.constants (orderingEntries param.raw) = .ok () := by
  obtain ⟨hparam, hkey⟩ := mem_given_iff.1 hmem
  have hordering : definition.route param.key = .ordering := route_eq_ordering_iff.2 hkey
  rw [bind_eq] at hbind
  obtain ⟨_, hfirst, _⟩ := Outcome.bind_eq_ok.1 hbind
  obtain ⟨_, _, hstep⟩ := Outcome.exists_step_of_foldlM hfirst hparam
  rcases bindParam_cases hstep with ⟨_, hcheck, _⟩ | ⟨_, _, hroute, _⟩ | ⟨_, _, hroute, _⟩
  · exact hcheck rfl
  · rw [hordering] at hroute
    cases hroute
  · rw [hordering] at hroute
    cases hroute

end Definition

/-! ## The sort keys of a query -/

@[simp] theorem Filter.sortKeys_sort (filter : Filter) (query : FindQuery) :
    (filter.sort query).sortKeys = query.sortKeys ++ filter.ordering.map SortKey.read := by
  unfold Filter.sort
  split
  · rename_i hempty
    rw [List.isEmpty_iff.1 hempty, List.map_nil, List.append_nil]
  · rfl

namespace Engine

variable {engine : Engine} {name : String} {query : FindQuery}

theorem sortKeys_of_query (hname : engine.definition name = .ok definition)
    (hquery : engine.query name params = .ok query) :
    ∃ filter, definition.bind engine.validateOrdering params = .ok filter ∧
      query.sortKeys = filter.ordering.map SortKey.read := by
  obtain ⟨filter, hbind, hfind⟩ := (query_eq_ok_iff hname).1 hquery
  obtain ⟨conditions, _, heq⟩ := Outcome.bind_eq_ok.1 hfind
  cases heq
  exact ⟨filter, hbind, by rw [Filter.sortKeys_sort, List.nil_append]⟩

/-- A query is sorted by the sort keys that the last ordering of its parameters writes, in their
order, and by no ordering below a nested field.  Where orderings are checked, the fields are
distinct and may be sorted by. -/
theorem query_sortKeys (hname : engine.definition name = .ok definition)
    (hquery : engine.query name params = .ok query) :
    (query.sortKeys =
      match (Param.given params definition.constants.orderingField).getLast? with
      | some param =>
          (((Text.items param.raw).map Text.trim).filter (!·.isEmpty)).map SortKey.read
      | none => []) ∧
    (∀ param ∈ params, ∀ chain, definition.destination? param.key = some (.ordering chain) →
      (param ∈ Param.given params definition.constants.orderingField ↔ chain = [])) ∧
    (engine.validateOrdering → ∀ sortable, definition.constants.sortable = some sortable →
      (query.sortKeys.map (·.field)).Nodup ∧ ∀ key ∈ query.sortKeys, key.field ∈ sortable) := by
  obtain ⟨filter, hbind, hkeys⟩ := sortKeys_of_query hname hquery
  have hordering := Definition.ordering_of_bind hbind
  unfold Definition.lastOrdering? at hordering
  refine ⟨?_, ?_, ?_⟩
  · rw [hkeys, hordering]
    cases (Param.given params definition.constants.orderingField).getLast? <;> rfl
  · intro param hmem chain hleads
    rw [Definition.mem_given_iff, and_iff_right hmem]
    exact Definition.key_eq_orderingField_iff hleads
  · intro hvalidate sortable hsortable
    rw [hvalidate] at hbind
    cases hlast : (Param.given params definition.constants.orderingField).getLast? with
    | none =>
        rw [hkeys, hordering, hlast]
        exact ⟨.nil, nofun⟩
    | some param =>
        have hcheck := Definition.checkOrdering_of_bind hbind (List.mem_of_getLast? hlast)
        obtain ⟨hdistinct, hallowed⟩ := checkOrdering_eq_ok_iff.1 hcheck sortable hsortable
        have hentries : filter.ordering = orderingEntries param.raw := by
          rw [hordering, hlast]
          rfl
        have hfields : query.sortKeys.map (·.field) =
            (orderingEntries param.raw).map sortedField := by
          rw [hkeys, hentries, List.map_map]
          rfl
        rw [← hfields] at hdistinct hallowed
        exact ⟨hdistinct, fun key hkey => hallowed key.field (List.mem_map_of_mem hkey)⟩

/-! ## Songs by an artist -/

namespace Sample

def artist : Definition :=
  ⟨"Artist", [⟨.plain "name", .string⟩], {}⟩

def song : Definition :=
  ⟨"Song", [⟨.plain "title", .string⟩, ⟨.plain "artist", .nested artist⟩],
    { sortable := some ["title", "year"] }⟩

def songs : Engine :=
  { registry := ⟨[song]⟩, nestingLimit := defaultLimit, validateOrdering := true }

def songParams : List Param :=
  [⟨"order_by", "year"⟩, ⟨"order_by", "-title, ,+year"⟩, ⟨"artist__order_by", "name"⟩]

def artistFilter : Filter :=
  ⟨"Artist", [⟨⟨.plain "name", .string⟩, none⟩], {}, ["name"]⟩

def songWith (below : Option Value) : Filter :=
  ⟨"Song", [⟨⟨.plain "title", .string⟩, none⟩, ⟨⟨.plain "artist", .nested artist⟩, below⟩],
    { sortable := some ["title", "year"] }, ["-title", "+year"]⟩

theorem song_bound : song.bind true songParams = .ok (songWith (some (.sub artistFilter))) := by
  have hartist : artist.bind true [⟨"order_by", "name"⟩] = .ok artistFilter :=
    Definition.bind_of_groups rfl rfl
  have hfirst : songParams.foldlM (bindParam true song) (.blank song, []) =
      .ok (songWith none, [("artist", [⟨"order_by", "name"⟩])]) := by rfl
  have hassign : (songWith none).assign "artist" (.sub artistFilter) =
      .ok (songWith (some (.sub artistFilter))) := by rfl
  refine Definition.bind_of_groups hfirst ?_
  rw [List.foldlM_cons, Definition.bindGroup_of_bind rfl hartist, hassign]
  rfl

theorem song_query : songs.query "Song" songParams =
    .ok { sortKeys := [⟨"title", .descending⟩, ⟨"year", .ascending⟩] } :=
  (query_eq_ok_iff rfl).2 ⟨_, song_bound, rfl⟩

/-- The song is sorted by its last ordering, and not by that of its artist. -/
theorem song_sortKeys :
    songs.definition "Song" = .ok song ∧
      songs.query "Song" songParams =
        .ok { sortKeys := [⟨"title", .descending⟩, ⟨"year", .ascending⟩] } ∧
      ["title", "year"].Nodup := by
  have hname : songs.definition "Song" = .ok song := by rfl
  obtain ⟨-, -, hvalidated⟩ := query_sortKeys hname song_query
  exact ⟨hname, song_query, (hvalidated rfl _ rfl).1⟩

end Sample

end Engine

end FilterQuery
