import FilterQuery.Proofs.Param.Account
import FilterQuery.Proofs.Param.Routing
/-!
# What a bound filter holds

A filter that was bound is told by its parameters, field by field: by the last ordering, by
the last value of a field, by all values of a list, and for a nested field by what is passed
on to it, of which the filter below is bound in turn.  Every parameter counts for one of
these, and none counts for two.
-/

namespace FilterQuery

def Param.given (params : List Param) (key : String) : List Param :=
  params.filter (·.key == key)

namespace Definition

variable {validate : Bool} {definition : Definition} {params : List Param} {filter : Filter}
  {key : String}

/-! ## What a key counts for -/

/-- What the parameters of a key count for. -/
inductive Share where
  | ordering
  | field (name : String)
  | nested (name : String)

/-- What a key counts for: the ordering, the field of its name, or the nested field that it
is routed to. -/
inductive CountsFor (definition : Definition) : String → Share → Prop
  | ordering : CountsFor definition definition.constants.orderingField .ordering
  | field {declared : DeclaredField} (hmem : declared ∈ definition.fields)
      (hkind : declared.kind.nested? = none) :
      CountsFor definition declared.name (.field declared.name)
  | nested {field key : String} (hroute : definition.routesTo field key) :
      CountsFor definition key (.nested field)

/-- A key counts for one thing at most. -/
theorem Built.share_unique (hbuilt : definition.Built) {a b : Share}
    (ha : definition.CountsFor key a) (hb : definition.CountsFor key b) : a = b := by
  have hshare : ∀ {share}, definition.CountsFor key share →
      match share with
      | .ordering => definition.route key = .ordering
      | .field name => name = key ∧ ∃ declared, definition.route key = .leaf declared
      | .nested name => ∃ rest, definition.route key = .nested name rest := by
    intro share h
    cases h with
    | ordering => exact route_eq_ordering_iff.2 rfl
    | field hmem hkind => exact ⟨rfl, _, (hbuilt.route_eq_leaf_iff hmem hkind).2 rfl⟩
    | nested hroute => exact routesTo_iff.1 hroute
  have hfirst := hshare ha
  have hsecond := hshare hb
  cases a <;> cases b <;> grind

theorem exists_countsFor (hleads : (definition.route key).leads) :
    ∃ share, definition.CountsFor key share := by
  cases hroute : definition.route key with
  | ordering => exact ⟨.ordering, route_eq_ordering_iff.1 hroute ▸ .ordering⟩
  | leaf declared =>
      obtain ⟨hfield, hkind⟩ := field?_of_route hroute
      exact ⟨.field key, name_of_field? hfield ▸
        .field (List.mem_of_find?_eq_some hfield) hkind⟩
  | nested field rest => exact ⟨.nested field, .nested (routesTo_iff.2 ⟨rest, hroute⟩)⟩
  | bareNested =>
      rw [hroute] at hleads
      cases hleads
  | unknown =>
      rw [hroute] at hleads
      cases hleads

/-! ## The ordering -/

theorem ordering_of_bindParam {param : Param} {later : Filter} {groups more : Groups}
    (hstep : bindParam validate definition (filter, groups) param = .ok (later, more)) :
    later.ordering = if param.key == definition.constants.orderingField
      then orderingEntries param.raw else filter.ordering := by
  have hkey : param.key == definition.constants.orderingField ↔
      definition.route param.key = .ordering := by
    rw [beq_iff_eq, route_eq_ordering_iff]
  obtain ⟨hroute, _, rfl, _⟩ | ⟨declared, value, hroute, _, hset, _⟩ |
    ⟨field, rest, hroute, rfl, _⟩ := bindParam_cases hstep
  · rw [if_pos (hkey.2 hroute)]
  · rw [if_neg (by rw [hkey, hroute]; nofun)]
    exact (Filter.of_set hset).2.1
  · rw [if_neg (by rw [hkey, hroute]; nofun)]

def lastOrdering? (definition : Definition) (params : List Param) : Option (List String) :=
  (Param.given params definition.constants.orderingField).getLast?.map (orderingEntries ·.raw)

theorem ordering_of_bindParams {later : Filter} {groups more : Groups}
    (hsteps : params.foldlM (bindParam validate definition) (filter, groups) =
      .ok (later, more)) :
    later.ordering = (definition.lastOrdering? params).getD filter.ordering := by
  induction params generalizing filter groups with
  | nil =>
      cases hsteps
      rfl
  | cons param rest ih =>
      rw [List.foldlM_cons] at hsteps
      obtain ⟨⟨next, collected⟩, hstep, hrest⟩ := Outcome.bind_eq_ok.1 hsteps
      rw [ih hrest, ordering_of_bindParam hstep]
      unfold lastOrdering? Param.given
      rw [List.filter_cons]
      split
      · rw [List.getLast?_cons]
        cases (rest.filter (·.key == definition.constants.orderingField)).getLast? <;> rfl
      · rfl

theorem ordering_of_bindGroup {later : Filter} {entry : String × List Param}
    (hbind : definition.bindGroup validate filter entry = .ok later) :
    later.ordering = filter.ordering := by
  unfold bindGroup at hbind
  split at hbind
  · obtain ⟨_, _, hassign⟩ := Outcome.bind_eq_ok.1 hbind
    exact (Filter.of_set (Outcome.mapError_eq_ok.1 hassign)).2.1
  · cases hbind
    rfl

theorem ordering_of_bind (hbind : definition.bind validate params = .ok filter) :
    filter.ordering = (definition.lastOrdering? params).getD [] := by
  rw [bind_eq] at hbind
  obtain ⟨⟨first, groups⟩, hfirst, hsecond⟩ := Outcome.bind_eq_ok.1 hbind
  have hkept : filter.ordering = first.ordering :=
    Outcome.foldlM_invariant (fun _ _ _ h hstep => (ordering_of_bindGroup hstep).trans h)
      rfl hsecond
  rw [hkept, ordering_of_bindParams hfirst]
  rfl

/-! ## The fields -/

/-- What parameters make of a filter, field by field. -/
structure Describes (validate : Bool) (definition : Definition) (params : List Param)
    (filter : Filter) : Prop where
  definition_eq : filter.definition = definition
  ordering : filter.ordering =
    match (Param.given params definition.constants.orderingField).getLast? with
    | none => []
    | some param => ((Text.items param.raw).map Text.trim).filter (!·.isEmpty)
  scalar : ∀ declared ∈ definition.fields, declared.kind.nested? = none →
    declared.kind.isList = false →
    match (Param.given params declared.name).getLast? with
    | none => filter.get? declared.name = none
    | some param => ∃ value, declared.kind.read declared.name param.raw = .ok value ∧
        filter.get? declared.name = some value
  list : ∀ declared ∈ definition.fields, ∀ item, declared.kind = .list item →
    ∃ items, ((Param.given params declared.name).flatMap (Text.items ·.raw)).mapM
        (item.readScalar declared.name) = .ok items ∧
      filter.get? declared.name =
        if Param.given params declared.name = [] then none else some (.list items)
  untouched : ∀ declared ∈ definition.fields, ∀ sub, declared.kind = .nested sub →
    params.filter (definition.routesTo declared.name ·.key) = [] →
    filter.get? declared.name = none
  passed : ∀ declared ∈ definition.fields, ∀ sub, declared.kind = .nested sub →
    params.filter (definition.routesTo declared.name ·.key) ≠ [] →
    ∃ group below,
      group.map (Param.under declared.name) =
        params.filter (definition.routesTo declared.name ·.key) ∧
      sub.bind validate group = .ok below ∧ filter.get? declared.name = some (.sub below)

theorem Built.rawsOf_eq_given (hbuilt : definition.Built) {declared : DeclaredField}
    (hmem : declared ∈ definition.fields) (hkind : declared.kind.nested? = none) :
    definition.rawsOf params ⟨[], declared, definition.constants⟩ =
      (Param.given params declared.name).map Param.raw := by
  have hleaf (key : String) :
      definition.leaf? key = some ⟨[], declared, definition.constants⟩ ↔
        key = declared.name := by
    rw [leaf?_eq_some_nil, hbuilt.route_eq_leaf_iff hmem hkind]
    exact and_iff_left rfl
  unfold rawsOf Param.given
  rw [← List.filterMap_eq_map, List.filterMap_filter]
  apply List.filterMap_congr
  intro param _
  simp only [hleaf, beq_iff_eq, Function.comp_apply]

theorem Built.describes_of_bind (hbuilt : definition.Built)
    (hbind : definition.bind validate params = .ok filter) :
    definition.Describes validate params filter := by
  have hregular := hbuilt.regular
  have hbinds := hregular.binds_of_bind hbind
  have hread : ∀ declared ∈ definition.fields, declared.kind.nested? = none →
      declared.readAll ((Param.given params declared.name).map Param.raw) =
        .ok (filter.get? declared.name) := by
    intro declared hmem hkind
    rw [← hbuilt.rawsOf_eq_given hmem hkind]
    exact hbinds.leaf declared.name declared (hregular.field?_of_mem hmem) hkind
  refine ⟨hbinds.definition_eq, ?_, ?_, ?_, ?_, ?_⟩
  · rw [ordering_of_bind hbind]
    unfold lastOrdering? Param.given
    cases (params.filter (·.key == definition.constants.orderingField)).getLast? <;> rfl
  · intro declared hmem hkind hlist
    have hlast := DeclaredField.readAll_of_not_list hlist (hread declared hmem hkind)
    rw [List.getLast?_map] at hlast
    cases hgiven : (Param.given params declared.name).getLast? with
    | none =>
        rw [hgiven] at hlast
        exact hlast
    | some param =>
        rw [hgiven] at hlast
        exact hlast
  · intro declared hmem item hkind
    have hleaf : declared.kind.nested? = none := by rw [hkind]; rfl
    have hitems := DeclaredField.readAll_of_list hkind (hread declared hmem hleaf)
    simpa only [List.flatMap_map, List.map_eq_nil_iff] using hitems
  · intro declared hmem sub hkind hnil
    exact hbinds.untouched declared.name sub (hregular.nested?_of_mem hmem hkind)
      (groupOf_eq_nil_iff.2 hnil)
  · intro declared hmem sub hkind hne
    obtain ⟨below, hbelow, hget⟩ := hbinds.passed declared.name sub
      (hregular.nested?_of_mem hmem hkind) (fun hnil => hne (groupOf_eq_nil_iff.1 hnil))
    exact ⟨_, below, map_under_groupOf definition params declared.name, hbelow, hget⟩

/-! ## Nothing else is held -/

theorem Regular.filter_ext (hregular : definition.Regular) {a b : Filter}
    (ha : a.definition = definition) (hb : b.definition = definition)
    (hordering : a.ordering = b.ordering) (hget : ∀ name, a.get? name = b.get? name) :
    a = b := by
  have hslots : a.slots = b.slots := by
    simp only [hregular.slots_eq ha, hregular.slots_eq hb, hget]
  obtain ⟨hname, _, hconstants⟩ := Definition.mk.inj (ha.trans hb.symm)
  cases a
  cases b
  simp_all

section Unique

variable {a b : Filter} {declared : DeclaredField}
  (ha : definition.Describes validate params a) (hb : definition.Describes validate params b)
  (hmem : declared ∈ definition.fields)

include ha hb hmem

theorem Describes.get?_nested_eq {sub : Definition} (hkind : declared.kind = .nested sub) :
    a.get? declared.name = b.get? declared.name := by
  by_cases hrouted : params.filter (definition.routesTo declared.name ·.key) = []
  · rw [ha.untouched declared hmem sub hkind hrouted, hb.untouched declared hmem sub hkind hrouted]
  · obtain ⟨group, below, hgroup, hbelow, hget⟩ := ha.passed declared hmem sub hkind hrouted
    obtain ⟨other, found, hother, hfound, hget'⟩ := hb.passed declared hmem sub hkind hrouted
    have hsame : other = group := (eq_groupOf hother).trans (eq_groupOf hgroup).symm
    rw [hsame, hbelow] at hfound
    rw [hget, hget', Except.ok.inj hfound]

theorem Describes.get?_list_eq {item : FieldKind} (hkind : declared.kind = .list item) :
    a.get? declared.name = b.get? declared.name := by
  obtain ⟨items, hitems, hget⟩ := ha.list declared hmem item hkind
  obtain ⟨others, hothers, hget'⟩ := hb.list declared hmem item hkind
  rw [hitems] at hothers
  rw [hget, hget', Except.ok.inj hothers]

theorem Describes.get?_scalar_eq (hkind : declared.kind.nested? = none)
    (hlist : declared.kind.isList = false) : a.get? declared.name = b.get? declared.name := by
  have hfirst := ha.scalar declared hmem hkind hlist
  have hsecond := hb.scalar declared hmem hkind hlist
  cases hlast : (Param.given params declared.name).getLast? with
  | none =>
      rw [hlast] at hfirst hsecond
      exact hfirst.trans hsecond.symm
  | some param =>
      rw [hlast] at hfirst hsecond
      obtain ⟨value, hvalue, hget⟩ := hfirst
      obtain ⟨other, hother, hget'⟩ := hsecond
      rw [hvalue] at hother
      rw [hget, hget', Except.ok.inj hother]

end Unique

/-- Parameters describe one filter. -/
theorem Describes.unique (hregular : definition.Regular) {a b : Filter}
    (ha : definition.Describes validate params a) (hb : definition.Describes validate params b) :
    a = b := by
  apply hregular.filter_ext ha.definition_eq hb.definition_eq
  · rw [ha.ordering, hb.ordering]
  intro name
  by_cases hname : ∃ declared ∈ definition.fields, declared.name = name
  · obtain ⟨declared, hmem, rfl⟩ := hname
    cases hkind : declared.kind with
    | nested sub => exact ha.get?_nested_eq hb hmem hkind
    | list item => exact ha.get?_list_eq hb hmem hkind
    | _ => exact ha.get?_scalar_eq hb hmem (by rw [hkind]; rfl) (by rw [hkind]; rfl)
  · have hundeclared : ∀ {filter : Filter}, filter.definition = definition →
        filter.get? name = none := by
      intro filter hdefinition
      by_contra hget
      obtain ⟨value, hvalue⟩ := Option.ne_none_iff_exists'.1 hget
      obtain ⟨declared, _, hfield⟩ := hregular.field?_of_get? hdefinition hvalue
      exact hname ⟨declared, hregular.field?_eq_some_iff.1 hfield⟩
    rw [hundeclared ha.definition_eq, hundeclared hb.definition_eq]

/-- A bound filter is the one filter that its parameters describe, and each of them counts for
exactly one of the things that the filter is told by. -/
theorem Built.bind_describes (hbuilt : definition.Built)
    (hbind : definition.bind validate params = .ok filter) :
    (definition.Describes validate params filter ∧
        ∀ other, definition.Describes validate params other → other = filter) ∧
      (∀ param ∈ params, ∃ share, definition.CountsFor param.key share) ∧
      ∀ key first second, definition.CountsFor key first → definition.CountsFor key second →
        first = second := by
  have hdescribes := hbuilt.describes_of_bind hbind
  refine ⟨⟨hdescribes, fun other hother => hother.unique hbuilt.regular hdescribes⟩, ?_, ?_⟩
  · intro param hmem
    exact exists_countsFor ((hbuilt.regular.binds_of_bind hbind).leads param hmem)
  · intro key first second hfirst hsecond
    exact hbuilt.share_unique hfirst hsecond

/-! ## An article by a writer -/

namespace Sample

def writerDraft : Draft :=
  { name := "Writer", fields := [⟨"name", none⟩] }

def writer : Definition :=
  ⟨"Writer", [⟨.plain "name", .string⟩], {}⟩

def articleDraft : Draft :=
  { name := "Article",
    fields := [⟨"title", none⟩, ⟨"tag__in", none⟩, ⟨"writer", some (.nested writer)⟩] }

def article : Definition :=
  ⟨"Article",
    [⟨.plain "title", .string⟩, ⟨⟨"tag__in", "tag", some .among⟩, .list .string⟩,
      ⟨.plain "writer", .nested writer⟩], {}⟩

theorem writer_built : writer.Built := by
  have hbuild : writerDraft.build = .ok writer := by rfl
  refine .of_draft hbuild ?_
  intro field hmem sub hkind
  cases List.mem_singleton.1 hmem
  cases hkind

theorem article_built : article.Built := by
  have hbuild : articleDraft.build = .ok article := by rfl
  refine .of_draft hbuild ?_
  intro field hmem sub hkind
  simp only [articleDraft, List.mem_cons, List.not_mem_nil, or_false] at hmem
  rcases hmem with rfl | rfl | rfl <;> cases hkind
  exact writer_built

def noteDraft : Draft :=
  { name := "Note", fields := [⟨"gone__isnull", none⟩, ⟨"writer", some (.nested writer)⟩] }

def note : Definition :=
  ⟨"Note", [⟨⟨"gone__isnull", "gone", some .isNull⟩, .boolean⟩,
    ⟨.plain "writer", .nested writer⟩], {}⟩

theorem note_built : note.Built := by
  have hbuild : noteDraft.build = .ok note := by rfl
  refine .of_draft hbuild ?_
  intro field hmem sub hkind
  simp only [noteDraft, List.mem_cons, List.not_mem_nil, or_false] at hmem
  rcases hmem with rfl | rfl <;> cases hkind
  exact writer_built

def writerParams : List Param :=
  [⟨"name", "ann"⟩, ⟨"order_by", "name"⟩]

def articleParams : List Param :=
  [⟨"order_by", "title"⟩, ⟨"tag__in", "a,b"⟩, ⟨"writer__name", "ann"⟩, ⟨"title", "one"⟩,
    ⟨"order_by", "-title, ,title"⟩, ⟨"tag__in", "c"⟩, ⟨"title", "two"⟩,
    ⟨"writer__order_by", "name"⟩]

def writerFilter : Filter :=
  ⟨"Writer", [⟨⟨.plain "name", .string⟩, some (.scalar (.string "ann"))⟩], {}, ["name"]⟩

def articleWith (below : Option Value) : Filter :=
  ⟨"Article",
    [⟨⟨.plain "title", .string⟩, some (.scalar (.string "two"))⟩,
      ⟨⟨⟨"tag__in", "tag", some .among⟩, .list .string⟩,
        some (.list [.string "a", .string "b", .string "c"])⟩,
      ⟨⟨.plain "writer", .nested writer⟩, below⟩], {}, ["-title", "title"]⟩

theorem article_bound :
    article.bind true articleParams = .ok (articleWith (some (.sub writerFilter))) := by
  have hwriter : writer.bind true writerParams = .ok writerFilter := bind_of_groups rfl rfl
  have hfirst : articleParams.foldlM (bindParam true article) (.blank article, []) =
      .ok (articleWith none, [("writer", writerParams)]) := by rfl
  have hassign : (articleWith none).assign "writer" (.sub writerFilter) =
      .ok (articleWith (some (.sub writerFilter))) := by rfl
  refine bind_of_groups hfirst ?_
  rw [List.foldlM_cons, bindGroup_of_bind rfl hwriter, hassign]
  rfl

/-- The last title and the last ordering count, and the tags of both lists. -/
theorem article_described :
    article.Built ∧
      article.bind true articleParams = .ok (articleWith (some (.sub writerFilter))) ∧
      article.Describes true articleParams (articleWith (some (.sub writerFilter))) :=
  ⟨article_built, article_bound, (article_built.bind_describes article_bound).1.1⟩

end Sample

end Definition

end FilterQuery
