import FilterQuery.Proofs.Conditions.Depth
import FilterQuery.Proofs.Filter.Pruning
import FilterQuery.Proofs.Json.Objects
/-!
# Filters told by their JSON form

A truth value may be held as such or as a JSON value, a list likewise, and no value may be held
as a null.  The plain form of a filter holds JSON values only.  It shows everything that the
conditions of the filter hang on, and filters of one definition have the same plain form exactly
when they have the same JSON form.
-/

namespace FilterQuery

mutual

/-- A value as a JSON value, and a null as none.  A sub-filter stays one. -/
def Value.plain? : Value → Option Value
  | .scalar .null => none
  | .sub filter => some (.sub filter.plain)
  | value => some (.scalar value.toJson)

def Slot.plain : List Slot → List Slot
  | [] => []
  | ⟨declared, none⟩ :: rest => ⟨declared, none⟩ :: Slot.plain rest
  | ⟨declared, some value⟩ :: rest => ⟨declared, value.plain?⟩ :: Slot.plain rest

/-- A filter with JSON values only, at every level, and without an ordering. -/
def Filter.plain : Filter → Filter
  | ⟨name, slots, constants, _⟩ => ⟨name, Slot.plain slots, constants, []⟩

end

/-! ## Values that stand for themselves -/

section Leaf

variable {value : Value} (hleaf : value.isLeaf)

include hleaf

theorem Value.plain?_of_isLeaf : value.plain? = some (.scalar value.toJson) := by
  cases value with
  | scalar json => cases json <;> simp_all [Value.isLeaf, Value.plain?]
  | list items => rfl
  | bool b => rfl
  | sub filter => cases hleaf

theorem Value.isLeaf_toJson : (Value.scalar value.toJson).isLeaf := by
  cases value with
  | scalar json => exact hleaf
  | list items => rfl
  | bool b => rfl
  | sub filter => cases hleaf

theorem Operator.expression?_toJson (operator : Operator) :
    operator.expression? (.scalar value.toJson) = operator.expression? value := by
  cases value with
  | scalar json => rfl
  | list items => cases operator <;> rfl
  | bool b => cases operator <;> rfl
  | sub filter => cases hleaf

theorem DeclaredField.condition?_toJson (declared : DeclaredField) (constants : Constants) :
    declared.condition? constants (.scalar value.toJson) =
      declared.condition? constants value := by
  have hsearch (paths : List String) :
      Predicate.search paths (.scalar value.toJson) = Predicate.search paths value := by
    cases value with
    | scalar json => rfl
    | list items => rfl
    | bool b => rfl
    | sub filter => cases hleaf
  unfold DeclaredField.condition?
  cases declared.field.operator with
  | some operator => simp only [operator.expression?_toJson hleaf]
  | none => rw [hsearch]; rfl

end Leaf

/-! ## The slots of the plain form -/

namespace Slot

variable (declared : DeclaredField) (rest : List Slot)

@[simp] theorem plain_nil : Slot.plain [] = [] := rfl

@[simp] theorem plain_unset :
    Slot.plain (⟨declared, none⟩ :: rest) = ⟨declared, none⟩ :: Slot.plain rest := rfl

@[simp] theorem plain_null :
    Slot.plain (⟨declared, some (.scalar .null)⟩ :: rest) =
      ⟨declared, none⟩ :: Slot.plain rest := rfl

theorem plain_leaf {value : Value} (hleaf : value.isLeaf) :
    Slot.plain (⟨declared, some value⟩ :: rest) =
      ⟨declared, some (.scalar value.toJson)⟩ :: Slot.plain rest := by
  rw [Slot.plain, Value.plain?_of_isLeaf hleaf]

@[simp] theorem plain_sub (sub : Filter) :
    Slot.plain (⟨declared, some (.sub sub)⟩ :: rest) =
      ⟨declared, some (.sub sub.plain)⟩ :: Slot.plain rest := rfl

theorem plain_eq_map (slots : List Slot) :
    Slot.plain slots = slots.map fun slot => ⟨slot.declared, slot.value.bind Value.plain?⟩ := by
  induction slots with
  | nil => rfl
  | cons slot rest ih =>
      obtain ⟨declared, _ | value⟩ := slot
      · rw [plain_unset, ih]
        rfl
      · rw [Slot.plain, ih]
        rfl

theorem entries_eq (slots : List Slot) :
    Slot.entries slots = slots.filterMap fun slot =>
      slot.set?.map fun value => (slot.name, value.toJson) := by
  induction slots with
  | nil => rfl
  | cons slot rest ih =>
      obtain ⟨declared, _ | value⟩ := slot
      · rw [Slot.entries, ih]
        rfl
      · rw [Slot.entries, ih]
        by_cases hnull : value.isNull
        · simp [Slot.set?, hnull]
        · simp [Slot.set?, hnull, Slot.name]

end Slot

namespace Filter

/-! ## What the plain form shows -/

theorem toJson_plain (filter : Filter) : filter.plain.toJson = filter.toJson := by
  refine Filter.induction (P := fun filter => filter.plain.toJson = filter.toJson)
    (Q := fun slots => Slot.entries (Slot.plain slots) = Slot.entries slots)
    ?filter ?nil ?unset ?null ?leaf ?sub filter
  case filter =>
    intro name slots constants ordering hslots
    rw [plain, toJson, toJson, hslots]
  case nil => rfl
  case unset =>
    intro declared rest ih
    exact ih
  case null =>
    intro declared rest ih
    exact ih
  case leaf =>
    intro declared value rest hleaf ih
    rw [Slot.plain_leaf _ _ hleaf, Slot.entries, Slot.entries, ih,
      Value.isNull_of_isLeaf hleaf, Value.isNull_of_isLeaf (Value.isLeaf_toJson hleaf)]
    rfl
  case sub =>
    intro declared sub rest hsub ih
    rw [Slot.plain_sub, Slot.entries, Slot.entries, ih, Value.toJson, Value.toJson, hsub]
    rfl

theorem isEmpty_plain (filter : Filter) : filter.plain.isEmpty = filter.isEmpty := by
  refine Filter.induction (P := fun filter => filter.plain.isEmpty = filter.isEmpty)
    (Q := fun slots => Slot.allVoid (Slot.plain slots) = Slot.allVoid slots)
    ?filter ?nil ?unset ?null ?leaf ?sub filter
  case filter =>
    intro name slots constants ordering hslots
    rwa [plain, isEmpty, isEmpty]
  case nil => rfl
  case unset =>
    intro declared rest ih
    exact ih
  case null =>
    intro declared rest ih
    simpa [Slot.allVoid, Value.isVoid] using ih
  case leaf =>
    intro declared value rest hleaf _
    rw [Slot.plain_leaf _ _ hleaf, Slot.allVoid, Slot.allVoid, Value.isVoid_of_isLeaf hleaf,
      Value.isVoid_of_isLeaf (Value.isLeaf_toJson hleaf), Bool.false_and, Bool.false_and]
  case sub =>
    intro declared sub rest hsub ih
    rw [Slot.plain_sub, Slot.allVoid, Slot.allVoid, Value.isVoid, Value.isVoid, hsub, ih]

/-- The plain form has the same conditions, or none for the same reason. -/
theorem conditions_plain (limit : Nat) (filter : Filter) : ∀ depth,
    filter.plain.conditions limit depth = filter.conditions limit depth := by
  refine Filter.induction
    (P := fun filter => ∀ depth, filter.plain.conditions limit depth =
      filter.conditions limit depth)
    (Q := fun slots => ∀ depth constants, Slot.conditions limit depth constants
      (Slot.plain slots) = Slot.conditions limit depth constants slots)
    ?filter ?nil ?unset ?null ?leaf ?sub filter
  case filter =>
    intro name slots constants ordering hslots depth
    rw [plain, conditions, conditions, hslots]
  case nil =>
    intro depth constants
    rfl
  case unset =>
    intro declared rest ih depth constants
    exact ih depth constants
  case null =>
    intro declared rest ih depth constants
    rw [Slot.plain_null, Slot.conditions_unset, Slot.conditions_null, ih]
  case leaf =>
    intro declared value rest hleaf ih depth constants
    rw [Slot.plain_leaf _ _ hleaf, Slot.conditions_leaf _ _ _ _ _ hleaf,
      Slot.conditions_leaf _ _ _ _ _ (Value.isLeaf_toJson hleaf),
      declared.condition?_toJson hleaf, ih]
  case sub =>
    intro declared sub rest hsub ih depth constants
    have hbelow : sub.plain.linkedConditions limit declared.name depth =
        sub.linkedConditions limit declared.name depth := by
      rw [linkedConditions, linkedConditions, isEmpty_plain, hsub]
    rw [Slot.plain_sub, Slot.conditions_sub, Slot.conditions_sub, hbelow, ih]

theorem wordConditions_plain (limit : UInt32) (filter : Filter) : ∀ depth,
    filter.plain.wordConditions limit depth = filter.wordConditions limit depth := by
  refine Filter.induction
    (P := fun filter => ∀ depth, filter.plain.wordConditions limit depth =
      filter.wordConditions limit depth)
    (Q := fun slots => ∀ depth constants, Slot.wordConditions limit depth constants
      (Slot.plain slots) = Slot.wordConditions limit depth constants slots)
    ?filter ?nil ?unset ?null ?leaf ?sub filter
  case filter =>
    intro name slots constants ordering hslots depth
    rw [plain, wordConditions, wordConditions, hslots]
  case nil =>
    intro depth constants
    rfl
  case unset =>
    intro declared rest ih depth constants
    exact ih depth constants
  case null =>
    intro declared rest ih depth constants
    rw [Slot.plain_null, Slot.wordConditions_unset, Slot.wordConditions_null, ih]
  case leaf =>
    intro declared value rest hleaf ih depth constants
    rw [Slot.plain_leaf _ _ hleaf, Slot.wordConditions_leaf _ _ _ _ _ hleaf,
      Slot.wordConditions_leaf _ _ _ _ _ (Value.isLeaf_toJson hleaf),
      declared.condition?_toJson hleaf, ih]
  case sub =>
    intro declared sub rest hsub ih depth constants
    have hbelow : (Value.sub sub.plain).wordConditions limit depth constants declared =
        (Value.sub sub).wordConditions limit depth constants declared := by
      rw [Value.wordConditions, Value.wordConditions, isEmpty_plain]
      simp only [hsub]
    rw [Slot.plain_sub, Slot.wordConditions, Slot.wordConditions, hbelow, ih]

/-! ## What the JSON form shows -/

variable {definition : Definition} {filter a b : Filter}

def json? (filter : Filter) (name : String) : Option Json :=
  ((filter.get? name).filter (!·.isNull)).map Value.toJson

theorem toJson_eq (filter : Filter) :
    filter.toJson = .object (filter.setFields.map fun entry => (entry.1.name, entry.2.toJson)) := by
  obtain ⟨name, slots, constants, ordering⟩ := filter
  rw [toJson, Slot.entries_eq, setFields, List.map_filterMap]
  simp only [Option.map_map]
  rfl

end Filter

namespace Definition

variable {definition : Definition} {filter a b : Filter}

theorem Regular.entries_eq (hregular : definition.Regular)
    (hdefinition : filter.definition = definition) :
    (filter.setFields.map fun entry => (entry.1.name, entry.2.toJson)) =
      definition.fields.filterMap fun declared =>
        (filter.json? declared.name).map (declared.name, ·) := by
  rw [hregular.setFields_eq hdefinition, List.map_filterMap]
  simp only [Filter.json?, Option.map_map]
  rfl

theorem Regular.keys_nodup (hregular : definition.Regular)
    (hdefinition : filter.definition = definition) :
    ((filter.setFields.map fun entry => (entry.1.name, entry.2.toJson)).map Prod.fst).Nodup := by
  rw [hregular.entries_eq hdefinition]
  exact hregular.names_nodup.sublist (Lists.keys_sublist _)

theorem Regular.slot_mem (hregular : definition.Regular)
    (hdefinition : filter.definition = definition)
    {declared : DeclaredField} (hmem : declared ∈ definition.fields) {value : Value}
    (hget : filter.get? declared.name = some value) :
    (⟨declared, some value⟩ : Slot) ∈ filter.slots := by
  rw [hregular.slots_eq hdefinition, ← hget]
  exact List.mem_map_of_mem hmem

theorem Regular.json?_eq (hregular : definition.Regular) (ha : a.definition = definition)
    (hb : b.definition = definition) (hjson : a.toJson = b.toJson) {declared : DeclaredField}
    (hmem : declared ∈ definition.fields) : a.json? declared.name = b.json? declared.name := by
  rw [a.toJson_eq, b.toJson_eq] at hjson
  have hperm := Json.perm_of_object_eq (hregular.keys_nodup ha) (hregular.keys_nodup hb) hjson
  have hfind := Lists.find?_perm hperm (hregular.keys_nodup ha) declared.name
  rw [hregular.entries_eq ha, hregular.entries_eq hb, Lists.find?_held _ hregular.names_nodup hmem,
    Lists.find?_held _ hregular.names_nodup hmem] at hfind
  exact Option.map_injective (fun _ _ heq => (Prod.mk.inj heq).2) hfind

end Definition

namespace Value

variable {kind : FieldKind} {v w : Value}

theorem sub?_eq_some_iff {filter : Filter} : v.sub? = some filter ↔ v = .sub filter := by
  cases v <;> simp [sub?]

theorem isLeaf_of_sub?_eq_none (hset : v.isNull = false) (hsub : v.sub? = none) : v.isLeaf := by
  rcases v.isLeaf_cases with rfl | ⟨filter, rfl⟩ | hleaf
  · cases hset
  · cases hsub
  · exact hleaf

theorem bind_plain? (held : Option Value) :
    held.bind plain? = (held.filter (!·.isNull)).bind plain? := by
  cases held with
  | none => rfl
  | some value =>
      by_cases hnull : value.isNull
      · rw [isNull_iff.1 hnull]
        rfl
      · simp [Option.filter, hnull]

theorem plain?_eq_of_toJson (hv : kind.MayHold v) (hw : kind.MayHold w)
    (hsetv : v.isNull = false) (hsetw : w.isNull = false) (hjson : v.toJson = w.toJson)
    (hsubs : ∀ f g, v = .sub f → w = .sub g → f.toJson = g.toJson → f.plain = g.plain) :
    v.plain? = w.plain? := by
  have hsame : v.sub?.map Filter.definition = w.sub?.map Filter.definition := hv.trans hw.symm
  cases hsubv : v.sub? with
  | some f =>
      cases hsubw : w.sub? with
      | some g =>
          obtain rfl := sub?_eq_some_iff.1 hsubv
          obtain rfl := sub?_eq_some_iff.1 hsubw
          rw [plain?, plain?, hsubs f g rfl rfl hjson]
      | none => simp [hsubv, hsubw] at hsame
  | none =>
      have hsubw : w.sub? = none := by simpa [hsubv] using hsame.symm
      rw [plain?_of_isLeaf (isLeaf_of_sub?_eq_none hsetv hsubv),
        plain?_of_isLeaf (isLeaf_of_sub?_eq_none hsetw hsubw), hjson]

end Value

namespace Filter

variable {definition : Definition} {a b : Filter}

theorem plain_eq_of_slots (hdefinition : a.definition = b.definition)
    (hslots : Slot.plain a.slots = Slot.plain b.slots) : a.plain = b.plain := by
  obtain ⟨hname, _, hconstants⟩ := Definition.mk.inj hdefinition
  cases a
  cases b
  simp_all [plain]

/-- Filters of one definition with one JSON form are alike, at every level. -/
theorem Sound.plain_eq_of_toJson (hbuilt : definition.Built) (ha : a.Sound) (hb : b.Sound)
    (hdefa : a.definition = definition) (hdefb : b.definition = definition)
    (hjson : a.toJson = b.toJson) : a.plain = b.plain := by
  induction definition using Definition.nestedInduction generalizing a b with
  | step definition ih =>
      have hregular := hbuilt.regular
      obtain ⟨hholdsa, hbelowa⟩ := ha
      obtain ⟨hholdsb, hbelowb⟩ := hb
      refine plain_eq_of_slots (hdefa.trans hdefb.symm) ?_
      rw [Slot.plain_eq_map, Slot.plain_eq_map, hregular.slots_eq hdefa,
        hregular.slots_eq hdefb, List.map_map, List.map_map]
      refine List.map_congr_left fun declared hmem => congrArg (Slot.mk declared) ?_
      have hshown := hregular.json?_eq hdefa hdefb hjson hmem
      unfold json? at hshown
      show (a.get? declared.name).bind Value.plain? = (b.get? declared.name).bind Value.plain?
      rw [Value.bind_plain?, Value.bind_plain? (b.get? declared.name)]
      cases hv : (a.get? declared.name).filter (!·.isNull) with
      | none =>
          rw [hv, Option.map_none, eq_comm, Option.map_eq_none_iff] at hshown
          rw [hshown]
      | some v =>
          rw [hv, Option.map_some, eq_comm, Option.map_eq_some_iff] at hshown
          obtain ⟨w, hw, hsame⟩ := hshown
          obtain ⟨hgetv, hsetv⟩ := Option.filter_eq_some_iff.1 hv
          obtain ⟨hgetw, hsetw⟩ := Option.filter_eq_some_iff.1 hw
          have hslotv := hregular.slot_mem hdefa hmem hgetv
          have hslotw := hregular.slot_mem hdefb hmem hgetw
          rw [hw]
          refine Value.plain?_eq_of_toJson (hholdsa _ hslotv v rfl) (hholdsb _ hslotw w rfl)
            (by simpa using hsetv) (by simpa using hsetw) hsame.symm ?_
          -- Of two sub-filters both have the definition behind the field, so the law holds below.
          rintro f g rfl rfl hjson
          have hdeff : declared.kind.nested? = some f.definition := (hholdsa _ hslotv _ rfl).symm
          have hdefg : declared.kind.nested? = some g.definition := (hholdsb _ hslotw _ rfl).symm
          have hnested : definition.nested? declared.name = some f.definition :=
            (Definition.nested?_of_field? (hregular.field?_of_mem hmem)).trans hdeff
          have hdefinitions : g.definition = f.definition :=
            Option.some.inj (hdefg.symm.trans hdeff)
          exact ih declared.name f.definition hnested (hbuilt.of_nested? hnested)
            (hbelowa _ hslotv f rfl) (hbelowb _ hslotw g rfl) rfl hdefinitions hjson

/-- The JSON form of a filter has one entry for each set field.  It tells the plain form and is told
by it, and everything that the conditions hang on: filters of one definition with one JSON form have
the same conditions, or none for the same reason, whether levels are words or not. -/
theorem Made.told_by_json (ha : a.Made) (hb : b.Made) (hdefinition : a.definition = b.definition) :
    (∃ entries, a.toJson = .fields entries ∧ (entries.map Prod.fst).Nodup ∧
      entries.Perm (a.setFields.map fun entry => (entry.1.name, entry.2.toJson))) ∧
    (a.toJson = b.toJson ↔ a.plain = b.plain) ∧
    (∀ limit depth, a.plain.conditions limit depth = a.conditions limit depth) ∧
    (∀ limit depth, a.plain.wordConditions limit depth = a.wordConditions limit depth) ∧
    (a.toJson = b.toJson →
      (∀ limit depth, a.conditions limit depth = b.conditions limit depth) ∧
      ∀ limit depth, a.wordConditions limit depth = b.wordConditions limit depth) := by
  have hplain (hjson : a.toJson = b.toJson) : a.plain = b.plain :=
    ha.sound.plain_eq_of_toJson ha.built hb.sound rfl hdefinition.symm hjson
  refine ⟨?_, ⟨hplain, ?_⟩, fun limit depth => conditions_plain limit a depth,
    fun limit depth => wordConditions_plain limit a depth, ?_⟩
  · have hkeys : ((a.setFields.map fun entry => (entry.1.name, entry.2.toJson)).map
        Prod.fst).Nodup := ha.built.regular.keys_nodup rfl
    obtain ⟨entries, hentries, hperm⟩ := Json.object_eq hkeys
    exact ⟨entries, a.toJson_eq.trans hentries, (hperm.map Prod.fst).nodup_iff.2 hkeys, hperm⟩
  · intro hsame
    rw [← toJson_plain a, hsame, toJson_plain]
  · intro hjson
    constructor
    · intro limit depth
      rw [← conditions_plain, hplain hjson, conditions_plain]
    · intro limit depth
      rw [← wordConditions_plain, hplain hjson, wordConditions_plain]

end Filter

/-! ## An article held in two ways -/

namespace Definition.Sample

def annsWriter : Filter :=
  (Filter.blank writer).afterAll [.set "name" (.scalar (.string "ann"))]

def listArticle : Filter :=
  (Filter.blank article).afterAll
    [.set "tag__in" (.list [.string "a"]), .set "title" (.scalar .null),
      .set "writer" (.sub annsWriter)]

def scalarArticle : Filter :=
  (Filter.blank article).afterAll
    [.set "writer" (.sub annsWriter), .set "tag__in" (.scalar (.array [.string "a"]))]

theorem annsWriter_made : annsWriter.Made := by
  refine .of_calls writer_built ?_
  intro call hmem sub hvalue
  cases List.mem_singleton.1 hmem
  cases hvalue

theorem listArticle_made : listArticle.Made := by
  refine .of_calls article_built ?_
  intro call hmem sub hvalue
  simp only [List.mem_cons, List.not_mem_nil, or_false] at hmem
  rcases hmem with rfl | rfl | rfl <;> cases hvalue
  exact annsWriter_made

theorem scalarArticle_made : scalarArticle.Made := by
  refine .of_calls article_built ?_
  intro call hmem sub hvalue
  simp only [List.mem_cons, List.not_mem_nil, or_false] at hmem
  rcases hmem with rfl | rfl <;> cases hvalue
  exact annsWriter_made

theorem article_told_by_json :
    listArticle.Made ∧ scalarArticle.Made ∧ listArticle.definition = scalarArticle.definition ∧
      listArticle.toJson = scalarArticle.toJson ∧ listArticle.plain = scalarArticle.plain ∧
      (∃ conditions, listArticle.conditions 2 1 = .ok conditions ∧ conditions.length = 3) ∧
      listArticle.conditions 2 1 = scalarArticle.conditions 2 1 := by
  have hdefinition : listArticle.definition = scalarArticle.definition := by rfl
  have hjson : listArticle.toJson = scalarArticle.toJson := by rfl
  obtain ⟨-, hplain, -, -, hsame⟩ := listArticle_made.told_by_json scalarArticle_made hdefinition
  exact ⟨listArticle_made, scalarArticle_made, hdefinition, hjson, hplain.1 hjson,
    ⟨_, rfl, rfl⟩, (hsame hjson).1 2 1⟩

end Definition.Sample

end FilterQuery
