import FilterQuery.Proofs.Schema.Loading
/-!
# A document by itself

A document that is the only one of its text can be loaded as one definition or as the
definitions of the text.  The first looks its references up among the known definitions before
it builds; the second goes down them as it does for any number of documents.  Where the name of
the document is new and no reference is to the document itself, no reference leads to an outline,
and the two come to the same: the same definition, or the same fault.
-/

namespace FilterQuery

def Registry.entries (known : Registry) (names : List String) : Schema.Resolved :=
  names.filterMap fun name => (known.get? name).map (name, ·)

theorem Registry.lookup_entries (known : Registry) (names : List String) (name : String) :
    (known.entries names).lookup name = if name ∈ names then known.get? name else none := by
  unfold Registry.entries
  induction names with
  | nil => rfl
  | cons head rest ih =>
      cases hget : known.get? head with
      | none =>
          rw [List.filterMap_cons_none (by rw [hget]; rfl), ih]
          by_cases hname : name = head
          · simp [hname, hget]
          · simp [hname]
      | some definition =>
          rw [List.filterMap_cons_some (by rw [hget]; rfl), Lists.lookup_cons, ih]
          by_cases hname : name = head
          · simp [hname, hget]
          · simp [hname]

namespace Yaml

theorem values?_of_value? {text : String} {value : Value} (hvalue : value? text = some value)
    (hset : value.isNull = false) : values? text = some [value] := by
  obtain ⟨document, hdocument, hvalue⟩ := Option.bind_eq_some_iff.1 hvalue
  obtain ⟨documents, hdocuments, hone⟩ := Option.bind_eq_some_iff.1 hdocument
  have hall : documents.mapM Document.value? = some [value] := by
    match documents with
    | [] =>
        have hempty : (Document.ofRoot? .empty).bind Document.value? = some .null := by rfl
        have hroot : Document.ofRoot? .empty = some document := hone
        rw [hroot, Option.bind_some, hvalue] at hempty
        cases hempty
        cases hset
    | [found] =>
        cases hone
        rw [List.mapM_cons, hvalue]
        rfl
    | _ :: _ :: _ => cases hone
  rw [values?, hdocuments, Option.bind_eq_bind, Option.bind_some, hall]
  simp [hset]

end Yaml

namespace Schema

variable {known : Registry} {outline : Outline} {document : Yaml.Value}

theorem resolveAll_alone {names : List String} (hself : outline.name ∉ names) (filter : String)
    (chain : List String) (resolved : Resolved) :
    resolveAll [outline] known filter names chain resolved =
      match names.find? (!known.contains ·) with
      | some reference => .error (.unknownReference filter reference)
      | none => .ok (known.entries names, resolved) := by
  induction names with
  | nil => exact resolveAll_nil
  | cons name rest ih =>
      obtain ⟨hname, hrest⟩ := not_or.1 (mt List.mem_cons.2 hself)
      have hnew : outline? [outline] name = none := by simp [outline?, hname]
      rw [resolveAll_cons, List.find?_cons, Registry.contains_eq_isSome_get?]
      cases hget : known.get? name with
      | none =>
          rw [resolve_unknown hnew hget]
          rfl
      | some definition =>
          rw [resolve_known hnew hget]
          have hentries : known.entries (name :: rest) = (name, definition) :: known.entries rest :=
            List.filterMap_cons_some (by rw [hget]; rfl)
          simp only [bind, Except.bind, ih hrest, Option.isSome_some, Bool.not_true, hentries]
          cases rest.find? (!known.contains ·) <;> rfl

theorem resolve_alone (hself : outline.name ∉ outline.references) :
    resolve [outline] known outline.name outline.name [] [] =
      (fun definition => (definition, [(outline.name, definition)])) <$>
        outline.resolveIn known := by
  have hfind : outline? [outline] outline.name = some outline := by simp [outline?]
  rw [resolve_outline hfind rfl List.not_mem_nil, resolveAll_alone hself, Outline.resolveIn]
  cases outline.references.find? (!known.contains ·) with
  | some reference => rfl
  | none =>
      have hbuild : outline.build (fun reference =>
          (known.entries outline.references).lookup reference) = outline.build known.get? := by
        apply Outline.build_congr
        intro reference hmem
        rw [Registry.lookup_entries, if_pos hmem]
      simp only [bind, Except.bind, hbuild]
      cases outline.build known.get? <;> rfl

theorem register_alone (hself : outline.name ∉ outline.references) :
    register [outline] known [outline] [] {} =
      (fun definition => ⟨[definition]⟩) <$> outline.resolveIn known := by
  rw [register, resolve_alone hself]
  cases outline.resolveIn known <;> rfl

/-- A document loads as the definition of its own and as the documents that are it alone, to the
same effect. -/
theorem ofDocuments_alone
    (halone : ∀ outline, Outline.ofValue document = .ok outline →
      outline.name ∉ known.names ∧ outline.name ∉ outline.references) :
    ofDocuments known [document] =
      (fun definition => ⟨[definition]⟩) <$> ofDocument known document := by
  unfold ofDocuments ofDocument outlines
  cases houtline : Outline.ofValue document with
  | error cause => rfl
  | ok outline =>
      obtain ⟨hnew, hself⟩ := halone outline houtline
      simp only [bind, Except.bind, outline?, List.find?_nil, Option.isSome_none,
        Registry.contains_eq_false_iff.2 hnew, Bool.or_self]
      exact register_alone hself

/-- A text with one document that is not null, whose name is new and which does not refer to
itself, loads as one definition exactly where it loads as the definitions of its documents, which
are then that one; and otherwise both fail alike. -/
theorem load_iff_loadAll {text : String} (htext : Yaml.value? text = some document)
    (hset : document.isNull = false)
    (halone : ∀ outline, Outline.ofValue document = .ok outline →
      outline.name ∉ known.names ∧ outline.name ∉ outline.references) :
    Yaml.values? text = some [document] ∧
      (∀ definition, load known text = .ok definition ↔
        ∃ registry, loadAll known text = .ok registry ∧
          registry.names = [definition.name] ∧
          registry.get? definition.name = some definition) ∧
      ∀ cause, load known text = .error cause ↔ loadAll known text = .error cause := by
  have hvalues := Yaml.values?_of_value? htext hset
  have hload : load known text = ofDocument known document := by rw [load, htext]
  have hloadAll : loadAll known text =
      (fun definition => ⟨[definition]⟩) <$> ofDocument known document := by
    rw [← ofDocuments_alone halone, loadAll, documents, hvalues]
    rfl
  refine ⟨hvalues, ?_, ?_⟩
  · intro definition
    rw [hload, hloadAll]
    constructor
    · intro hok
      exact ⟨⟨[definition]⟩, Outcome.map_eq_ok.2 ⟨definition, hok, rfl⟩, rfl,
        by simp [Registry.get?]⟩
    · rintro ⟨registry, hregistry, hnames, hget⟩
      obtain ⟨found, hok, rfl⟩ := Outcome.map_eq_ok.1 hregistry
      have hname : found.name = definition.name := (List.cons.inj hnames).1
      have hfound : found = definition := by simpa [Registry.get?, hname] using hget
      rw [hok, hfound]
  · intro cause
    rw [hload, hloadAll, Outcome.map_eq_error]

/-! ## A shop with a known owner -/

namespace Sample

open Yaml

def owner : Definition := ⟨"Owner", [⟨.plain "name", .string⟩], {}⟩

def shop : Definition := ⟨"Shop", [⟨.plain "owner", .nested owner⟩], {}⟩

def shopText : String := "filter: {name: Shop, fields: [{name: owner, nested: Owner}]}"

def shopTokens : List Token :=
  [.blockMappingStart, .key, .scalar .plain "filter", .value, .flowMappingStart,
    .key, .scalar .plain "name", .value, .scalar .plain "Shop", .flowEntry,
    .key, .scalar .plain "fields", .value, .flowSequenceStart, .flowMappingStart,
    .key, .scalar .plain "name", .value, .scalar .plain "owner", .flowEntry,
    .key, .scalar .plain "nested", .value, .scalar .plain "Owner",
    .flowMappingEnd, .flowSequenceEnd, .flowMappingEnd, .blockEnd]

def plainNode (text : String) : Node String := .scalar none none .plain text

def shopNode : Node String :=
  .mapping none none [(plainNode "filter", .mapping none none
    [(plainNode "name", plainNode "Shop"),
      (plainNode "fields", .sequence none none [.mapping none none
        [(plainNode "name", plainNode "owner"), (plainNode "nested", plainNode "Owner")]])])]

def shopValue : Yaml.Value :=
  .mapping [(.string "filter", .mapping [(.string "name", .string "Shop"),
    (.string "fields", .sequence [.mapping
      [(.string "name", .string "owner"), (.string "nested", .string "Owner")]])])]

theorem shop_node :
    node defaultHandles true false shopTokens = some (shopNode, ⟨[], by decide⟩) := by
  simp [shopTokens, shopNode, plainNode, node, properties, blockMapping, optionalNode, entryValue,
    flowMapping, flowEntry, flowSequence, flowItem, behindComma, closesBlock]

theorem shop_documents : Yaml.documents true shopTokens = some [shopNode] := by
  have hend : Yaml.documents false [] = some [] := by
    rw [Yaml.documents]
    rfl
  have hfirst : Yaml.document true shopTokens = some (shopNode, []) := by
    rw [Yaml.document, shop_node]
    rfl
  rw [Yaml.documents]
  dsimp only
  rw [if_pos rfl, if_neg (by decide), hfirst]
  simp [behindEnd, hend, shopTokens]

theorem shop_value : Yaml.value? shopText = some shopValue := by
  have htokens : tokens? shopText = some shopTokens := by decide +kernel
  have hdocuments : documents? shopText =
      (Document.ofRoot? shopNode).bind fun document => some [document] := by
    rw [documents?, htokens]
    simp [shop_documents]
  rw [Yaml.value?, document?, hdocuments]
  rfl

theorem shop_loads_either_way :
    Yaml.value? shopText = some shopValue ∧ shopValue.isNull = false ∧
      Outline.ofValue shopValue = .ok ⟨"Shop", {}, [⟨"owner", .reference "Owner"⟩]⟩ ∧
      load ⟨[owner]⟩ shopText = .ok shop ∧
      ∃ registry, loadAll ⟨[owner]⟩ shopText = .ok registry ∧ registry.names = ["Shop"] ∧
        registry.get? "Shop" = some shop := by
  have houtline : Outline.ofValue shopValue =
      .ok ⟨"Shop", {}, [⟨"owner", .reference "Owner"⟩]⟩ := by rfl
  have hload : load ⟨[owner]⟩ shopText = .ok shop := by
    rw [load, shop_value]
    rfl
  have halone : ∀ outline, Outline.ofValue shopValue = .ok outline →
      outline.name ∉ Registry.names ⟨[owner]⟩ ∧ outline.name ∉ outline.references := by
    intro outline hread
    cases houtline.symm.trans hread
    decide
  obtain ⟨-, hok, -⟩ := load_iff_loadAll shop_value rfl halone
  exact ⟨shop_value, rfl, houtline, hload, (hok shop).1 hload⟩

end Sample

end Schema

end FilterQuery
