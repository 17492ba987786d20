import FilterQuery.Proofs.Schema.Built
import FilterQuery.Proofs.Schema.Documents
import FilterQuery.Proofs.Yaml.Places
/-!
# What references are linked to

A document refers to other definitions by name.  Once documents have been loaded, each entry
for a nested field stands at its place in the definition, on the definition that the name
given there stands for: that of the document of the name, or else the known one.
-/

namespace FilterQuery.Schema

/-! ## Documents as they are written -/

def nameOf? (document : Yaml.Value) : Option String :=
  (document.get? "filter").bind (string? · "name")

def entriesOf (document : Yaml.Value) : List Yaml.Value :=
  ((document.get? "filter").bind (items? · "fields")).getD []

def referenceOf? (entry : Yaml.Value) : Option String :=
  string? entry "nested"

theorem string?_of_string? {value : Yaml.Value} {text : String}
    (htext : value.string? = some text) (key : String) : string? value key = none := by
  simp [string?, Yaml.Value.get?, Yaml.Value.entries?_of_string? htext]

theorem outlineKind_reference {field : String} {kind reference : Option String}
    {read : OutlineKind} (hread : outlineKind field kind reference = .ok read)
    (name : String) : read = .reference name ↔ reference = some name := by
  unfold outlineKind at hread
  cases kind with
  | none =>
      cases reference with
      | none =>
          cases hread
          simp
      | some target =>
          cases hread
          simp
  | some text =>
      cases htext : kindOfName? text with
      | none =>
          simp only [htext] at hread
          cases hread
      | some kind =>
          simp only [htext] at hread
          cases reference with
          | none =>
              cases hread
              simp
          | some target => cases hread

theorem OutlineField.reference?_eq_some_iff {field : OutlineField} {name : String} :
    field.reference? = some name ↔ field.kind = .reference name := by
  unfold OutlineField.reference?
  cases field.kind <;> simp

theorem OutlineField.of_ofValue {entry : Yaml.Value} {field : OutlineField}
    (hread : OutlineField.ofValue entry = .ok field) :
    field.reference? = referenceOf? entry ∧
      (field.reference?.isSome → string? entry "name" = some field.name) := by
  rcases OutlineField.ofValue_eq_ok_iff.1 hread with ⟨htext, hkind⟩ | ⟨_, _, hname, hkind⟩
  · rw [OutlineField.reference?, hkind]
    refine ⟨(string?_of_string? htext "nested").symm, ?_⟩
    intro hsome
    cases hsome
  · refine ⟨?_, fun _ => hname⟩
    ext target
    rw [OutlineField.reference?_eq_some_iff]
    exact outlineKind_reference hkind target

theorem Outline.of_ofValue {document : Yaml.Value} {outline : Outline}
    (hread : Outline.ofValue document = .ok outline) :
    nameOf? document = some outline.name ∧
      (entriesOf document).mapM OutlineField.ofValue = .ok outline.fields := by
  obtain ⟨_, value, hvalue, hsection⟩ := Outline.ofValue_eq_ok_iff.1 hread
  unfold nameOf? entriesOf
  rw [hvalue]
  exact ⟨hsection.name, hsection.fields⟩

/-! ## Outlines and what they build -/

/-- A field of an outline is declared under its name, and nested where it refers to a
definition, on what the name of the definition stands for. -/
def OutlineField.StandsFor (meaning : String → Option Definition) (field : OutlineField)
    (declared : DeclaredField) : Prop :=
  declared.name = field.name ∧ declared.kind.nested? = field.reference?.bind meaning

/-- The fields of an outline stand in a definition, in order, and no other field is nested
there. -/
structure Outline.LinkedIn (outline : Outline) (meaning : String → Option Definition)
    (definition : Definition) : Prop where
  fields : ∃ fields search, definition.fields = fields ++ search ∧
    List.Forall₂ (OutlineField.StandsFor meaning) outline.fields fields ∧
    ∀ declared ∈ search, declared.kind.nested? = none
  found : ∀ name ∈ outline.references, ∃ sub, meaning name = some sub ∧ sub.name = name

theorem OutlineField.nested?_draft {outline : Outline} (hwritten : outline.Written)
    {field : OutlineField} (hmem : field ∈ outline.fields)
    (meaning : String → Option Definition) :
    (field.draft meaning).kind.bind FieldKind.nested? = field.reference?.bind meaning := by
  unfold OutlineField.draft OutlineField.reference?
  cases hkind : field.kind with
  | inferred => rfl
  | given kind =>
      cases hnested : kind.nested? with
      | none => exact hnested
      | some sub =>
          have hgiven : field.kind = .given (.nested sub) :=
            hkind.trans (congrArg _ (FieldKind.nested?_eq_some_iff.1 hnested))
          exact absurd hgiven (hwritten field hmem sub)
  | reference name => cases hmeaning : meaning name <;> simp [hmeaning, FieldKind.nested?]

theorem OutlineField.draft_name (meaning : String → Option Definition) (field : OutlineField) :
    (field.draft meaning).name = field.name := by
  unfold OutlineField.draft
  cases field.kind <;> rfl

theorem Outline.linkedIn_of_build {outline : Outline} (hwritten : outline.Written)
    {meaning : String → Option Definition} {definition : Definition}
    (hbuild : (outline.draft meaning).build = .ok definition)
    (hfound : ∀ name ∈ outline.references, ∃ sub, meaning name = some sub ∧ sub.name = name) :
    outline.LinkedIn meaning definition := by
  obtain ⟨fields, search, hfields, hsearch, rfl⟩ := Draft.build_eq_ok_iff.1 hbuild
  have hdrafts : List.Forall₂
      (fun field declared => (OutlineField.draft meaning field).Declares
        (outline.draft meaning).constants declared) outline.fields fields :=
    List.forall₂_map_left_iff.1 (FieldDraft.declareAll_eq_ok_iff.1 hfields).1
  have hmembers := (List.forall₂_and_left outline.fields fields).2 ⟨fun _ h => h, hdrafts⟩
  refine ⟨⟨fields, search, rfl, hmembers.imp ?_, ?_⟩, hfound⟩
  · rintro field declared ⟨hmem, hdeclares⟩
    have hname : declared.name = field.name :=
      hdeclares.field.1.trans (OutlineField.draft_name meaning field)
    have hnested := OutlineField.nested?_draft hwritten hmem meaning
    exact ⟨hname, hdeclares.nested?_eq.trans hnested⟩
  · intro declared hmem
    rcases (Draft.searchField_eq_ok_iff.1 hsearch).1 with ⟨_, _⟩ | _
    · rw [List.mem_singleton.1 hmem]
      rfl
    · cases hmem

/-- An outline stands in the definition that its name resolves to. -/
theorem Resolves.linkedIn {all : List Outline} {known : Registry} {outline : Outline}
    {definition : Definition} (h : Resolves all known outline.name definition)
    (hfind : outline? all outline.name = some outline) (hwritten : outline.Written)
    {meaning : String → Option Definition}
    (hmeaning : ∀ name sub, Resolves all known name sub → meaning name = some sub) :
    outline.LinkedIn meaning definition := by
  cases h with
  | known hnew _ => simp [hnew] at hfind
  | outline definitionOf hfind' hreferences hbuild =>
      cases hfind.symm.trans hfind'
      have hfound : ∀ name ∈ outline.references, meaning name = some (definitionOf name) :=
        fun name hmem => hmeaning name _ (hreferences name hmem)
      rw [← Outline.draft_congr hfound] at hbuild
      apply Outline.linkedIn_of_build hwritten hbuild
      intro name hmem
      exact ⟨definitionOf name, hfound name hmem, (hreferences name hmem).name_eq⟩

namespace Outline.LinkedIn

variable {outline : Outline} {meaning : String → Option Definition} {definition : Definition}
  (hlinked : outline.LinkedIn meaning definition)

include hlinked

theorem mem_references_iff {name : String} :
    name ∈ outline.references ↔
      ∃ declared ∈ definition.fields, ∃ sub, declared.kind = .nested sub ∧ sub.name = name := by
  obtain ⟨fields, search, hfields, hall, hsearch⟩ := hlinked.fields
  unfold Outline.references
  rw [List.mem_filterMap]
  constructor
  · rintro ⟨field, hfield, hreference⟩
    obtain ⟨declared, hdeclared, hstands⟩ := Lists.exists_of_forall₂ hall.flip hfield
    have hmem : name ∈ outline.references := List.mem_filterMap.2 ⟨field, hfield, hreference⟩
    obtain ⟨sub, hsub, hname⟩ := hlinked.found name hmem
    have hkind : declared.kind.nested? = some sub := by
      rw [hstands.2, hreference, Option.bind_some, hsub]
    exact ⟨declared, hfields ▸ List.mem_append_left search hdeclared, sub,
      FieldKind.nested?_eq_some_iff.1 hkind, hname⟩
  · rintro ⟨declared, hdeclared, sub, hkind, rfl⟩
    have hnested := FieldKind.nested?_eq_some_iff.2 hkind
    rw [hfields] at hdeclared
    rcases List.mem_append.1 hdeclared with hdeclared | hdeclared
    · obtain ⟨field, hfield, hstands⟩ := Lists.exists_of_forall₂ hall hdeclared
      obtain ⟨name, hreference, hsub⟩ := Option.bind_eq_some_iff.1 (hstands.2.symm.trans hnested)
      have hmem : name ∈ outline.references := List.mem_filterMap.2 ⟨field, hfield, hreference⟩
      obtain ⟨found, hfound, hname⟩ := hlinked.found name hmem
      cases hsub.symm.trans hfound
      exact ⟨field, hfield, hname ▸ hreference⟩
    · rw [hsearch declared hdeclared] at hnested
      cases hnested

end Outline.LinkedIn

/-! ## Loaded documents -/

/-- What a name stands for once documents have been loaded: the definition of the document of
the name, or else the known one. -/
def linked? (known loaded : Registry) (name : String) : Option Definition :=
  if name ∈ loaded.names then loaded.get? name else known.get? name

/-- Each entry of a document that refers to a definition stands, at its place and under its
name, for a nested field on what it refers to. -/
def Links (meaning : String → Option Definition) (document : Yaml.Value)
    (definition : Definition) : Prop :=
  ∀ (place : Nat) (entry : Yaml.Value) (reference : String),
    (entriesOf document)[place]? = some entry → referenceOf? entry = some reference →
    ∃ (declared : DeclaredField) (sub : Definition), definition.fields[place]? = some declared ∧
      string? entry "name" = some declared.name ∧ declared.kind = .nested sub ∧
      meaning reference = some sub ∧ sub.name = reference

theorem Outline.LinkedIn.links {outline : Outline} {meaning : String → Option Definition}
    {definition : Definition} (hlinked : outline.LinkedIn meaning definition)
    {document : Yaml.Value}
    (hread : (entriesOf document).mapM OutlineField.ofValue = .ok outline.fields) :
    Links meaning document definition := by
  intro place entry reference hentry hreference
  obtain ⟨fields, search, hfields, hall, _⟩ := hlinked.fields
  obtain ⟨field, hfield, hvalue⟩ :=
    Lists.getElem?_of_forall₂ (Outcome.mapM_eq_ok.1 hread) hentry
  obtain ⟨declared, hdeclared, hname, hkind⟩ := Lists.getElem?_of_forall₂ hall hfield
  obtain ⟨heq, hgiven⟩ := OutlineField.of_ofValue hvalue
  have hrefers : field.reference? = some reference := heq.trans hreference
  have hmem : reference ∈ outline.references :=
    List.mem_filterMap.2 ⟨field, List.mem_of_getElem? hfield, hrefers⟩
  obtain ⟨sub, hsub, hsubName⟩ := hlinked.found reference hmem
  rw [hrefers, Option.bind_some, hsub] at hkind
  refine ⟨declared, sub, ?_, ?_, FieldKind.nested?_eq_some_iff.1 hkind, hsub, hsubName⟩
  · rw [hfields, List.getElem?_append_left (List.getElem?_eq_some_iff.1 hdeclared).1]
    exact hdeclared
  · rw [hname]
    exact hgiven (by rw [hrefers]; rfl)

theorem map_nameOf? {documents : List Yaml.Value} {all : List Outline}
    (hread : documents.mapM Outline.ofValue = .ok all) :
    documents.map nameOf? = all.map (some ·.name) := by
  have hall := Outcome.mapM_eq_ok.1 hread
  clear hread
  induction hall with
  | nil => rfl
  | cons hhead _ ih => rw [List.map_cons, List.map_cons, (Outline.of_ofValue hhead).1, ih]

theorem mem_references_iff {documents : List Yaml.Value} {all : List Outline}
    (hread : documents.mapM Outline.ofValue = .ok all) :
    ∃ references, referencesOf documents = .ok references ∧
      ∀ name, name ∈ references ↔ ∃ outline ∈ all, name ∈ outline.references := by
  refine ⟨(all.flatMap Outline.references).eraseDups, ?_, ?_⟩
  · rw [referencesOf, hread]
    rfl
  · intro name
    rw [List.mem_eraseDups, List.mem_flatMap]

section Loaded

variable {all : List Outline} {known registry : Registry}
  (hresolve : ResolveTo all known all registry.definitions)
  (hnames : (all.map (·.name)).Nodup)

include hresolve hnames

theorem ResolveTo.linked? (name : String) (sub : Definition)
    (h : Resolves all known name sub) : Schema.linked? known registry name = some sub := by
  have hregistry : registry.names = all.map (·.name) := hresolve.names_eq
  unfold Schema.linked?
  rw [hregistry]
  split
  · rename_i hmem
    exact (hresolve.get?_eq_some_iff hnames).2 ⟨hmem, h⟩
  · rename_i hmem
    cases h with
    | known _ hget => exact hget
    | outline _ hfind _ _ =>
        exact absurd (List.mem_map.2 ⟨_, mem_of_outline? hfind, name_of_outline? hfind⟩) hmem

theorem ResolveTo.linkedIn (hwritten : ∀ outline ∈ all, outline.Written) :
    List.Forall₂ (Outline.LinkedIn · (Schema.linked? known registry) ·)
      all registry.definitions := by
  have hmembers := (List.forall₂_and_left all registry.definitions).2 ⟨fun _ h => h, hresolve⟩
  refine hmembers.imp ?_
  rintro outline definition ⟨hmem, hdefinition⟩
  exact hdefinition.linkedIn (outline?_of_mem hnames hmem) (hwritten outline hmem)
    (hresolve.linked? hnames)

end Loaded

/-- A name is taken only by another document that is read: once they are read, registering
their definitions meets no name twice. -/
theorem register_ne_duplicateName {known : Registry} {documents : List Yaml.Value}
    {all : List Outline} (hread : outlines known [] documents = .ok all) (name : String) :
    register all known all [] {} ≠ .error (.duplicateName name) := by
  intro herror
  have hnames := (outlines_eq_ok_iff.1 hread).2.1
  have hsound : Resolved.Sound all known [] := nofun
  have hfind : ∀ outline ∈ all, (outline? all outline.name).isSome := by
    intro outline hmem
    simp [outline?_of_mem hnames hmem]
  have hempty : (({} : Registry).names ++ all.map (·.name)).Nodup := hnames
  obtain ⟨_, _, _, _, hexplains, _⟩ := register_explains hsound hfind hempty herror
  exact hexplains

/-- Documents load under their own names, in their order, which are distinct and new.  Every
entry that refers to a definition stands for a nested field on the definition of the document
of that name, or else on the known one, and the names referred to are those of the nested
definitions.  Registering meets no name twice, and an outline is built only when there is a
definition for each name that it refers to. -/
theorem ofDocuments_links (known : Registry) (documents : List Yaml.Value) :
    (∀ registry, ofDocuments known documents = .ok registry →
      documents.map nameOf? = registry.names.map some ∧ registry.names.Nodup ∧
        (∀ name ∈ registry.names, name ∉ known.names) ∧
        List.Forall₂ (Links (linked? known registry)) documents registry.definitions ∧
        ∃ references, referencesOf documents = .ok references ∧
          ∀ name, name ∈ references ↔ ∃ definition ∈ registry.definitions,
            ∃ declared ∈ definition.fields,
              ∃ sub, declared.kind = .nested sub ∧ sub.name = name) ∧
      (∀ all, outlines known [] documents = .ok all →
        ∀ name, register all known all [] {} ≠ .error (.duplicateName name)) ∧
      ∀ all filter names chain resolved below later,
        resolveAll all known filter names chain resolved = .ok (below, later) →
        ∀ name ∈ names, (below.lookup name).isSome := by
  refine ⟨?_, fun all hread => register_ne_duplicateName hread, ?_⟩
  · intro registry hload
    obtain ⟨all, houtlines, hresolve⟩ := ofDocuments_eq_ok_iff.1 hload
    obtain ⟨hread, hnames, hnew⟩ := outlines_eq_ok_iff.1 houtlines
    have hregistry : registry.names = all.map (·.name) := hresolve.names_eq
    have hwritten : ∀ outline ∈ all, outline.Written := written_of_outlines houtlines nofun
    have hlinked := hresolve.linkedIn hnames hwritten
    refine ⟨?_, hregistry ▸ hnames, ?_, ?_, ?_⟩
    · rw [map_nameOf? hread, hregistry, List.map_map]
      rfl
    · intro name hmem hknown
      rw [hregistry] at hmem
      obtain ⟨outline, houtline, rfl⟩ := List.mem_map.1 hmem
      obtain ⟨definition, hdefinition, hname⟩ := List.mem_map.1 hknown
      have htaken : known.contains outline.name :=
        List.any_eq_true.2 ⟨definition, hdefinition, by simpa using hname⟩
      rw [hnew outline houtline] at htaken
      cases htaken
    · refine (Lists.forall₂_trans (Outcome.mapM_eq_ok.1 hread) hlinked).imp ?_
      rintro document definition ⟨outline, houtline, hlink⟩
      exact hlink.links (Outline.of_ofValue houtline).2
    · obtain ⟨references, hreferences, hmem⟩ := mem_references_iff hread
      refine ⟨references, hreferences, fun name => (hmem name).trans ?_⟩
      constructor
      · rintro ⟨outline, houtline, hname⟩
        obtain ⟨definition, hdefinition, hlink⟩ := Lists.exists_of_forall₂ hlinked.flip houtline
        exact ⟨definition, hdefinition, hlink.mem_references_iff.1 hname⟩
      · rintro ⟨definition, hdefinition, hdeclared⟩
        obtain ⟨outline, houtline, hlink⟩ := Lists.exists_of_forall₂ hlinked hdefinition
        exact ⟨outline, houtline, hlink.mem_references_iff.2 hdeclared⟩
  · intro all filter names chain resolved below later hok name hmem
    rw [← keys_of_resolveAll hok] at hmem
    simpa [List.lookup_isSome_iff] using hmem

/-! ## A reference forward and one to what is known -/

namespace Sample

def company : Definition := ⟨"Company", [⟨.plain "country", .string⟩], {}⟩

def author : Definition := ⟨"Author", [⟨.plain "name", .string⟩], {}⟩

def post : Definition :=
  ⟨"Post", [⟨.plain "title", .string⟩, ⟨.plain "author", .nested author⟩,
    ⟨.plain "publisher", .nested company⟩], {}⟩

def blog : List Yaml.Value :=
  [document "Post" [.string "title", reference "author" "Author",
      reference "publisher" "Company"],
    document "Author" [.string "name"]]

def blogOutlines : List Outline :=
  [⟨"Post", {}, [⟨"title", .inferred⟩, ⟨"author", .reference "Author"⟩,
      ⟨"publisher", .reference "Company"⟩]⟩,
    ⟨"Author", {}, [⟨"name", .inferred⟩]⟩]

theorem blog_read : outlines ⟨[company]⟩ [] blog = .ok blogOutlines := by rfl

theorem blog_loads : ofDocuments ⟨[company]⟩ blog = .ok ⟨[post, author]⟩ := by
  have hcompany : Resolves blogOutlines ⟨[company]⟩ "Company" company := .known rfl rfl
  have hauthor : Resolves blogOutlines ⟨[company]⟩ "Author" author :=
    .outline (fun _ => author) rfl nofun rfl
  have hpost : Resolves blogOutlines ⟨[company]⟩ "Post" post := by
    refine .outline (fun name => if name = "Author" then author else company) rfl ?_ rfl
    intro name hmem
    rcases List.mem_pair.1 hmem with rfl | rfl
    · exact hauthor
    · exact hcompany
  exact ofDocuments_eq_ok_iff.2 ⟨blogOutlines, blog_read, .cons hpost (.cons hauthor .nil)⟩

theorem post_references :
    resolveAll blogOutlines ⟨[company]⟩ "Post" ["Author", "Company"] ["Post"] [] =
      .ok ([("Author", author), ("Company", company)], [("Author", author)]) := by
  have hauthor : resolve blogOutlines ⟨[company]⟩ "Post" "Author" ["Post"] [] =
      .ok (author, [("Author", author)]) := by
    have hfind : outline? blogOutlines "Author" =
        some ⟨"Author", {}, [⟨"name", .inferred⟩]⟩ := by rfl
    rw [resolve_outline hfind rfl (by decide)]
    exact Outcome.bind_eq_ok.2 ⟨_, resolveAll_nil, rfl⟩
  have hrest : resolveAll blogOutlines ⟨[company]⟩ "Post" ["Company"] ["Post"]
      [("Author", author)] = .ok ([("Company", company)], [("Author", author)]) := by
    rw [resolveAll_cons]
    exact Outcome.bind_eq_ok.2
      ⟨_, resolve_known rfl rfl, Outcome.bind_eq_ok.2 ⟨_, resolveAll_nil, rfl⟩⟩
  rw [resolveAll_cons]
  exact Outcome.bind_eq_ok.2 ⟨_, hauthor, Outcome.bind_eq_ok.2 ⟨_, hrest, rfl⟩⟩

theorem blog_links :
    ofDocuments ⟨[company]⟩ blog = .ok ⟨[post, author]⟩ ∧
      blog.map nameOf? = [some "Post", some "Author"] ∧
      List.Forall₂ (Links (linked? ⟨[company]⟩ ⟨[post, author]⟩)) blog [post, author] ∧
      register blogOutlines ⟨[company]⟩ blogOutlines [] {} ≠ .error (.duplicateName "Author") ∧
      List.lookup "Company" [("Author", author), ("Company", company)] ≠ none := by
  obtain ⟨hloaded, hregister, hfound⟩ := ofDocuments_links ⟨[company]⟩ blog
  have hlinks := hloaded ⟨[post, author]⟩ blog_loads
  have hcompany := hfound _ _ _ _ _ _ _ post_references "Company" (by decide)
  exact ⟨blog_loads, hlinks.1, hlinks.2.2.2.1, hregister blogOutlines blog_read "Author",
    Option.ne_none_iff_isSome.2 hcompany⟩

end Sample

end FilterQuery.Schema
