import FilterQuery.Proofs.Schema.Keys
/-!
# Settings of the wrong shape

A section of a document accepts some keys, and what is under a key has a shape: a text, a list
of texts, or any list.  Not every shape is checked.  A document with the wrong shape under a key
that is checked is refused; under any other key the wrong shape is no more than nothing, and the
document is loaded as though the key were not there.
-/

namespace FilterQuery.Schema

/-! ## Shapes -/

inductive Shape where
  | text
  | texts
  | items

def Shape.Fits : Shape → Yaml.Value → Prop
  | text, value => ∃ text, value.string? = some text
  | texts, value => ∃ items, value.items? = some items ∧
      ∀ item ∈ items, ∃ text, item.string? = some text
  | items, value => ∃ items, value.items? = some items

theorem exists_string?_of_mapM {items : List Yaml.Value} {read : List String}
    (hread : items.mapM Yaml.Value.string? = some read) :
    ∀ item ∈ items, ∃ text, item.string? = some text := by
  induction items generalizing read with
  | nil => nofun
  | cons item rest ih =>
      rw [List.mapM_cons] at hread
      obtain ⟨text, htext, hread⟩ := Option.bind_eq_some_iff.1 hread
      obtain ⟨_, hrest, _⟩ := Option.bind_eq_some_iff.1 hread
      exact List.forall_mem_cons.2 ⟨⟨text, htext⟩, ih hrest⟩

section Under

variable {value found : Yaml.Value} {key : String}

theorem Shape.fits_of_string? (hfound : value.get? key = some found) {text : String}
    (htext : string? value key = some text) : Shape.text.Fits found := by
  rw [string?, hfound] at htext
  exact ⟨text, htext⟩

theorem Shape.fits_of_strings (hfound : value.get? key = some found)
    {read : Option (List String)} (hread : strings value key = .ok read) :
    Shape.texts.Fits found := by
  obtain ⟨hnone, _⟩ | ⟨_, texts, hsome, htexts, _⟩ := strings_eq_ok_iff.1 hread
  · rw [hnone] at hfound
    cases hfound
  · rw [hsome] at hfound
    cases hfound
    obtain ⟨items, hitems, hmapM⟩ := Option.bind_eq_some_iff.1 htexts
    exact ⟨items, hitems, exists_string?_of_mapM hmapM⟩

theorem string?_of_not_fits (hfound : value.get? key = some found)
    (hfits : ¬ Shape.text.Fits found) : string? value key = none := by
  rw [string?, hfound]
  exact Option.eq_none_iff_forall_ne_some.2 fun text htext => hfits ⟨text, htext⟩

theorem items?_of_not_fits (hfound : value.get? key = some found)
    (hfits : ¬ Shape.items.Fits found) : items? value key = none := by
  rw [items?, hfound]
  exact Option.eq_none_iff_forall_ne_some.2 fun items hitems => hfits ⟨items, hitems⟩

end Under

/-! ## Settings -/

/-- What a document may say under a key of one of its sections; a field has its place among the
fields. -/
inductive Setting where
  | name
  | orderingField
  | sortable
  | searchField
  | searchPaths
  | fields
  | fieldName (place : Nat)
  | fieldKind (place : Nat)
  | fieldReference (place : Nat)

namespace Setting

def part : Setting → Part
  | name | orderingField | sortable | fields => .filter
  | searchField | searchPaths => .search
  | fieldName place | fieldKind place | fieldReference place => .field place

def key : Setting → String
  | name | fieldName _ => "name"
  | orderingField => "ordering_field"
  | sortable | searchPaths => "model_fields"
  | searchField => "field"
  | fields => "fields"
  | fieldKind _ => "type"
  | fieldReference _ => "nested"

def shape : Setting → Shape
  | sortable | searchPaths => .texts
  | fields => .items
  | _ => .text

/-- Whether the shape of a setting is checked: it is where the setting has to be there, and in
every list of texts. -/
def isChecked : Setting → Bool
  | name | sortable | searchPaths | fieldName _ => true
  | orderingField | searchField | fields | fieldKind _ | fieldReference _ => false

def value? (setting : Setting) (document : Yaml.Value) : Option Yaml.Value :=
  (setting.part.value? document).bind (·.get? setting.key)

def erase (setting : Setting) (document : Yaml.Value) : Yaml.Value :=
  document.editAt (Yaml.Value.drop setting.key) setting.part.steps

def Misshapen (setting : Setting) (document : Yaml.Value) : Prop :=
  ∃ found, setting.value? document = some found ∧ ¬ setting.shape.Fits found

theorem value?_erase (setting : Setting) (document : Yaml.Value) :
    setting.value? (setting.erase document) = none := by
  rw [value?, erase, Part.value?, Yaml.Value.at?_editAt, Option.bind_map]
  simp [Yaml.Value.get?_drop]

/-! ## What is checked -/

theorem fits_of_ofValue {setting : Setting} {document found : Yaml.Value} {outline : Outline}
    (hread : Outline.ofValue document = .ok outline) (hchecked : setting.isChecked = true)
    (hfound : setting.value? document = some found) : setting.shape.Fits found := by
  obtain ⟨value, hvalue, hkey⟩ := Option.bind_eq_some_iff.1 hfound
  cases setting with
  | name => exact Shape.fits_of_string? hkey (Outline.readIn_of_ofValue hread hvalue).name
  | sortable =>
      obtain ⟨_, hsortable, _⟩ :=
        outlineConstants_eq_ok_iff.1 (Outline.readIn_of_ofValue hread hvalue).constants
      exact Shape.fits_of_strings hkey hsortable
  | searchPaths =>
      obtain ⟨_, hconstants⟩ := Outline.search_of_ofValue hread hvalue
      obtain ⟨_, _, hpaths, _⟩ := searchConstants_eq_ok_iff.1 hconstants
      exact Shape.fits_of_strings hkey hpaths
  | fieldName place =>
      obtain ⟨field, hfield⟩ := Outline.field_of_ofValue hread hvalue
      rcases OutlineField.ofValue_eq_ok_iff.1 hfield with ⟨htext, _⟩ | ⟨_, _, hname, _⟩
      · rw [Yaml.Value.get?_eq, Yaml.Value.entries?_of_string? htext] at hkey
        cases hkey
      · exact Shape.fits_of_string? hkey hname
  | orderingField | searchField | fields | fieldKind | fieldReference => cases hchecked

end Setting

/-! ## What is passed over -/

section Editing

variable {value : Yaml.Value} {key : String} {accepted : List String} {part : String}

theorem checkKeys_editStep (edit : Yaml.Value → Yaml.Value) (step : Yaml.Value.Step) :
    checkKeys (value.editStep edit step) accepted part = checkKeys value accepted part := by
  simp only [checkKeys, unknownKeys_eq, textKeys, Yaml.Value.keys_editStep]

theorem checkKeys_drop (hkey : key ∈ accepted) :
    checkKeys (value.drop key) accepted part = checkKeys value accepted part := by
  have hrejected : (textKeys (value.drop key)).filter (!accepted.contains ·) =
      (textKeys value).filter (!accepted.contains ·) := by
    rw [textKeys, Yaml.Value.keys_drop, textKeys, List.filterMap_filter, List.filter_filterMap,
      List.filter_filterMap]
    refine List.filterMap_congr fun other _ => ?_
    cases hother : other.isKey key with
    | false => simp
    | true =>
        rw [Yaml.Value.isKey_iff.1 hother]
        simp [Yaml.Value.string?, Yaml.Value.untagged, Option.filter, hkey]
  simp only [checkKeys, unknownKeys_eq, hrejected]

theorem string?_drop (hnone : string? value key = none) (other : String) :
    string? (value.drop key) other = string? value other := by
  rw [string?, Yaml.Value.get?_drop]
  split
  · rename_i heq
    rw [heq, hnone]
    rfl
  · rfl

theorem string_drop (hnone : string? value key = none) (other : String) :
    string (value.drop key) other = string value other := by
  rw [string, string?_drop hnone, string]

theorem strings_drop {other : String} (hne : other ≠ key) :
    strings (value.drop key) other = strings value other := by
  rw [strings, Yaml.Value.get?_drop, if_neg hne, strings]

theorem string?_editStep {other : String} (edit : Yaml.Value → Yaml.Value) (hne : other ≠ key) :
    string? (value.editStep edit (.key key)) other = string? value other := by
  rw [string?, Yaml.Value.get?_editStep, if_neg hne, string?]

theorem string_editStep {other : String} (edit : Yaml.Value → Yaml.Value) (hne : other ≠ key) :
    string (value.editStep edit (.key key)) other = string value other := by
  rw [string, string?_editStep edit hne, string]

theorem strings_editStep {other : String} (edit : Yaml.Value → Yaml.Value) (hne : other ≠ key) :
    strings (value.editStep edit (.key key)) other = strings value other := by
  rw [strings, Yaml.Value.get?_editStep, if_neg hne, strings]

theorem OutlineField.ofValue_drop (hkey : key ∈ ["name", "type", "nested"])
    (hnone : string? value key = none) : ofValue (value.drop key) = ofValue value := by
  unfold ofValue
  rw [Yaml.Value.drop, Yaml.Value.string?_editEntries, ← Yaml.Value.drop]
  simp only [checkKeys_drop hkey, string_drop hnone, string?_drop hnone]

theorem searchConstants_drop (hnone : string? value "field" = none) (given : Constants) :
    searchConstants (value.drop "field") given = searchConstants value given := by
  unfold searchConstants
  rw [checkKeys_drop (by decide), strings_drop (by decide), string?_drop hnone]

end Editing

structure Outline.SameIn (value other : Yaml.Value) : Prop where
  keys : checkKeys value Part.filter.accepted Part.filter.name =
    checkKeys other Part.filter.accepted Part.filter.name
  name : string value "name" = string other "name"
  constants : outlineConstants value = outlineConstants other
  fields : ((items? value "fields").getD []).mapM OutlineField.ofValue =
    ((items? other "fields").getD []).mapM OutlineField.ofValue

namespace Outline

theorem ofValue_editStep {document value : Yaml.Value} {edit : Yaml.Value → Yaml.Value}
    (hvalue : document.get? "filter" = some value) (hsame : SameIn (edit value) value) :
    ofValue (document.editStep edit (.key "filter")) = ofValue document := by
  have hkeys := hsame.keys
  simp only [Part.accepted, Part.name] at hkeys
  unfold ofValue
  rw [checkKeys_editStep, Yaml.Value.get?_editStep, if_pos rfl, hvalue]
  simp only [Option.map_some, hkeys, hsame.name, hsame.constants, hsame.fields]

namespace SameIn

variable {value : Yaml.Value}

theorem drop_orderingField (hnone : string? value "ordering_field" = none) :
    SameIn (value.drop "ordering_field") value where
  keys := checkKeys_drop (by decide)
  name := string_drop hnone "name"
  constants := by
    unfold outlineConstants
    rw [strings_drop (by decide), string?_drop hnone, Yaml.Value.get?_drop, if_neg (by decide)]
  fields := by rw [items?, Yaml.Value.get?_drop, if_neg (by decide), items?]

theorem drop_fields (hnone : items? value "fields" = none) :
    SameIn (value.drop "fields") value where
  keys := checkKeys_drop (by decide)
  name := by rw [string, string?, Yaml.Value.get?_drop, if_neg (by decide), string, string?]
  constants := by
    unfold outlineConstants
    rw [strings_drop (by decide), string?, Yaml.Value.get?_drop, if_neg (by decide),
      Yaml.Value.get?_drop, if_neg (by decide), string?]
  fields := by rw [hnone, items?, Yaml.Value.get?_drop, if_pos rfl, Option.bind_none]

variable {edit : Yaml.Value → Yaml.Value}

theorem edit_search {search : Yaml.Value} (hsearch : value.get? "search" = some search)
    (hedit : ∀ given, searchConstants (edit search) given = searchConstants search given) :
    SameIn (value.editStep edit (.key "search")) value where
  keys := checkKeys_editStep edit _
  name := string_editStep edit (by decide)
  constants := by
    unfold outlineConstants
    rw [strings_editStep edit (by decide), string?_editStep edit (by decide),
      Yaml.Value.get?_editStep, if_pos rfl, hsearch]
    simp only [Option.map_some, hedit]
  fields := by rw [items?, Yaml.Value.get?_editStep, if_neg (by decide), items?]

theorem edit_field {place : Nat} {items : List Yaml.Value} {entry : Yaml.Value}
    (hitems : items? value "fields" = some items) (hentry : items[place]? = some entry)
    (hedit : OutlineField.ofValue (edit entry) = OutlineField.ofValue entry) :
    SameIn (value.editStep (·.editStep edit (.item place)) (.key "fields")) value where
  keys := checkKeys_editStep _ _
  name := string_editStep _ (by decide)
  constants := by
    unfold outlineConstants
    rw [strings_editStep _ (by decide), string?_editStep _ (by decide),
      Yaml.Value.get?_editStep, if_neg (by decide)]
  fields := by
    have hafter : items? (value.editStep (·.editStep edit (.item place)) (.key "fields")) "fields" =
        some (items.modify place edit) := by
      rw [items?, Yaml.Value.get?_editStep, if_pos rfl]
      obtain ⟨found, hfound, hsome⟩ := Option.bind_eq_some_iff.1 hitems
      rw [hfound, Option.map_some, Option.bind_some, Yaml.Value.editStep,
        Yaml.Value.items?_editItems, hsome, Option.map_some]
    rw [hafter, hitems]
    exact Outcome.mapM_modify hentry hedit

end SameIn

end Outline

/-- What a document says for a setting that is not checked counts for nothing where it has not
the shape. -/
theorem Setting.ofValue_erase {setting : Setting} {document : Yaml.Value}
    (hmisshapen : setting.Misshapen document) (hchecked : setting.isChecked = false) :
    Outline.ofValue (setting.erase document) = Outline.ofValue document := by
  obtain ⟨found, hfound, hfits⟩ := hmisshapen
  obtain ⟨value, hvalue, hkey⟩ := Option.bind_eq_some_iff.1 hfound
  cases setting with
  | orderingField =>
      have hnone : string? value "ordering_field" = none := string?_of_not_fits hkey hfits
      rw [part, Part.value?_filter] at hvalue
      exact Outline.ofValue_editStep hvalue (.drop_orderingField hnone)
  | fields =>
      have hnone : items? value "fields" = none := items?_of_not_fits hkey hfits
      rw [part, Part.value?_filter] at hvalue
      exact Outline.ofValue_editStep hvalue (.drop_fields hnone)
  | searchField =>
      have hnone : string? value "field" = none := string?_of_not_fits hkey hfits
      rw [part, Part.value?_search, Part.value?_filter] at hvalue
      obtain ⟨filter, hfilter, hsearch⟩ := Option.bind_eq_some_iff.1 hvalue
      have hsame := Outline.SameIn.edit_search hsearch (searchConstants_drop hnone)
      exact Outline.ofValue_editStep hfilter hsame
  | fieldKind place | fieldReference place =>
      rw [part, Part.value?_field, Part.value?_filter] at hvalue
      obtain ⟨items, hitems, hentry⟩ := Option.bind_eq_some_iff.1 hvalue
      obtain ⟨filter, hfilter, hitems⟩ := Option.bind_eq_some_iff.1 hitems
      have hfield := OutlineField.ofValue_drop (by simp [key]) (string?_of_not_fits hkey hfits)
      have hsame := Outline.SameIn.edit_field hitems hentry hfield
      exact Outline.ofValue_editStep hfilter hsame
  | name | sortable | searchPaths | fieldName => cases hchecked

/-! ## Documents that are loaded alike -/

/-- Two documents of which either may stand in for the other, whatever is known and whatever is
loaded with it. -/
structure Interchangeable (document other : Yaml.Value) : Prop where
  alone : ∀ known, ofDocument known document = ofDocument known other
  together : ∀ known before after,
    ofDocuments known (before ++ document :: after) = ofDocuments known (before ++ other :: after)

theorem outlines_congr {document other : Yaml.Value}
    (hread : Outline.ofValue document = Outline.ofValue other) (known : Registry)
    (before after : List Yaml.Value) (earlier : List Outline) :
    outlines known earlier (before ++ document :: after) =
      outlines known earlier (before ++ other :: after) := by
  induction before generalizing earlier with
  | nil =>
      rw [List.nil_append, List.nil_append, outlines, outlines, hread]
  | cons first rest ih =>
      simp only [List.cons_append, outlines, ih]

theorem interchangeable_of_ofValue {document other : Yaml.Value}
    (hread : Outline.ofValue document = Outline.ofValue other) :
    Interchangeable document other where
  alone known := by rw [ofDocument, ofDocument, hread]
  together known before after := by
    rw [ofDocuments, ofDocuments, outlines_congr hread]

/-- Of every setting for which a document says something of the wrong shape: where it is checked
the document is refused, and where it is not the document is loaded as though it said nothing
for it. -/
theorem misshapen_settings {document : Yaml.Value} {setting : Setting}
    (hmisshapen : setting.Misshapen document) :
    (setting.isChecked = true → Refused document) ∧
      (setting.isChecked = false →
        Interchangeable document (setting.erase document) ∧
          setting.value? (setting.erase document) = none) := by
  constructor
  · intro hchecked
    obtain ⟨found, hfound, hfits⟩ := hmisshapen
    apply refused_of_ofValue
    intro outline hread
    exact hfits (Setting.fits_of_ofValue hread hchecked hfound)
  · intro hchecked
    exact ⟨interchangeable_of_ofValue (Setting.ofValue_erase hmisshapen hchecked).symm,
      setting.value?_erase document⟩

namespace Sample

def numberedReference : Yaml.Value :=
  document "Album" [.mapping [(.string "name", .string "artist"), (.string "nested", .int 5)]]

def loneSortable : Yaml.Value :=
  .mapping [(.string "filter",
    .mapping [(.string "name", .string "Album"), (.string "model_fields", .string "title")])]

theorem misshapen_samples :
    (Setting.fieldReference 0).Misshapen numberedReference ∧
      Interchangeable numberedReference
        (document "Album" [.mapping [(.string "name", .string "artist")]]) ∧
      Setting.sortable.Misshapen loneSortable ∧ Refused loneSortable := by
  have hreference : (Setting.fieldReference 0).Misshapen numberedReference :=
    ⟨.int 5, by rfl, nofun⟩
  have hsortable : Setting.sortable.Misshapen loneSortable := by
    refine ⟨.string "title", by rfl, ?_⟩
    rintro ⟨_, hitems, _⟩
    cases hitems
  exact ⟨hreference, ((misshapen_settings hreference).2 rfl).1, hsortable,
    (misshapen_settings hsortable).1 rfl⟩

/-- The reference has not the shape of one, yet the document is loaded, with a plain field. -/
theorem numberedReference_loads :
    (Setting.fieldReference 0).Misshapen numberedReference ∧
      ofDocument {} numberedReference =
        .ok ⟨"Album", [⟨.plain "artist", .string⟩], {}⟩ ∧
      ¬ Refused numberedReference := by
  have hload : ofDocument {} numberedReference =
      .ok ⟨"Album", [⟨.plain "artist", .string⟩], {}⟩ := by rfl
  refine ⟨⟨.int 5, by rfl, nofun⟩, hload, ?_⟩
  intro hrefused
  obtain ⟨fault, hfault⟩ := hrefused.alone {}
  rw [hload] at hfault
  cases hfault

end Sample

end FilterQuery.Schema
