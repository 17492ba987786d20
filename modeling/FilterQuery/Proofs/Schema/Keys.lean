import FilterQuery.Proofs.Schema.Documents
import FilterQuery.Proofs.Schema.Reading
import FilterQuery.Proofs.Yaml.Places
/-!
# Keys that are refused

Each section of a document accepts some keys.  A text that is none of them is refused wherever
it is a key, together with all the others of its section in their order, and with it the whole
document.  A key that is no text is passed over: where every key is a text, a section is
accepted exactly when all its keys are.
-/

namespace FilterQuery.Schema

/-! ## The keys of a section -/

/-- The keys of a mapping that are texts, tagged or not, in document order. -/
def textKeys (value : Yaml.Value) : List String :=
  value.keys.filterMap Yaml.Value.string?

theorem mem_textKeys {value : Yaml.Value} {text : String} :
    text ∈ textKeys value ↔ ∃ key ∈ value.keys, key.string? = some text :=
  List.mem_filterMap

theorem unknownKeys_eq (value : Yaml.Value) (accepted : List String) (part : String) :
    unknownKeys value accepted part =
      ((textKeys value).filter (!accepted.contains ·)).map fun key =>
        ⟨key, part, suggestion? key accepted⟩ := by
  rw [textKeys, Yaml.Value.keys, List.filterMap_map]
  rfl

theorem unknownKeys_eq_nil_iff (value : Yaml.Value) (accepted : List String) (part : String) :
    unknownKeys value accepted part = [] ↔ ∀ text ∈ textKeys value, text ∈ accepted := by
  simp [unknownKeys_eq, List.filter_eq_nil_iff]

section Check

variable {value : Yaml.Value} {accepted : List String} {part : String}

theorem checkKeys_eq_ok_iff :
    checkKeys value accepted part = .ok () ↔ ∀ text ∈ textKeys value, text ∈ accepted := by
  rw [← unknownKeys_eq_nil_iff value accepted part, checkKeys]
  cases unknownKeys value accepted part <;> simp

theorem checkKeys_eq_error_iff {fault : Error} :
    checkKeys value accepted part = .error fault ↔
      ∃ rejected, rejected = (textKeys value).filter (· ∉ accepted) ∧ rejected ≠ [] ∧
        fault = .unknownKeys part (rejected.map fun key => ⟨key, part, suggestion? key accepted⟩) := by
  have hreports : unknownKeys value accepted part =
      ((textKeys value).filter (· ∉ accepted)).map fun key =>
        ⟨key, part, suggestion? key accepted⟩ := by
    simp [unknownKeys_eq]
  rw [checkKeys, hreports]
  cases (textKeys value).filter (· ∉ accepted) with
  | nil => simp
  | cons key rest => simp [eq_comm]

theorem checkKeys_of_plain (hplain : ∀ key ∈ value.keys, ∃ text, key = .string text) :
    checkKeys value accepted part = .ok () ↔
      ∀ key ∈ value.keys, ∃ text ∈ accepted, key = .string text := by
  rw [checkKeys_eq_ok_iff]
  constructor
  · intro haccepted key hmem
    obtain ⟨text, rfl⟩ := hplain key hmem
    exact ⟨text, haccepted text (mem_textKeys.2 ⟨_, hmem, rfl⟩), rfl⟩
  · intro haccepted text hmem
    obtain ⟨key, hkey, htext⟩ := mem_textKeys.1 hmem
    obtain ⟨other, hother, rfl⟩ := haccepted key hkey
    cases htext
    exact hother

end Check

/-- What is said of a key: itself and its section, and perhaps what was meant. -/
def Describes (part key message : String) : Prop :=
  ∃ hint, message = "Unknown key '" ++ key ++ "' in " ++ part ++ "." ++ hint

theorem describes_message (unknown : UnknownKey) :
    Describes unknown.part unknown.key unknown.message := by
  unfold Describes UnknownKey.message
  exact ⟨_, rfl⟩

theorem message_unknownKeys (part : String) (unknown : List UnknownKey) :
    (Error.unknownKeys part unknown).message =
      "Invalid value for field '" ++ part ++ "': " ++
        "; ".intercalate (unknown.map UnknownKey.message) := rfl

theorem exists_messages (part : String) (rejected accepted : List String) :
    ∃ messages, List.Forall₂ (Describes part) rejected messages ∧
      (Error.unknownKeys part
        (rejected.map fun key => ⟨key, part, suggestion? key accepted⟩)).message =
          "Invalid value for field '" ++ part ++ "': " ++ "; ".intercalate messages := by
  refine ⟨_, ?_, message_unknownKeys part _⟩
  rw [List.map_map, List.forall₂_map_right_iff, List.forall₂_same]
  exact fun key _ => describes_message ⟨key, part, suggestion? key accepted⟩

/-! ## The sections of a document -/

/-- A section of a document: the whole, that of the filter, that of its search, or an entry for
a field. -/
inductive Part where
  | document
  | filter
  | search
  | field (place : Nat)

namespace Part

def name : Part → String
  | document => "document"
  | filter => "filter"
  | search => "search"
  | field _ => "field"

def accepted : Part → List String
  | document => ["filter"]
  | filter => ["name", "ordering_field", "model_fields", "search", "fields"]
  | search => ["field", "model_fields"]
  | field _ => ["name", "type", "nested"]

def steps : Part → List Yaml.Value.Step
  | document => []
  | filter => [.key "filter"]
  | search => [.key "filter", .key "search"]
  | field place => [.key "filter", .key "fields", .item place]

def value? (part : Part) (document : Yaml.Value) : Option Yaml.Value :=
  document.at? part.steps

variable {document : Yaml.Value}

theorem value?_filter : filter.value? document = document.get? "filter" := by
  simp [value?, steps, Yaml.Value.at?, Yaml.Value.step?]

theorem value?_search :
    search.value? document = (filter.value? document).bind (·.get? "search") := by
  simp [value?, steps, Yaml.Value.at?, Yaml.Value.step?]

theorem value?_field (place : Nat) :
    (field place).value? document =
      ((filter.value? document).bind (items? · "fields")).bind (·[place]?) := by
  simp [value?, steps, Yaml.Value.at?, Yaml.Value.step?, items?, Option.bind_assoc]

end Part

theorem textKeys_of_string? {value : Yaml.Value} {text : String}
    (htext : value.string? = some text) : textKeys value = [] := by
  rw [textKeys, Yaml.Value.keys, Yaml.Value.entries?_of_string? htext]
  rfl

section Read

variable {document value : Yaml.Value} {outline : Outline}

theorem Outline.readIn_of_ofValue (hread : ofValue document = .ok outline)
    (hvalue : Part.filter.value? document = some value) : outline.ReadIn value := by
  obtain ⟨_, filter, hfilter, hsection⟩ := ofValue_eq_ok_iff.1 hread
  rw [Part.value?_filter, hfilter] at hvalue
  cases hvalue
  exact hsection

theorem Outline.search_of_ofValue (hread : ofValue document = .ok outline)
    (hvalue : Part.search.value? document = some value) :
    ∃ given, searchConstants value given = .ok outline.constants := by
  rw [Part.value?_search] at hvalue
  obtain ⟨filter, hfilter, hsearch⟩ := Option.bind_eq_some_iff.1 hvalue
  have hsection := readIn_of_ofValue hread hfilter
  obtain ⟨_, _, ⟨hnone, _⟩ | ⟨search, hsome, hconstants⟩⟩ :=
    outlineConstants_eq_ok_iff.1 hsection.constants
  · rw [hnone] at hsearch
    cases hsearch
  · rw [hsome] at hsearch
    cases hsearch
    exact ⟨_, hconstants⟩

theorem Outline.field_of_ofValue {place : Nat} (hread : ofValue document = .ok outline)
    (hvalue : (Part.field place).value? document = some value) :
    ∃ field, OutlineField.ofValue value = .ok field := by
  rw [Part.value?_field] at hvalue
  obtain ⟨items, hitems, hplace⟩ := Option.bind_eq_some_iff.1 hvalue
  obtain ⟨filter, hfilter, hitems⟩ := Option.bind_eq_some_iff.1 hitems
  have hfields := (readIn_of_ofValue hread hfilter).fields
  rw [hitems, Option.getD_some] at hfields
  obtain ⟨field, _, hfield⟩ := Lists.getElem?_of_forall₂ (Outcome.mapM_eq_ok.1 hfields) hplace
  exact ⟨field, hfield⟩

theorem Outline.checkKeys_of_ofValue (hread : ofValue document = .ok outline) (part : Part)
    (hvalue : part.value? document = some value) :
    checkKeys value part.accepted part.name = .ok () := by
  cases part with
  | document =>
      cases hvalue
      exact (ofValue_eq_ok_iff.1 hread).1
  | filter => exact (readIn_of_ofValue hread hvalue).keys
  | search =>
      obtain ⟨_, hconstants⟩ := search_of_ofValue hread hvalue
      exact (searchConstants_eq_ok_iff.1 hconstants).1
  | field place =>
      obtain ⟨_, hfield⟩ := field_of_ofValue hread hvalue
      rcases OutlineField.ofValue_eq_ok_iff.1 hfield with ⟨htext, _⟩ | ⟨_, hkeys, _⟩
      · rw [checkKeys_eq_ok_iff, textKeys_of_string? htext]
        nofun
      · exact hkeys

end Read

/-! ## Documents that are refused -/

/-- A document that is never loaded, whatever is known and whatever is loaded with it. -/
structure Refused (document : Yaml.Value) : Prop where
  alone : ∀ known, ∃ fault, ofDocument known document = .error fault
  together : ∀ known documents, document ∈ documents →
    ∃ fault, ofDocuments known documents = .error fault

theorem refused_of_ofValue {document : Yaml.Value}
    (hread : ∀ outline, Outline.ofValue document ≠ .ok outline) : Refused document := by
  constructor
  · intro known
    cases hload : ofDocument known document with
    | error fault => exact ⟨fault, rfl⟩
    | ok definition =>
        obtain ⟨outline, houtline, _⟩ := Outcome.bind_eq_ok.1 hload
        exact absurd houtline (hread outline)
  · intro known documents hmem
    cases hload : ofDocuments known documents with
    | error fault => exact ⟨fault, rfl⟩
    | ok registry =>
        obtain ⟨all, hall, _⟩ := ofDocuments_eq_ok_iff.1 hload
        have hdocuments := Outcome.mapM_eq_ok.1 (outlines_eq_ok_iff.1 hall).1
        obtain ⟨outline, _, houtline⟩ := Lists.exists_of_forall₂ hdocuments.flip hmem
        exact absurd houtline (hread outline)

/-- A section is accepted exactly when all texts among its keys are, and otherwise refused with
a message that describes each of the others in order; where all keys are plain texts these are
all of its keys.  A document with a text among the keys of a section that is not accepted there
is refused. -/
theorem keys_checked (value : Yaml.Value) (accepted : List String) (name : String) :
    (checkKeys value accepted name = .ok () ↔
      ∀ key ∈ value.keys, ∀ text, key.string? = some text → text ∈ accepted) ∧
    (∀ fault, checkKeys value accepted name = .error fault →
      ∃ reports messages, fault = .unknownKeys name reports ∧
        reports.map (·.key) = (textKeys value).filter (· ∉ accepted) ∧
        List.Forall₂ (Describes name) (reports.map (·.key)) messages ∧
        fault.message =
          "Invalid value for field '" ++ name ++ "': " ++ "; ".intercalate messages) ∧
    ((∀ key ∈ value.keys, ∃ text, key = .string text) →
      (checkKeys value accepted name = .ok () ↔
        ∀ key ∈ value.keys, ∃ text ∈ accepted, key = .string text)) ∧
    ∀ (document : Yaml.Value) (part : Part), part.value? document = some value →
      ∀ key ∈ value.keys, ∀ text, key.string? = some text → text ∉ part.accepted →
        Refused document := by
  refine ⟨?_, ?_, checkKeys_of_plain, ?_⟩
  · rw [checkKeys_eq_ok_iff]
    constructor
    · intro haccepted key hkey text htext
      exact haccepted text (mem_textKeys.2 ⟨key, hkey, htext⟩)
    · intro haccepted text hmem
      obtain ⟨key, hkey, htext⟩ := mem_textKeys.1 hmem
      exact haccepted key hkey text htext
  · intro fault hfault
    obtain ⟨rejected, hrejected, _, rfl⟩ := checkKeys_eq_error_iff.1 hfault
    obtain ⟨messages, hdescribe, hmessage⟩ := exists_messages name rejected accepted
    refine ⟨_, messages, rfl, ?_, ?_, hmessage⟩
    · simpa [Function.comp_def] using hrejected
    · simpa [Function.comp_def] using hdescribe
  · intro document part hvalue key hkey text htext hnot
    apply refused_of_ofValue
    intro outline hread
    have hchecked := Outline.checkKeys_of_ofValue hread part hvalue
    exact hnot (checkKeys_eq_ok_iff.1 hchecked text (mem_textKeys.2 ⟨key, hkey, htext⟩))

namespace Sample

def misspeltEntry : Yaml.Value :=
  .mapping [(.string "nme", .string "artist")]

def misspelt : Yaml.Value :=
  document "Album" [.string "title", misspeltEntry]

def numberedFilter : Yaml.Value :=
  .mapping [(.string "name", .string "Album"), (.int 1, .string "title")]

def numbered : Yaml.Value :=
  .mapping [(.string "filter", numberedFilter)]

theorem misspelt_refused :
    (Part.field 1).value? misspelt = some misspeltEntry ∧ Refused misspelt ∧
      (∀ fault, checkKeys misspeltEntry ["name", "type", "nested"] "field" = .error fault →
        ∃ messages, List.Forall₂ (Describes "field") ["nme"] messages ∧
          fault.message = "Invalid value for field 'field': " ++ "; ".intercalate messages) := by
  obtain ⟨_, hdescribed, _, hrefused⟩ :=
    keys_checked misspeltEntry ["name", "type", "nested"] "field"
  have hentry : (Part.field 1).value? misspelt = some misspeltEntry := by rfl
  refine ⟨hentry, ?_, ?_⟩
  · exact hrefused misspelt (.field 1) hentry (.string "nme") (.head _) "nme" rfl (by decide)
  · intro fault hfault
    obtain ⟨reports, messages, _, hkeys, hdescribe, hmessage⟩ := hdescribed fault hfault
    have hrejected : reports.map (·.key) = ["nme"] := hkeys
    exact ⟨messages, hrejected ▸ hdescribe, hmessage⟩

/-- A number is a key that no section accepts, yet a document with one is loaded. -/
theorem numbered_loads :
    Part.filter.value? numbered = some numberedFilter ∧ .int 1 ∈ numberedFilter.keys ∧
      (∀ text ∈ Part.filter.accepted, Yaml.Value.int 1 ≠ .string text) ∧
      checkKeys numberedFilter Part.filter.accepted Part.filter.name = .ok () ∧
      ofDocument {} numbered = .ok ⟨"Album", [], {}⟩ := by
  refine ⟨by rfl, .tail _ (.head _), nofun, by rfl, by rfl⟩

end Sample

end FilterQuery.Schema
