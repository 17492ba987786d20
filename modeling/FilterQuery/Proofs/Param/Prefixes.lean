import FilterQuery.Param.Route
import Mathlib.Data.List.Infix
/-!
# The names that a key begins with

A key can be read as the name of a nested field, the delimiter, and a key below it.  Several names
may fit, one being the beginning of another, and the longest of them is taken.  Since all of them
are beginnings of one key, no two that fit are of one length, so there is one that is longest.
-/

namespace FilterQuery

theorem Text.after?_eq_some_iff {lead text rest : String} :
    Text.after? lead text = some rest ↔ lead ++ rest = text := by
  unfold Text.after?
  rw [Option.map_eq_some_iff]
  constructor
  · rintro ⟨chars, hchars, rfl⟩
    have happend := List.isPrefixOf?_eq_some_iff_append_eq.1 hchars
    rw [← String.toList_inj, String.toList_append, String.toList_ofList, happend]
  · rintro rfl
    refine ⟨rest.toList, List.isPrefixOf?_eq_some_iff_append_eq.2 ?_, String.ofList_toList⟩
    rw [String.toList_append]

namespace Definition

variable {definition : Definition} {key name rest : String}

/-- A reading of a key as the name of a nested field, the delimiter, and a key of the filter
under the field. -/
structure Reads (definition : Definition) (key name rest : String) : Prop where
  nested : ∃ declared ∈ definition.fields, declared.name = name ∧ declared.kind.nested?.isSome
  key_eq : name ++ Text.delimiter ++ rest = key
  nonempty : rest ≠ ""

theorem mem_nestedReadings :
    (name, rest) ∈ definition.nestedReadings key ↔ definition.Reads key name rest := by
  unfold nestedReadings
  rw [List.mem_filterMap]
  constructor
  · rintro ⟨declared, hmem, hread⟩
    obtain ⟨sub, hkind, hread⟩ := Option.bind_eq_some_iff.1 hread
    obtain ⟨rest, hafter, hread⟩ := Option.bind_eq_some_iff.1 hread
    obtain ⟨tail, htail, hrest⟩ := Option.bind_eq_some_iff.1 hafter
    split at hread
    · cases hread
    · rename_i hnonempty
      cases hread
      refine ⟨⟨declared, hmem, rfl, Option.isSome_of_eq_some hkind⟩, ?_, ?_⟩
      · rw [String.append_assoc, Text.after?_eq_some_iff.1 hrest, Text.after?_eq_some_iff.1 htail]
      · rwa [String.isEmpty_iff] at hnonempty
  · rintro ⟨⟨declared, hmem, rfl, hkind⟩, rfl, hnonempty⟩
    obtain ⟨sub, hkind⟩ := Option.isSome_iff_exists.1 hkind
    have hrest : (Text.after? declared.name (declared.name ++ Text.delimiter ++ rest)).bind
        (Text.after? Text.delimiter) = some rest := by
      rw [String.append_assoc, Text.after?_eq_some_iff.2 rfl]
      exact Text.after?_eq_some_iff.2 rfl
    refine ⟨declared, hmem, ?_⟩
    rw [hkind, hrest]
    exact if_neg (by rwa [String.isEmpty_iff])

theorem Reads.eq_of_length {other more : String} (hreads : definition.Reads key name rest)
    (hother : definition.Reads key other more) (hlength : name.length = other.length) :
    name = other ∧ rest = more := by
  have hkey : name ++ (Text.delimiter ++ rest) = other ++ (Text.delimiter ++ more) := by
    rw [← String.append_assoc, ← String.append_assoc, hreads.key_eq, hother.key_eq]
  have hchars : name.toList ++ (Text.delimiter ++ rest).toList =
      other.toList ++ (Text.delimiter ++ more).toList := by
    rw [← String.toList_append, ← String.toList_append, hkey]
  obtain ⟨hname, hbehind⟩ := List.append_inj hchars
    (by rwa [String.length_toList, String.length_toList])
  have hrest : Text.delimiter ++ rest = Text.delimiter ++ more := String.toList_inj.1 hbehind
  exact ⟨String.toList_inj.1 hname, (String.append_right_inj _).1 hrest⟩

/-! ## The longest name -/

theorem Reads.exists_maxOn? (hreads : definition.Reads key name rest) :
    ∃ longest below,
      (definition.nestedReadings key).maxOn? (·.1.length) = some (longest, below) := by
  have hsome := List.isSome_maxOn?_of_mem (f := fun reading : String × String => reading.1.length)
    (mem_nestedReadings.2 hreads)
  obtain ⟨⟨longest, below⟩, hmax⟩ := Option.isSome_iff_exists.1 hsome
  exact ⟨longest, below, hmax⟩

theorem Reads.of_maxOn?
    (hmax : (definition.nestedReadings key).maxOn? (·.1.length) = some (name, rest)) :
    definition.Reads key name rest ∧
      ∀ other more, definition.Reads key other more → other.length ≤ name.length := by
  refine ⟨mem_nestedReadings.1 (List.maxOn?_mem hmax), ?_⟩
  intro other more hother
  have hle := List.le_apply_get_maxOn?_of_mem (f := fun reading : String × String =>
    reading.1.length) (mem_nestedReadings.2 hother)
  simpa only [hmax, Option.get_some] using hle

theorem maxOn?_nestedReadings_eq_some_iff :
    (definition.nestedReadings key).maxOn? (·.1.length) = some (name, rest) ↔
      definition.Reads key name rest ∧
        ∀ other more, definition.Reads key other more → other.length ≤ name.length := by
  refine ⟨Reads.of_maxOn?, ?_⟩
  rintro ⟨hreads, hall⟩
  obtain ⟨found, more, hmax⟩ := hreads.exists_maxOn?
  obtain ⟨hfound, hlonger⟩ := Reads.of_maxOn? hmax
  have hlength : found.length = name.length :=
    Nat.le_antisymm (hall found more hfound) (hlonger name rest hreads)
  obtain ⟨rfl, rfl⟩ := hfound.eq_of_length hreads hlength
  exact hmax

/-- A key is routed to a nested field when it names nothing at its own level, and then to the
longest name that it can be read by. -/
theorem route_eq_nested_iff :
    definition.route key = .nested name rest ↔
      key ≠ definition.constants.orderingField ∧ definition.field? key = none ∧
        definition.Reads key name rest ∧
        ∀ other more, definition.Reads key other more → other.length ≤ name.length := by
  rw [← maxOn?_nestedReadings_eq_some_iff]
  unfold route
  constructor
  · intro hroute
    split at hroute
    · cases hroute
    rename_i hkey
    split at hroute
    · split at hroute <;> cases hroute
    rename_i hfield
    split at hroute
    · rename_i hmax
      cases hroute
      exact ⟨hkey, hfield, hmax⟩
    · cases hroute
  · rintro ⟨hkey, hfield, hmax⟩
    rw [if_neg hkey, hfield]
    simp only [hmax]

theorem reads_of_route (hroute : definition.route key = .nested name rest) :
    definition.Reads key name rest :=
  (route_eq_nested_iff.1 hroute).2.2.1

theorem exists_route_of_reads (hordering : key ≠ definition.constants.orderingField)
    (hfield : definition.field? key = none) (hreads : definition.Reads key name rest) :
    ∃ longest below, definition.route key = .nested longest below ∧
      definition.Reads key longest below ∧
      ∀ other more, definition.Reads key other more → other ≠ longest →
        other.length < longest.length := by
  obtain ⟨longest, below, hmax⟩ := hreads.exists_maxOn?
  obtain ⟨hlongest, hall⟩ := Reads.of_maxOn? hmax
  have hroute : definition.route key = .nested longest below :=
    route_eq_nested_iff.2 ⟨hordering, hfield, hlongest, hall⟩
  refine ⟨longest, below, hroute, hlongest, ?_⟩
  intro other more hother hne
  refine Nat.lt_of_le_of_ne (hall other more hother) ?_
  intro hlength
  exact hne (hother.eq_of_length hlongest hlength).1

end Definition

end FilterQuery
