import FilterQuery.Text.Blank
import Mathlib.Data.List.DropRight
/-!
# Trimming

Trimming divides a text into white space, a core that neither begins nor ends in white space, and
white space again.  A text has one core, so trimming is told by this division.
-/

namespace FilterQuery.Text

variable {c : Char} {chars core lead tail rest : List Char}

def EndsBlank (chars : List Char) : Prop :=
  ∃ c ∈ chars.getLast?, isBlank c

instance (chars : List Char) : Decidable (EndsBlank chars) :=
  inferInstanceAs (Decidable (∃ c ∈ chars.getLast?, isBlank c))

/-- Characters that neither begin nor end in white space. -/
structure Trimmed (chars : List Char) : Prop where
  begins : ∀ c ∈ chars.head?, ¬ isBlank c
  ends : ¬ EndsBlank chars

/-- Characters with white space around them, or none. -/
inductive Padded (core : List Char) : List Char → Prop
  | around {lead tail : List Char} (hlead : ∀ c ∈ lead, isBlank c)
      (htail : ∀ c ∈ tail, isBlank c) : Padded core (lead ++ core ++ tail)

/-! ## The end -/

theorem dropBlankEnd_eq (chars : List Char) : dropBlankEnd chars = chars.rdropWhile isBlank := by
  induction chars with
  | nil => rfl
  | cons c rest ih =>
      rw [dropBlankEnd, ih, List.rdropWhile, List.rdropWhile, List.reverse_cons,
        List.dropWhile_append]
      cases hrest : rest.reverse.dropWhile isBlank with
      | nil => by_cases hc : isBlank c <;> simp [hc]
      | cons d kept => cases hkept : (d :: kept).reverse <;> simp_all

theorem dropBlankEnd_eq_self_iff : dropBlankEnd chars = chars ↔ ¬ EndsBlank chars := by
  rw [dropBlankEnd_eq, List.rdropWhile_eq_self_iff]
  unfold EndsBlank
  by_cases hnil : chars = []
  · simp [hnil]
  · simp [hnil, List.getLast?_eq_some_getLast hnil]

theorem not_endsBlank_dropBlankEnd (chars : List Char) : ¬ EndsBlank (dropBlankEnd chars) := by
  rw [← dropBlankEnd_eq_self_iff, dropBlankEnd_eq, dropBlankEnd_eq, List.rdropWhile_idempotent]

theorem dropBlankEnd_cons (hc : ¬ isBlank c) (rest : List Char) :
    dropBlankEnd (c :: rest) = c :: dropBlankEnd rest := by
  rw [dropBlankEnd]
  split
  · rw [if_neg hc, ‹dropBlankEnd rest = []›]
  · rfl

theorem EndsBlank.of_suffix (hends : EndsBlank rest) (hsuffix : rest <:+ chars) :
    EndsBlank chars := by
  obtain ⟨front, rfl⟩ := hsuffix
  obtain ⟨c, hlast, hc⟩ := hends
  exact ⟨c, List.mem_getLast?_append_of_mem_getLast? hlast, hc⟩

theorem dropBlankEnd_append (htail : ∀ c ∈ tail, isBlank c) :
    dropBlankEnd (chars ++ tail) = dropBlankEnd chars := by
  rw [dropBlankEnd_eq, dropBlankEnd_eq, List.rdropWhile, List.rdropWhile, List.reverse_append,
    List.dropWhile_append_of_pos]
  simpa using htail

/-! ## Both ends -/

theorem trimmed_trimChars (chars : List Char) : Trimmed (trimChars chars) where
  begins := by
    intro c hhead
    have hprefix : trimChars chars <+: chars.dropWhile isBlank := by
      rw [trimChars, dropBlankEnd_eq]
      exact List.rdropWhile_prefix ..
    have hfirst : (chars.dropWhile isBlank).head? = some c := by
      obtain ⟨behind, hbehind⟩ := hprefix
      rw [← hbehind, List.head?_append, hhead, Option.some_or]
    have hstop := List.head?_dropWhile_not isBlank chars
    rw [hfirst] at hstop
    simpa using hstop
  ends := not_endsBlank_dropBlankEnd _

theorem padded_trimChars (chars : List Char) : Padded (trimChars chars) chars := by
  have hlead : ∀ c ∈ chars.takeWhile isBlank, isBlank c := fun c => List.mem_takeWhile_imp
  have htail : ∀ c ∈ (chars.dropWhile isBlank).rtakeWhile isBlank, isBlank c :=
    fun c => List.mem_rtakeWhile_imp
  have hwhole : chars.takeWhile isBlank ++ trimChars chars ++
      (chars.dropWhile isBlank).rtakeWhile isBlank = chars := by
    rw [trimChars, dropBlankEnd_eq, List.append_assoc, List.rdropWhile_append_rtakeWhile,
      List.takeWhile_append_dropWhile]
  have hpadded : Padded (trimChars chars) (_ ++ trimChars chars ++ _) := .around hlead htail
  rwa [hwhole] at hpadded

theorem Padded.self (chars : List Char) : Padded chars chars := by
  have hpadded : Padded chars ([] ++ chars ++ []) := .around nofun nofun
  rwa [List.nil_append, List.append_nil] at hpadded

theorem trimChars_of_padded (hpadded : Padded core chars) : trimChars chars = trimChars core := by
  obtain ⟨hlead, htail⟩ := hpadded
  rw [trimChars, trimChars, List.append_assoc, List.dropWhile_append_of_pos hlead,
    List.dropWhile_append]
  split
  · rename_i hblank
    rw [List.isEmpty_iff.1 hblank, List.dropWhile_eq_nil_iff.2 htail]
  · exact dropBlankEnd_append htail

theorem trimmed_of_forall (hnone : ∀ c ∈ chars, ¬ isBlank c) : Trimmed chars where
  begins := fun c hhead => hnone c (List.mem_of_mem_head? hhead)
  ends := fun ⟨c, hlast, hc⟩ => hnone c (List.mem_of_mem_getLast? hlast) hc

theorem trimChars_of_trimmed (htrimmed : Trimmed core) : trimChars core = core := by
  have hbegin : core.dropWhile isBlank = core := by
    cases core with
    | nil => rfl
    | cons c rest => exact List.dropWhile_cons_of_neg (htrimmed.begins c rfl)
  rw [trimChars, hbegin, dropBlankEnd_eq_self_iff]
  exact htrimmed.ends

/-- A text is divided in one way into white space, what trimming leaves, and white space. -/
theorem trimChars_eq_iff : trimChars chars = core ↔ Padded core chars ∧ Trimmed core := by
  constructor
  · rintro rfl
    exact ⟨padded_trimChars chars, trimmed_trimChars chars⟩
  · rintro ⟨hpadded, htrimmed⟩
    rw [trimChars_of_padded hpadded, trimChars_of_trimmed htrimmed]

end FilterQuery.Text
