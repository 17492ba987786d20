import FilterQuery.Decimal.Integer
import FilterQuery.Proofs.Text.Trimming
/-!
# Decimal texts of integers

An integer is written with digits, as many as one likes, behind at most one sign.  The reader takes
exactly these texts, and for each of them it gives the number whose digits they are.  It is only
asked afterwards whether the number fits a word, so no number is changed to make it fit.  White space
around a decimal text is trimmed, and what is left of the text is the decimal text itself.
-/

namespace FilterQuery.Decimal

variable {c : Char} {chars digits : List Char} {text : String} {value n : Nat}
  {number other : Int}

def IsNumeral (digits : List Char) : Prop :=
  digits ≠ [] ∧ ∀ c ∈ digits, c.isDigit

/-- Characters that write an integer in decimals. -/
inductive Writes : List Char → Int → Prop
  | bare {digits : List Char} (hdigits : IsNumeral digits) :
      Writes digits (Nat.ofDigitChars 10 digits 0)
  | plus {digits : List Char} (hdigits : IsNumeral digits) :
      Writes ('+' :: digits) (Nat.ofDigitChars 10 digits 0)
  | minus {digits : List Char} (hdigits : IsNumeral digits) :
      Writes ('-' :: digits) (-(Nat.ofDigitChars 10 digits 0 : Int))

/-- The integers that a signed word of 64 bits holds. -/
def IsWord (number : Int) : Prop :=
  -9223372036854775808 ≤ number ∧ number ≤ 9223372036854775807

instance (number : Int) : Decidable (IsWord number) :=
  inferInstanceAs (Decidable (_ ∧ _))

theorem isWord_iff : fitsSigned 64 number ↔ IsWord number := by
  have hword : Nat.pow 2 63 = 9223372036854775808 := by decide
  unfold IsWord
  cases number with
  | ofNat n =>
      rw [fitsSigned, fitsWord, hword, decide_eq_true_iff, Int.ofNat_eq_natCast]
      omega
  | negSucc n =>
      rw [fitsSigned, fitsWord, hword, decide_eq_true_iff, Int.negSucc_eq]
      omega

/-! ## Digits -/

theorem digit?_ten (c : Char) :
    digit? 10 c = if c.isDigit then some (c.toNat - '0'.toNat) else none := by
  have hrange : ('0' ≤ c ∧ c ≤ '9') ↔ c.isDigit := Char.isDigit_iff_toNat.symm
  unfold digit?
  simp only [hrange]
  by_cases hc : c.isDigit
  · have hsmall : c.toNat - '0'.toNat < 10 := by
      have hnine : c.toNat ≤ '9'.toNat := (Char.isDigit_iff_toNat.1 hc).2
      have hten : '9'.toNat - '0'.toNat < 10 := by decide
      omega
    rw [if_pos hc, if_pos hc, Option.filter_some_pos (by simpa using hsmall)]
  · -- The letters are digits of larger bases, and their values start at ten.
    rw [if_neg hc, if_neg hc]
    split
    · simp
    · split <;> simp

theorem natFrom?_eq_some_iff :
    natFrom? 10 value digits = some n ↔
      (∀ c ∈ digits, c.isDigit) ∧ n = Nat.ofDigitChars 10 digits value := by
  induction digits generalizing value with
  | nil => rw [natFrom?, Nat.ofDigitChars_nil, Option.some_inj, eq_comm]; simp
  | cons c rest ih =>
      rw [natFrom?, digit?_ten, List.forall_mem_cons, Nat.ofDigitChars_cons]
      by_cases hc : c.isDigit
      · rw [if_pos hc, Option.bind_eq_bind, Option.bind_some, ih, Nat.mul_comm, and_iff_right hc]
      · simp [hc]

theorem nat?_eq_some_iff :
    nat? 10 digits = some n ↔ IsNumeral digits ∧ n = Nat.ofDigitChars 10 digits 0 := by
  unfold nat? IsNumeral
  split
  · rename_i hempty
    simp [List.isEmpty_iff.1 hempty]
  · rename_i hempty
    have hne : digits ≠ [] := by simpa using hempty
    rw [natFrom?_eq_some_iff, and_assoc, and_iff_right hne]

/-! ## Integers -/

theorem int?_minus (digits : List Char) :
    int? ('-' :: digits) = (nat? 10 digits).map fun (n : Nat) => -(n : Int) := by
  rw [int?]
  cases nat? 10 digits <;> rfl

theorem int?_plus (digits : List Char) :
    int? ('+' :: digits) = (nat? 10 digits).map Int.ofNat := by
  rw [int?]

theorem int?_bare (hminus : ∀ rest, chars ≠ '-' :: rest) (hplus : ∀ rest, chars ≠ '+' :: rest) :
    int? chars = (nat? 10 chars).map Int.ofNat := by
  unfold int?
  split
  · exact absurd rfl (hminus _)
  · exact absurd rfl (hplus _)
  · rfl

theorem IsNumeral.ne_cons (hdigits : IsNumeral digits) (hc : c.isDigit = false)
    (rest : List Char) : digits ≠ c :: rest := by
  rintro rfl
  have hdigit := hdigits.2 c (.head _)
  rw [hc] at hdigit
  cases hdigit

theorem map_nat?_eq_some_iff {sign : Nat → Int} :
    (nat? 10 digits).map sign = some number ↔
      IsNumeral digits ∧ number = sign (Nat.ofDigitChars 10 digits 0) := by
  rw [Option.map_eq_some_iff]
  simp only [nat?_eq_some_iff]
  constructor
  · rintro ⟨n, ⟨hdigits, rfl⟩, rfl⟩
    exact ⟨hdigits, rfl⟩
  · rintro ⟨hdigits, rfl⟩
    exact ⟨_, ⟨hdigits, rfl⟩, rfl⟩

/-- The reader takes the decimal texts, and gives the numbers that they write. -/
theorem int?_eq_some_iff : int? chars = some number ↔ Writes chars number := by
  constructor
  · intro hread
    by_cases hminus : ∃ rest, chars = '-' :: rest
    · obtain ⟨digits, rfl⟩ := hminus
      rw [int?_minus, map_nat?_eq_some_iff] at hread
      obtain ⟨hdigits, rfl⟩ := hread
      exact .minus hdigits
    by_cases hplus : ∃ rest, chars = '+' :: rest
    · obtain ⟨digits, rfl⟩ := hplus
      rw [int?_plus, map_nat?_eq_some_iff] at hread
      obtain ⟨hdigits, rfl⟩ := hread
      exact .plus hdigits
    · rw [int?_bare (not_exists.1 hminus) (not_exists.1 hplus), map_nat?_eq_some_iff] at hread
      obtain ⟨hdigits, rfl⟩ := hread
      exact .bare hdigits
  · intro hwrites
    cases hwrites with
    | bare hdigits =>
        rw [int?_bare (hdigits.ne_cons rfl) (hdigits.ne_cons rfl)]
        exact map_nat?_eq_some_iff.2 ⟨hdigits, rfl⟩
    | plus hdigits =>
        rw [int?_plus]
        exact map_nat?_eq_some_iff.2 ⟨hdigits, rfl⟩
    | minus hdigits =>
        rw [int?_minus]
        exact map_nat?_eq_some_iff.2 ⟨hdigits, rfl⟩

theorem writes_toString (number : Int) : Writes (toString number).toList number := by
  have hnumeral (n : Nat) : IsNumeral (Nat.toDigits 10 n) :=
    ⟨Nat.toDigits_ne_nil, fun c => Nat.isDigit_of_mem_toDigits (by decide) (by decide)⟩
  have hvalue (n : Nat) : Nat.ofDigitChars 10 (Nat.toDigits 10 n) 0 = n :=
    Nat.ofDigitChars_ten_toDigits
  rw [Int.toString_eq_repr, Int.repr_eq_if]
  split
  · have hwrites := Writes.bare (hnumeral number.toNat)
    rw [hvalue, Int.toNat_of_nonneg ‹0 ≤ number›] at hwrites
    rwa [Nat.repr_eq_ofList_toDigits, String.toList_ofList]
  · have hwrites := Writes.minus (hnumeral (-number).toNat)
    rw [hvalue, Int.toNat_of_nonneg (by omega), Int.neg_neg] at hwrites
    rw [Nat.repr_eq_ofList_toDigits, String.toList_append, String.toList_ofList,
      String.toList_ofList]
    exact hwrites

/-! ## White space around integers -/

/-- A text that writes an integer, with white space around it or none. -/
def Denotes (text : String) (number : Int) : Prop :=
  ∃ chars, Writes chars number ∧ Text.Padded chars text.toList

theorem not_isBlank_of_isDigit (hc : c.isDigit) : ¬ Text.isBlank c := by
  have hzero : 48 ≤ c.toNat := (Char.isDigit_iff_toNat.1 hc).1
  have hnine : c.toNat ≤ 57 := (Char.isDigit_iff_toNat.1 hc).2
  simp only [Text.isBlank, Text.blankRanges, List.any_cons, List.any_nil, Bool.or_eq_true,
    Bool.and_eq_true, decide_eq_true_eq, Bool.false_eq_true, or_false]
  omega

theorem Writes.forall_mem {P : Char → Prop} (hwrites : Writes chars number)
    (hdigit : ∀ c, c.isDigit → P c) (hplus : P '+') (hminus : P '-') : ∀ c ∈ chars, P c := by
  have hnumeral : ∀ {digits}, IsNumeral digits → ∀ c ∈ digits, P c :=
    fun hdigits c hmem => hdigit c (hdigits.2 c hmem)
  cases hwrites with
  | bare hdigits => exact hnumeral hdigits
  | plus hdigits => exact List.forall_mem_cons.2 ⟨hplus, hnumeral hdigits⟩
  | minus hdigits => exact List.forall_mem_cons.2 ⟨hminus, hnumeral hdigits⟩

theorem Writes.trimmed (hwrites : Writes chars number) : Text.Trimmed chars :=
  Text.trimmed_of_forall
    (hwrites.forall_mem (fun _ => not_isBlank_of_isDigit) (by decide) (by decide))

theorem Denotes.comma_not_mem (hdenotes : Denotes text number) : ',' ∉ text.toList := by
  obtain ⟨chars, hwrites, hpadded⟩ := hdenotes
  generalize text.toList = whole at hpadded
  obtain ⟨hlead, htail⟩ := hpadded
  have hcore : ∀ c ∈ chars, c ≠ ',' :=
    hwrites.forall_mem (fun c hc => by rintro rfl; cases hc) (by decide) (by decide)
  have hcomma : ¬ Text.isBlank ',' := by decide
  intro hmem
  simp only [List.mem_append] at hmem
  rcases hmem with (hmem | hmem) | hmem
  · exact hcomma (hlead _ hmem)
  · exact hcore _ hmem rfl
  · exact hcomma (htail _ hmem)

theorem denotes_iff :
    Denotes text number ↔ int? (Text.trimChars text.toList) = some number := by
  rw [int?_eq_some_iff]
  constructor
  · rintro ⟨chars, hwrites, hpadded⟩
    rwa [Text.trimChars_eq_iff.2 ⟨hpadded, hwrites.trimmed⟩]
  · intro hwrites
    exact ⟨_, hwrites, Text.padded_trimChars _⟩

theorem Denotes.unique (hdenotes : Denotes text number) (hother : Denotes text other) :
    number = other :=
  Option.some.inj ((denotes_iff.1 hdenotes).symm.trans (denotes_iff.1 hother))

theorem Denotes.ne_empty (hdenotes : Denotes text number) : text ≠ "" := by
  rintro rfl
  cases denotes_iff.1 hdenotes

theorem denotes_toString (number : Int) : Denotes (toString number) number :=
  ⟨_, writes_toString number, .self _⟩

end FilterQuery.Decimal
