import Mathlib.Order.Bounds.Basic
/-!
# Single-character edits

The Levenshtein distance of two texts is the least number of insertions, deletions and
substitutions of single characters that lead from one to the other.  By its recursion over the
first characters of both, the distance can be reached, and no single edit of the second text
lowers it by more than one, so fewer edits cannot lead there.
-/

namespace FilterQuery.Text

/-- The second text is the first with one character inserted, deleted or replaced. -/
inductive Edit : List Char → List Char → Prop
  | insert (before after : List Char) (c : Char) : Edit (before ++ after) (before ++ c :: after)
  | delete (before after : List Char) (c : Char) : Edit (before ++ c :: after) (before ++ after)
  | substitute (before after : List Char) (c d : Char) :
      Edit (before ++ c :: after) (before ++ d :: after)

/-- So many edits, one after the other, lead from the first text to the second. -/
inductive Edits : Nat → List Char → List Char → Prop
  | none (a : List Char) : Edits 0 a a
  | more {n : Nat} {a b c : List Char} (hedits : Edits n a b) (hedit : Edit b c) :
      Edits (n + 1) a c

/-- The Levenshtein distance, by the first characters of both texts. -/
def levenshtein : List Char → List Char → Nat
  | [], b => b.length
  | a, [] => a.length
  | c :: a, d :: b =>
      min (levenshtein a b + if c = d then 0 else 1)
        (min (levenshtein a (d :: b) + 1) (levenshtein (c :: a) b + 1))
termination_by a b => a.length + b.length

variable {a b : List Char} {n : Nat}

@[simp] theorem levenshtein_nil_left (b : List Char) : levenshtein [] b = b.length := by
  rw [levenshtein]

@[simp] theorem levenshtein_nil_right (a : List Char) : levenshtein a [] = a.length := by
  cases a <;> simp [levenshtein]

theorem levenshtein_cons_cons (c d : Char) (a b : List Char) :
    levenshtein (c :: a) (d :: b) =
      min (levenshtein a b + if c = d then 0 else 1)
        (min (levenshtein a (d :: b) + 1) (levenshtein (c :: a) b + 1)) := by
  rw [levenshtein]

/-! ## Reaching the distance -/

theorem Edit.cons (c : Char) (hedit : Edit a b) : Edit (c :: a) (c :: b) := by
  cases hedit with
  | insert before after d => exact .insert (c :: before) after d
  | delete before after d => exact .delete (c :: before) after d
  | substitute before after d e => exact .substitute (c :: before) after d e

theorem Edits.cons (c : Char) (hedits : Edits n a b) : Edits n (c :: a) (c :: b) := by
  induction hedits with
  | none a => exact .none (c :: a)
  | more _ hedit ih => exact .more ih (hedit.cons c)

theorem edits_of_nil (b : List Char) : Edits b.length [] b := by
  induction b with
  | nil => exact .none []
  | cons d b ih => exact .more ih (.insert [] b d)

theorem edits_to_nil (a : List Char) : Edits a.length a [] := by
  induction a with
  | nil => exact .none []
  | cons c a ih => exact .more (ih.cons c) (.delete [] [] c)

theorem edits_levenshtein (a b : List Char) : Edits (levenshtein a b) a b := by
  induction a, b using levenshtein.induct with
  | case1 b =>
      rw [levenshtein_nil_left]
      exact edits_of_nil b
  | case2 a _ =>
      rw [levenshtein_nil_right]
      exact edits_to_nil a
  | case3 c a d b ihboth ihleft ihright =>
      have hboth : Edits (levenshtein a b + if c = d then 0 else 1) (c :: a) (d :: b) := by
        split
        · rename_i heq
          exact heq ▸ ihboth.cons c
        · exact .more (ihboth.cons c) (.substitute [] b c d)
      have hleft : Edits (levenshtein a (d :: b) + 1) (c :: a) (d :: b) :=
        .more (ihleft.cons c) (.delete [] (d :: b) c)
      have hright : Edits (levenshtein (c :: a) b + 1) (c :: a) (d :: b) :=
        .more ihright (.insert [] b d)
      rw [levenshtein_cons_cons]
      exact min_rec' (Edits · (c :: a) (d :: b)) hboth
        (min_rec' (Edits · (c :: a) (d :: b)) hleft hright)

/-! ## No shorter way -/

theorem levenshtein_le_cons (a : List Char) (d : Char) (b : List Char) :
    levenshtein a (d :: b) ≤ levenshtein a b + 1 := by
  cases a with
  | nil => simp
  | cons c a =>
      rw [levenshtein_cons_cons]
      omega

theorem levenshtein_cons_le (c : Char) (a b : List Char) :
    levenshtein (c :: a) b ≤ levenshtein a b + 1 := by
  cases b with
  | nil => simp
  | cons d b =>
      rw [levenshtein_cons_cons]
      omega

theorem levenshtein_cons_ge (a : List Char) (d : Char) (b : List Char) :
    levenshtein a b ≤ levenshtein a (d :: b) + 1 := by
  induction a with
  | nil =>
      simp only [levenshtein_nil_left, List.length_cons]
      omega
  | cons c a ih =>
      have hcons := levenshtein_cons_le c a b
      rw [levenshtein_cons_cons]
      split <;> omega

theorem levenshtein_cons_substitute (a : List Char) (d e : Char) (b : List Char) :
    levenshtein a (e :: b) ≤ levenshtein a (d :: b) + 1 := by
  induction a with
  | nil => simp
  | cons c a ih =>
      rw [levenshtein_cons_cons, levenshtein_cons_cons]
      split <;> split <;> omega

theorem levenshtein_append_le {b b' : List Char}
    (hbound : ∀ a, levenshtein a b' ≤ levenshtein a b + 1) (before a : List Char) :
    levenshtein a (before ++ b') ≤ levenshtein a (before ++ b) + 1 := by
  induction before generalizing a with
  | nil => exact hbound a
  | cons d before ih =>
      rw [List.cons_append, List.cons_append]
      induction a with
      | nil => simpa using ih []
      | cons c a iha =>
          have hboth := ih a
          have hright := ih (c :: a)
          rw [levenshtein_cons_cons, levenshtein_cons_cons]
          omega

/-- An edit of the second text raises the distance by at most one. -/
theorem Edit.levenshtein_le (hedit : Edit a b) (origin : List Char) :
    levenshtein origin b ≤ levenshtein origin a + 1 := by
  cases hedit with
  | insert before after c =>
      exact levenshtein_append_le (fun a => levenshtein_le_cons a c after) before origin
  | delete before after c =>
      exact levenshtein_append_le (fun a => levenshtein_cons_ge a c after) before origin
  | substitute before after c d =>
      exact levenshtein_append_le (fun a => levenshtein_cons_substitute a c d after) before origin

theorem levenshtein_self (a : List Char) : levenshtein a a = 0 := by
  induction a with
  | nil => simp
  | cons c a ih =>
      rw [levenshtein_cons_cons, ih, if_pos rfl]
      omega

theorem Edits.levenshtein_le (hedits : Edits n a b) : levenshtein a b ≤ n := by
  induction hedits with
  | none a => exact Nat.le_of_eq (levenshtein_self a)
  | @more n a b c _ hedit ih =>
      have hstep := hedit.levenshtein_le a
      omega

theorem levenshtein_isLeast (a b : List Char) :
    IsLeast {n | Edits n a b} (levenshtein a b) := by
  refine ⟨edits_levenshtein a b, ?_⟩
  intro n hedits
  exact Edits.levenshtein_le hedits

/-! ## Texts read backwards -/

theorem Edit.reverse (hedit : Edit a b) : Edit a.reverse b.reverse := by
  cases hedit with
  | insert before after c =>
      rw [List.reverse_append, List.reverse_append, List.reverse_cons, List.append_assoc]
      exact .insert after.reverse before.reverse c
  | delete before after c =>
      rw [List.reverse_append, List.reverse_append, List.reverse_cons, List.append_assoc]
      exact .delete after.reverse before.reverse c
  | substitute before after c d =>
      rw [List.reverse_append, List.reverse_append, List.reverse_cons, List.reverse_cons,
        List.append_assoc, List.append_assoc]
      exact .substitute after.reverse before.reverse c d

theorem Edits.reverse (hedits : Edits n a b) : Edits n a.reverse b.reverse := by
  induction hedits with
  | none a => exact .none a.reverse
  | more _ hedit ih => exact .more ih hedit.reverse

theorem edits_reverse_iff : Edits n a.reverse b.reverse ↔ Edits n a b := by
  constructor
  · intro hedits
    simpa using hedits.reverse
  · exact Edits.reverse

theorem levenshtein_reverse (a b : List Char) :
    levenshtein a.reverse b.reverse = levenshtein a b := by
  have hbackwards := levenshtein_isLeast a.reverse b.reverse
  simp only [edits_reverse_iff] at hbackwards
  exact hbackwards.unique (levenshtein_isLeast a b)

end FilterQuery.Text
