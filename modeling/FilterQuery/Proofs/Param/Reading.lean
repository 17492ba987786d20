import FilterQuery.Param.Binding
import FilterQuery.Proofs.Filter.Induction
import FilterQuery.Proofs.Outcome
import Mathlib.Data.List.Induction
/-!
# The value of a field given several times

What is read for a field is never a null and never a sub-filter, and putting it after
what the field has keeps it so.  A field that was given at all therefore has a value
that asks for something.
-/

namespace FilterQuery

theorem FieldKind.isLeaf_of_read {field raw : String} {kind : FieldKind} {value : Value}
    (hread : kind.read field raw = .ok value) : value.isLeaf := by
  cases kind with
  | list item =>
      obtain ⟨items, _, rfl⟩ := Outcome.map_eq_ok.1 hread
      rfl
  | boolean =>
      cases hword : readBool? raw <;> simp [read, hword] at hread
      exact hread ▸ rfl
  | string =>
      obtain ⟨json, hjson, rfl⟩ := Outcome.map_eq_ok.1 hread
      cases hjson
      rfl
  | integer =>
      obtain ⟨json, hjson, rfl⟩ := Outcome.map_eq_ok.1 hread
      unfold readScalar at hjson
      cases hinteger : readInteger? raw <;> simp [hinteger] at hjson
      exact hjson ▸ rfl
  | number =>
      obtain ⟨json, hjson, rfl⟩ := Outcome.map_eq_ok.1 hread
      unfold readScalar at hjson
      cases hnumber : readNumber? raw <;> simp [hnumber] at hjson
      exact hjson ▸ rfl
  | nested definition =>
      obtain ⟨json, hjson, _⟩ := Outcome.map_eq_ok.1 hread
      cases hjson

theorem Value.isLeaf_after {value : Value} (hleaf : value.isLeaf) (earlier : Option Value) :
    (value.after earlier).isLeaf := by
  unfold Value.after
  split
  · rfl
  · exact hleaf

theorem FieldKind.after_of_read {field raw : String} {kind : FieldKind} {value : Value}
    (hkind : kind.isList = false) (hread : kind.read field raw = .ok value)
    (earlier : Option Value) : value.after earlier = value := by
  have hvalue : ∀ items, value ≠ .list items := by
    rintro items rfl
    cases kind with
    | list item => cases hkind
    | boolean => cases hword : readBool? raw <;> simp [read, hword] at hread
    | _ =>
        obtain ⟨_, _, heq⟩ := Outcome.map_eq_ok.1 hread
        cases heq
  unfold Value.after
  split
  · exact absurd rfl (hvalue _)
  · rfl

namespace DeclaredField

variable {declared : DeclaredField} {raws : List String}

/-- The value of a field after each of the texts given for it. -/
def readAll (declared : DeclaredField) (raws : List String) :
    Except BindError (Option Value) :=
  raws.foldlM (fun earlier raw => do
    let value ← declared.kind.read declared.name raw
    return some (value.after earlier)) none

theorem readAll_append_singleton {raw : String} {earlier : Option Value} {value : Value}
    (hearlier : declared.readAll raws = .ok earlier)
    (hread : declared.kind.read declared.name raw = .ok value) :
    declared.readAll (raws ++ [raw]) = .ok (some (value.after earlier)) := by
  unfold readAll at hearlier ⊢
  rw [List.foldlM_append, hearlier]
  simp [Bind.bind, Except.bind, hread, pure, Except.pure]

theorem readAll_append_eq_ok_iff {raw : String} {found : Option Value} :
    declared.readAll (raws ++ [raw]) = .ok found ↔
      ∃ earlier value, declared.readAll raws = .ok earlier ∧
        declared.kind.read declared.name raw = .ok value ∧ found = some (value.after earlier) := by
  constructor
  · intro hread
    unfold readAll at hread
    rw [List.foldlM_append] at hread
    obtain ⟨earlier, hearlier, hlast⟩ := Outcome.bind_eq_ok.1 hread
    simp only [List.foldlM_cons, List.foldlM_nil, bind_pure] at hlast
    obtain ⟨value, hvalue, hfound⟩ := Outcome.bind_eq_ok.1 hlast
    cases hfound
    exact ⟨earlier, value, hearlier, hvalue, rfl⟩
  · rintro ⟨earlier, value, hearlier, hvalue, rfl⟩
    exact readAll_append_singleton hearlier hvalue

theorem readAll_of_not_list (hkind : declared.kind.isList = false) {found : Option Value}
    (hread : declared.readAll raws = .ok found) :
    match raws.getLast? with
    | none => found = none
    | some raw => ∃ value, declared.kind.read declared.name raw = .ok value ∧
        found = some value := by
  induction raws using List.reverseRecOn with
  | nil =>
      cases hread
      rfl
  | append_singleton raws raw _ =>
      obtain ⟨earlier, value, _, hvalue, rfl⟩ := readAll_append_eq_ok_iff.1 hread
      rw [List.getLast?_concat]
      exact ⟨value, hvalue, by rw [FieldKind.after_of_read hkind hvalue]⟩

theorem readAll_of_list {item : FieldKind} (hkind : declared.kind = .list item)
    {found : Option Value} (hread : declared.readAll raws = .ok found) :
    ∃ items, (raws.flatMap Text.items).mapM (item.readScalar declared.name) = .ok items ∧
      found = if raws = [] then none else some (.list items) := by
  induction raws using List.reverseRecOn generalizing found with
  | nil =>
      cases hread
      exact ⟨[], rfl, rfl⟩
  | append_singleton raws raw ih =>
      obtain ⟨earlier, value, hearlier, hvalue, rfl⟩ := readAll_append_eq_ok_iff.1 hread
      obtain ⟨before, hbefore, rfl⟩ := ih hearlier
      rw [hkind] at hvalue
      obtain ⟨items, hitems, rfl⟩ := Outcome.map_eq_ok.1 hvalue
      refine ⟨before ++ items, ?_, ?_⟩
      · rw [List.flatMap_append, List.flatMap_singleton, Outcome.mapM_eq_ok]
        exact List.rel_append (Outcome.mapM_eq_ok.1 hbefore) (Outcome.mapM_eq_ok.1 hitems)
      · by_cases hnil : raws = []
        · subst hnil
          cases hbefore
          rfl
        · rw [if_neg hnil, if_neg (by simp)]
          rfl

theorem of_readAll {found : Option Value} (hread : declared.readAll raws = .ok found) :
    (found = none ↔ raws = []) ∧ ∀ value ∈ found, value.isLeaf := by
  induction raws using List.reverseRecOn with
  | nil =>
      cases hread
      exact ⟨by simp, nofun⟩
  | append_singleton raws raw _ =>
      obtain ⟨earlier, value, _, hvalue, rfl⟩ := readAll_append_eq_ok_iff.1 hread
      refine ⟨by simp, ?_⟩
      intro result hresult
      cases hresult
      exact Value.isLeaf_after (FieldKind.isLeaf_of_read hvalue) earlier

end DeclaredField

end FilterQuery
