import Mathlib.Data.List.Forall2
import Mathlib.Data.List.Nodup
/-!
# Lists of named things

Fields, slots and outlines are found by name in a list.  Where the names are distinct,
what is found under a name is the one element of that name.
-/

namespace FilterQuery.Lists

variable {α : Type} {name : α → String} {elements : List α}

theorem find?_of_mem (hnodup : (elements.map name).Nodup) {a : α} (hmem : a ∈ elements) :
    elements.find? (name · == name a) = some a := by
  induction elements with
  | nil => cases hmem
  | cons head rest ih =>
      obtain ⟨hfresh, hrest⟩ := List.nodup_cons.1 hnodup
      rcases List.mem_cons.1 hmem with rfl | hmem
      · simp
      · have hne : name head ≠ name a := by
          intro heq
          exact hfresh (List.mem_map.2 ⟨a, hmem, heq.symm⟩)
        rw [List.find?_cons_of_neg (by simpa using hne), ih hrest hmem]

theorem find?_eq_some_iff (hnodup : (elements.map name).Nodup) {key : String} {a : α} :
    elements.find? (name · == key) = some a ↔ a ∈ elements ∧ name a = key := by
  constructor
  · intro hfind
    exact ⟨List.mem_of_find?_eq_some hfind, by simpa using List.find?_some hfind⟩
  · rintro ⟨hmem, rfl⟩
    exact find?_of_mem hnodup hmem

theorem find?_perm {others : List α} (hperm : elements.Perm others)
    (hnodup : (elements.map name).Nodup) (key : String) :
    elements.find? (name · == key) = others.find? (name · == key) := by
  have hothers : (others.map name).Nodup := (hperm.map name).nodup_iff.1 hnodup
  ext a
  rw [find?_eq_some_iff hnodup, find?_eq_some_iff hothers, hperm.mem_iff]

theorem lookup_cons {β : Type} (key other : String) (b : β) (rest : List (String × β)) :
    List.lookup other ((key, b) :: rest) =
      if other = key then some b else rest.lookup other := by
  by_cases hkey : other = key
  · simp [hkey]
  · have hbeq : (other == key) = false := beq_false_of_ne hkey
    rw [List.lookup_cons, hbeq, if_neg hkey]

theorem mapM_eq_some {β : Type} {f : α → Option β} {g : α → β}
    (hall : ∀ a ∈ elements, f a = some (g a)) : elements.mapM f = some (elements.map g) := by
  induction elements with
  | nil => rfl
  | cons a rest ih =>
      obtain ⟨hhead, hrest⟩ := List.forall_mem_cons.1 hall
      rw [List.mapM_cons, hhead, ih hrest]
      rfl

theorem exists_of_forall₂ {β : Type} {R : α → β → Prop} {others : List β}
    (hall : List.Forall₂ R elements others) {b : β} (hmem : b ∈ others) :
    ∃ a ∈ elements, R a b := by
  induction hall with
  | nil => cases hmem
  | @cons a _ elements _ hhead _ ih =>
      rcases List.mem_cons.1 hmem with rfl | hmem
      · exact ⟨a, .head _, hhead⟩
      · obtain ⟨found, hfound, hrelated⟩ := ih hmem
        exact ⟨found, .tail _ hfound, hrelated⟩

theorem exists_forall₂ {β : Type} {R : α → β → Prop} (h : ∀ a ∈ elements, ∃ b, R a b) :
    ∃ others, List.Forall₂ R elements others := by
  induction elements with
  | nil => exact ⟨[], .nil⟩
  | cons a rest ih =>
      obtain ⟨b, hb⟩ := h a (.head _)
      obtain ⟨others, hothers⟩ := ih fun a hmem => h a (.tail _ hmem)
      exact ⟨b :: others, .cons hb hothers⟩

theorem getElem?_of_forall₂ {β : Type} {R : α → β → Prop} {others : List β}
    (hall : List.Forall₂ R elements others) {place : Nat} {a : α}
    (hplace : elements[place]? = some a) : ∃ b, others[place]? = some b ∧ R a b := by
  induction hall generalizing place with
  | nil => cases hplace
  | cons hhead _ ih =>
      cases place with
      | zero =>
          cases hplace
          exact ⟨_, rfl, hhead⟩
      | succ place => exact ih hplace

theorem forall₂_imp_of_mem {β : Type} {R S : α → β → Prop} {others : List β}
    (hall : List.Forall₂ R elements others)
    (himp : ∀ a ∈ elements, ∀ b ∈ others, R a b → S a b) : List.Forall₂ S elements others := by
  rw [List.forall₂_iff_zip] at hall ⊢
  refine ⟨hall.1, ?_⟩
  intro a b hzip
  exact himp a (List.of_mem_zip hzip).1 b (List.of_mem_zip hzip).2 (hall.2 hzip)

theorem forall₂_trans {β γ : Type} {R : α → β → Prop} {S : β → γ → Prop} {others : List β}
    {last : List γ} (hfirst : List.Forall₂ R elements others)
    (hsecond : List.Forall₂ S others last) :
    List.Forall₂ (fun a c => ∃ b, R a b ∧ S b c) elements last := by
  induction hfirst generalizing last with
  | nil =>
      rw [List.forall₂_nil_left_iff.1 hsecond]
      exact .nil
  | @cons _ b _ _ hhead _ ih =>
      obtain ⟨c, rest, hc, hrest, rfl⟩ := List.forall₂_cons_left_iff.1 hsecond
      exact .cons ⟨b, hhead, hc⟩ (ih hrest)

/-! ## Elements with what some of them hold -/

section Held

variable {β : Type} (held : α → Option β)

theorem keys_sublist :
    ((elements.filterMap fun a => (held a).map (name a, ·)).map Prod.fst).Sublist
      (elements.map name) := by
  induction elements with
  | nil => exact .slnil
  | cons a rest ih =>
      rw [List.filterMap_cons, List.map_cons]
      cases held a with
      | none => exact ih.cons _
      | some b => exact ih.cons_cons _

theorem find?_held (hnodup : (elements.map name).Nodup) {a : α} (hmem : a ∈ elements) :
    (elements.filterMap fun a => (held a).map (name a, ·)).find? (·.1 == name a) =
      (held a).map (name a, ·) := by
  have hkeys : ((elements.filterMap fun a => (held a).map (name a, ·)).map Prod.fst).Nodup :=
    hnodup.sublist (keys_sublist held)
  ext entry
  rw [find?_eq_some_iff hkeys, List.mem_filterMap]
  constructor
  · rintro ⟨⟨other, hother, hheld⟩, hkey⟩
    obtain ⟨b, hb, rfl⟩ := Option.map_eq_some_iff.1 hheld
    have heq : other = a := List.inj_on_of_nodup_map hnodup hother hmem hkey
    exact heq ▸ hheld
  · intro hheld
    obtain ⟨b, hb, rfl⟩ := Option.map_eq_some_iff.1 hheld
    exact ⟨⟨a, hmem, hheld⟩, rfl⟩

end Held

end FilterQuery.Lists
