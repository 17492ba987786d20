import FilterQuery.Param.Error
import FilterQuery.Proofs.Outcome
/-!
# What setting a value changes

Setting a value changes what is found under its name and nothing else; the definition
of the filter stays.
-/

namespace FilterQuery

namespace Slot

theorem mem_assign {name : String} {value : Option Value} {slots : List Slot} {slot : Slot}
    (hmem : slot ∈ Slot.assign name value slots) :
    slot ∈ slots ∨
      ∃ old, slots.find? (·.name == name) = some old ∧ slot = { old with value } := by
  induction slots with
  | nil => cases hmem
  | cons head rest ih =>
      unfold Slot.assign at hmem
      split at hmem
      · rename_i hhead
        rcases List.mem_cons.1 hmem with rfl | hmem
        · exact .inr ⟨head, by simp [hhead], rfl⟩
        · exact .inl (.tail _ hmem)
      · rename_i hhead
        rcases List.mem_cons.1 hmem with rfl | hmem
        · exact .inl (.head _)
        · rw [List.find?_cons_of_neg (by simpa using hhead)]
          exact (ih hmem).imp_left (.tail _)

theorem find?_assign (name other : String) (value : Option Value) (slots : List Slot) :
    (Slot.assign name value slots).find? (·.name == other) =
      if other = name then
        (slots.find? (·.name == other)).map fun slot => { slot with value }
      else slots.find? (·.name == other) := by
  induction slots with
  | nil => simp [Slot.assign]
  | cons slot rest ih =>
      unfold Slot.assign
      by_cases hhead : slot.name = name
      · rw [if_pos hhead]
        have hkept : ({ slot with value } : Slot).name = slot.name := rfl
        by_cases hother : other = name
        · subst hother
          simp [hkept, hhead]
        · have hne : slot.name ≠ other := fun h => hother (h.symm.trans hhead)
          simp [hkept, hne, hother]
      · rw [if_neg hhead]
        by_cases hother : slot.name = other
        · have hne : other ≠ name := fun h => hhead (hother.trans h)
          simp [hother, hne]
        · simpa [List.find?_cons, hother] using ih

end Slot

namespace Filter

@[simp] theorem get?_blank (definition : Definition) (name : String) :
    (blank definition).get? name = none := by
  unfold get?
  cases hfind : (blank definition).slots.find? (·.name == name) with
  | none => rfl
  | some slot => exact value_of_mem_blank (List.mem_of_find?_eq_some hfind)

theorem get?_assign (filter : Filter) (name other : String) (value : Option Value) :
    ({ filter with slots := Slot.assign name value filter.slots } : Filter).get? other =
      if other = name then (filter.slots.find? (·.name == name)).bind fun _ => value
      else filter.get? other := by
  unfold get?
  rw [Slot.find?_assign]
  split
  · rename_i hother
    rw [hother, Option.bind_map]
    rfl
  · rfl

variable {filter later : Filter} {name : String} {value : Value}

theorem of_set (hset : filter.set name value = .ok later) :
    later.definition = filter.definition ∧ later.ordering = filter.ordering ∧
      ∀ other, later.get? other = if other = name then some value else filter.get? other := by
  obtain ⟨slot, hslot, haccept⟩ := Outcome.bind_eq_ok.1 hset
  have hfind : filter.slots.find? (·.name == name) = some slot := by
    unfold slot? at hslot
    split at hslot
    · rename_i found hfound
      rw [hfound, Except.ok.inj hslot]
    · cases hslot
  split at haccept
  · cases haccept
    refine ⟨by simp [definition], rfl, ?_⟩
    intro other
    rw [get?_assign, hfind]
    rfl
  · cases haccept

theorem field?_definition (filter : Filter) (name : String) :
    filter.definition.field? name =
      (filter.slots.find? (·.name == name)).map Slot.declared := by
  unfold Definition.field? definition
  rw [List.find?_map]
  rfl

theorem exists_set {declared : DeclaredField}
    (hfield : filter.definition.field? name = some declared)
    (haccepts : declared.kind.accepts value) : ∃ later, filter.set name value = .ok later := by
  rw [field?_definition] at hfield
  obtain ⟨slot, hfind, rfl⟩ := Option.map_eq_some_iff.1 hfield
  have hslot : filter.slot? name = .ok slot := by rw [slot?, hfind]
  refine ⟨{ filter with slots := Slot.assign name (some value) filter.slots }, ?_⟩
  rw [set, hslot]
  exact if_pos haccepts

end Filter

end FilterQuery
