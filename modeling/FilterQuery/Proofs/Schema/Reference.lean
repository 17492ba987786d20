import FilterQuery.Schema.Resolution
import FilterQuery.Proofs.Definition.Building
import FilterQuery.Proofs.Lists
import Mathlib.Logic.Relation
/-!
# What references mean

Outlines that are loaded together form a graph: an outline refers to those outlines
whose names its nested fields give.  A name resolves to a definition when all that it
refers to, directly or further down, resolves, and the outline builds from it.  This is
said here without a search, so that the search can be measured against it.
-/

namespace FilterQuery.Schema

/-- One outline refers to another of those that are loaded together. -/
def RefersTo (outlines : List Outline) (a b : String) : Prop :=
  ∃ outline, outline? outlines a = some outline ∧ b ∈ outline.references ∧
    (outline? outlines b).isSome

instance : Inhabited Definition := ⟨⟨"", [], {}⟩⟩

/-- An outline as a draft by itself, where a definition without fields stands for each of its
references. -/
def Outline.ownDraft (outline : Outline) : Draft :=
  outline.draft fun _ => some default

/-- The fields of an outline can be declared, whatever its references stand for. -/
def Outline.Builds (outline : Outline) : Prop :=
  ∃ definition, outline.ownDraft.build = .ok definition

/-- A name stands for a definition: one that is known, or one that an outline builds from
the definitions it refers to. -/
inductive Resolves (outlines : List Outline) (known : Registry) : String → Definition → Prop
  | known {name : String} {definition : Definition} (hnew : outline? outlines name = none)
      (hget : known.get? name = some definition) : Resolves outlines known name definition
  | outline {name : String} {outline : Outline} {definition : Definition}
      (definitionOf : String → Definition) (hfind : outline? outlines name = some outline)
      (hreferences : ∀ reference ∈ outline.references,
        Resolves outlines known reference (definitionOf reference))
      (hbuild : (outline.draft fun reference => some (definitionOf reference)).build =
        .ok definition) : Resolves outlines known name definition

/-! ## Building from the definitions of references -/

theorem Outline.mem_references {outline : Outline} {field : OutlineField} {name : String}
    (hmem : field ∈ outline.fields) (hkind : field.kind = .reference name) :
    name ∈ outline.references := by
  unfold Outline.references
  exact List.mem_filterMap.2 ⟨field, hmem, by simp [OutlineField.reference?, hkind]⟩

theorem Outline.draft_congr {outline : Outline} {f g : String → Option Definition}
    (heq : ∀ reference ∈ outline.references, f reference = g reference) :
    outline.draft f = outline.draft g := by
  have hfields : outline.fields.map (·.draft f) = outline.fields.map (·.draft g) := by
    apply List.map_congr_left
    intro field hmem
    unfold OutlineField.draft
    cases hkind : field.kind with
    | inferred => rfl
    | given kind => rfl
    | reference name => simp only [heq name (Outline.mem_references hmem hkind)]
  unfold Outline.draft
  rw [hfields]

theorem Outline.build_congr {outline : Outline} {f g : String → Option Definition}
    (heq : ∀ reference ∈ outline.references, f reference = g reference) :
    outline.build f = outline.build g := by
  rw [Outline.build, Outline.build, Outline.draft_congr heq]

/-- Loading builds the draft of an outline, and only words the refusal in its own way. -/
theorem Outline.build_eq_ok_iff {outline : Outline} {f : String → Option Definition}
    {definition : Definition} :
    outline.build f = .ok definition ↔ (outline.draft f).build = .ok definition :=
  Outcome.mapError_eq_ok

theorem Outline.exists_build_of_covered {outline : Outline} {f g : String → Option Definition}
    (hf : ∀ reference ∈ outline.references, (f reference).isSome)
    (hg : ∀ reference ∈ outline.references, (g reference).isSome)
    {definition : Definition} (hbuild : (outline.draft f).build = .ok definition) :
    ∃ other, (outline.draft g).build = .ok other := by
  have halike : List.Forall₂ FieldDraft.Alike (outline.draft f).fields
      (outline.draft g).fields := by
    unfold Outline.draft
    rw [List.forall₂_map_left_iff, List.forall₂_map_right_iff, List.forall₂_same]
    intro field hmem
    unfold OutlineField.draft
    cases hkind : field.kind with
    | inferred => exact ⟨rfl, rfl⟩
    | given kind => exact ⟨rfl, rfl⟩
    | reference name =>
        have hname := Outline.mem_references hmem hkind
        obtain ⟨a, ha⟩ := Option.isSome_iff_exists.1 (hf name hname)
        obtain ⟨b, hb⟩ := Option.isSome_iff_exists.1 (hg name hname)
        exact ⟨rfl, by simp [ha, hb, FieldKind.nested?]⟩
  have hconstants : (outline.draft f).constants = (outline.draft g).constants := rfl
  exact Draft.build_of_alike hconstants halike hbuild

/-- Whether an outline builds does not hang on what its references stand for, as long as
each stands for something. -/
theorem Outline.builds_iff {outline : Outline} {f : String → Option Definition}
    (hf : ∀ reference ∈ outline.references, (f reference).isSome) :
    outline.Builds ↔ ∃ definition, (outline.draft f).build = .ok definition := by
  constructor
  · rintro ⟨definition, hbuild⟩
    exact Outline.exists_build_of_covered (fun _ _ => rfl) hf hbuild
  · rintro ⟨definition, hbuild⟩
    exact Outline.exists_build_of_covered hf (fun _ _ => rfl) hbuild

theorem Outline.not_builds_iff {outline : Outline} :
    ¬ outline.Builds ↔ ∃ refusal, outline.ownDraft.build = .error refusal := by
  unfold Outline.Builds
  cases outline.ownDraft.build <;> simp

theorem name_of_outline? {outlines : List Outline} {name : String} {outline : Outline}
    (hfind : outline? outlines name = some outline) : outline.name = name := by
  have heq := List.find?_some hfind
  simpa using heq

theorem mem_of_outline? {outlines : List Outline} {name : String} {outline : Outline}
    (hfind : outline? outlines name = some outline) : outline ∈ outlines :=
  List.mem_of_find?_eq_some hfind

theorem outline?_of_mem {outlines : List Outline} (hnames : (outlines.map (·.name)).Nodup)
    {outline : Outline} (hmem : outline ∈ outlines) :
    outline? outlines outline.name = some outline :=
  Lists.find?_of_mem hnames hmem

/-! ## What resolving implies -/

section Resolves

variable {outlines : List Outline} {known : Registry}

theorem Resolves.unique {name : String} {a b : Definition}
    (ha : Resolves outlines known name a) (hb : Resolves outlines known name b) : a = b := by
  induction ha generalizing b with
  | known hnew hget =>
      cases hb with
      | known _ hget' => exact Option.some.inj (hget.symm.trans hget')
      | outline _ hfind _ _ => simp [hnew] at hfind
  | outline definitionOf hfind hreferences hbuild ih =>
      cases hb with
      | known hnew _ => simp [hnew] at hfind
      | outline definitionOf' hfind' hreferences' hbuild' =>
          cases hfind.symm.trans hfind'
          have hsame := Outline.draft_congr fun reference hmem =>
            congrArg some (ih reference hmem (hreferences' reference hmem))
          rw [hsame, hbuild'] at hbuild
          exact (Except.ok.inj hbuild).symm

theorem Resolves.acc {name : String} {definition : Definition}
    (h : Resolves outlines known name definition) :
    Acc (fun b a => RefersTo outlines a b) name := by
  induction h with
  | known hnew _ =>
      constructor
      rintro b ⟨outline, hfind, _⟩
      simp [hnew] at hfind
  | outline definitionOf hfind _ _ ih =>
      constructor
      rintro b ⟨outline, hfind', hmem, _⟩
      cases hfind.symm.trans hfind'
      exact ih b hmem

theorem not_transGen_self_of_acc {name : String}
    (hacc : Acc (fun b a => RefersTo outlines a b) name) :
    ¬ Relation.TransGen (RefersTo outlines) name name := by
  induction hacc with
  | intro name _ ih =>
      intro hcycle
      obtain ⟨next, hstep, hback⟩ := Relation.TransGen.head'_iff.1 hcycle
      exact ih next hstep (Relation.TransGen.tail' hback hstep)

/-- A name that resolves is on no circle of references. -/
theorem Resolves.acyclic {name : String} {definition : Definition}
    (h : Resolves outlines known name definition) :
    ¬ Relation.TransGen (RefersTo outlines) name name :=
  not_transGen_self_of_acc h.acc

end Resolves

end FilterQuery.Schema
