import FilterQuery.Proofs.Registry.Registration
import FilterQuery.Proofs.Schema.Refusal
import FilterQuery.Schema.Loading
/-!
# Loading outlines together

Outlines that are read from documents are resolved one after the other, and what has been
resolved for one is kept for the next.  Loading succeeds exactly when the references lead
somewhere and never back, and every outline builds by itself; the order of the documents
and of the references plays no part in it.
-/

namespace FilterQuery.Schema

open Relation

variable {all : List Outline} {known : Registry}

/-! ## Reading documents -/

theorem outlines_eq_ok {documents : List Yaml.Value} {earlier rest : List Outline}
    (hread : documents.mapM Outline.ofValue = .ok rest)
    (hnames : ((earlier ++ rest).map (·.name)).Nodup)
    (hnew : ∀ outline ∈ rest, known.contains outline.name = false) :
    outlines known earlier documents = .ok (earlier ++ rest) := by
  induction documents generalizing earlier rest with
  | nil =>
      cases hread
      simp [outlines, pure, Except.pure]
  | cons document documents ih =>
      rw [List.mapM_cons] at hread
      obtain ⟨outline, hfirst, hread⟩ := Outcome.bind_eq_ok.1 hread
      obtain ⟨more, hmore, heq⟩ := Outcome.bind_eq_ok.1 hread
      cases heq
      have hfresh : outline? earlier outline.name = none := by
        rw [outline?, List.find?_eq_none]
        intro other hother heq
        rw [List.map_append, List.nodup_append] at hnames
        refine hnames.2.2 other.name (List.mem_map_of_mem hother) outline.name (by simp) ?_
        simpa using heq
      have hknown : known.contains outline.name = false := hnew outline (.head _)
      have happend : earlier ++ outline :: more = (earlier ++ [outline]) ++ more := by simp
      rw [outlines, hfirst]
      simp only [bind, Except.bind, hfresh, hknown, Option.isSome_none, Bool.or_self]
      rw [happend] at hnames ⊢
      exact ih hmore hnames fun other hother => hnew other (.tail _ hother)

/-! ## Graphs without circles -/

theorem not_mem_of_outline?_eq_none {name : String} (hnone : outline? all name = none) :
    name ∉ all.map (·.name) := by
  intro hmem
  obtain ⟨other, hother, hname⟩ := List.mem_map.1 hmem
  have hne := List.find?_eq_none.1 hnone other hother
  simp [hname] at hne

/-- Going down references that never lead back comes to an end, so everything on the way
resolves. -/
theorem exists_resolves
    (hcovered : ∀ outline ∈ all, ∀ reference ∈ outline.references,
      reference ∈ all.map (·.name) ∨ known.contains reference)
    (hacyclic : ∀ name, ¬ TransGen (RefersTo all) name name)
    (hbuilds : ∀ outline ∈ all, outline.Builds) (chain : List String) (name : String)
    (hfind : (outline? all name).isSome)
    (habove : ∀ above ∈ chain, TransGen (RefersTo all) above name) :
    ∃ definition, Resolves all known name definition := by
  -- The names above are outlines that have not been met twice, and they leave one fewer
  -- unvisited at each step down.
  induction hsize : unvisited all chain using Nat.strongRecOn generalizing chain name with
  | _ size ih =>
      obtain ⟨outline, hfind⟩ := Option.isSome_iff_exists.1 hfind
      have hmem := mem_of_outline? hfind
      have hchain : name ∉ chain := fun h => hacyclic name (habove name h)
      have hbelow : ∀ reference ∈ outline.references,
          ∃ definition, Resolves all known reference definition := by
        intro reference href
        cases hother : outline? all reference with
        | some other =>
            have hstep : RefersTo all name reference :=
              ⟨outline, hfind, href, by simp [hother]⟩
            apply ih _ (hsize ▸ unvisited_lt hfind hchain) (chain ++ [name]) reference
              (by simp [hother]) _ rfl
            intro above hmemAbove
            rcases List.mem_append.1 hmemAbove with hmemAbove | hmemAbove
            · exact (habove above hmemAbove).tail hstep
            · rw [List.mem_singleton.1 hmemAbove]
              exact .single hstep
        | none =>
            have hcontains := (hcovered outline hmem reference href).resolve_left
              (not_mem_of_outline?_eq_none hother)
            rw [Registry.contains_eq_isSome_get?] at hcontains
            obtain ⟨definition, hget⟩ := Option.isSome_iff_exists.1 hcontains
            exact ⟨definition, .known hother hget⟩
      choose! definitionOf hresolves using hbelow
      obtain ⟨definition, hbuild⟩ := (Outline.builds_iff
        (f := fun reference => some (definitionOf reference)) fun _ _ => rfl).1
        (hbuilds outline hmem)
      exact ⟨definition, .outline definitionOf hfind hresolves hbuild⟩

theorem Resolves.covered {name : String} {definition : Definition} {outline : Outline}
    (h : Resolves all known name definition) (hfind : outline? all name = some outline) :
    outline.Builds ∧ ∀ reference ∈ outline.references,
      reference ∈ all.map (·.name) ∨ known.contains reference := by
  cases h with
  | known hnew _ => simp [hnew] at hfind
  | outline definitionOf hfind' hreferences hbuild =>
      cases hfind.symm.trans hfind'
      refine ⟨(Outline.builds_iff fun _ _ => rfl).2 ⟨definition, hbuild⟩, ?_⟩
      intro reference hmem
      cases hreferences reference hmem with
      | known _ hget =>
          right
          rw [Registry.contains_eq_isSome_get?, hget]
          rfl
      | outline _ hother _ _ =>
          left
          exact List.mem_map.2 ⟨_, mem_of_outline? hother, name_of_outline? hother⟩

/-- All outlines resolve exactly when every reference leads somewhere, no chain of
references comes back, and every outline builds by itself. -/
theorem forall_resolves_iff (hnames : (all.map (·.name)).Nodup) :
    (∀ outline ∈ all, ∃ definition, Resolves all known outline.name definition) ↔
      (∀ outline ∈ all, ∀ reference ∈ outline.references,
        reference ∈ all.map (·.name) ∨ known.contains reference) ∧
      (∀ name, ¬ TransGen (RefersTo all) name name) ∧
      ∀ outline ∈ all, outline.Builds := by
  constructor
  · intro hresolves
    have hcovered : ∀ outline ∈ all, outline.Builds ∧ ∀ reference ∈ outline.references,
        reference ∈ all.map (·.name) ∨ known.contains reference := by
      intro outline hmem
      obtain ⟨definition, hdefinition⟩ := hresolves outline hmem
      exact hdefinition.covered (outline?_of_mem hnames hmem)
    refine ⟨fun outline hmem => (hcovered outline hmem).2, ?_,
      fun outline hmem => (hcovered outline hmem).1⟩
    intro name hcycle
    obtain ⟨_, ⟨outline, hfind, _⟩, _⟩ := TransGen.head'_iff.1 hcycle
    obtain ⟨definition, hdefinition⟩ := hresolves outline (mem_of_outline? hfind)
    rw [name_of_outline? hfind] at hdefinition
    exact hdefinition.acyclic hcycle
  · rintro ⟨hcovered, hacyclic, hbuilds⟩ outline hmem
    have hfind := outline?_of_mem hnames hmem
    exact exists_resolves hcovered hacyclic hbuilds [] outline.name (by simp [hfind]) nofun

/-! ## Registering what resolves -/

theorem Resolves.name_eq {name : String} {definition : Definition}
    (h : Resolves all known name definition) : definition.name = name := by
  cases h with
  | known _ hget =>
      have heq := List.find?_some hget
      simpa using heq
  | outline _ hfind _ hbuild =>
      rw [Draft.name_of_build hbuild]
      exact name_of_outline? hfind

theorem register_cons {outline : Outline} {rest : List Outline} {resolved later : Resolved}
    {registry : Registry} {definition : Definition}
    (hresolve : resolve all known outline.name outline.name [] resolved =
      .ok (definition, later))
    (hname : definition.name = outline.name) (hnew : outline.name ∉ registry.names) :
    register all known (outline :: rest) resolved registry =
      register all known rest later ⟨registry.definitions ++ [definition]⟩ := by
  rw [register, hresolve]
  simp only [bind, Except.bind]
  rw [Registry.insert?_eq_some (hname ▸ hnew)]

section Register

variable {rest : List Outline} {resolved : Resolved} {registry : Registry}

theorem register_eq_ok (hsound : resolved.Sound all known)
    (hnames : (registry.names ++ rest.map (·.name)).Nodup)
    (hresolves : ∀ outline ∈ rest, ∃ definition, Resolves all known outline.name definition) :
    ∃ result, register all known rest resolved registry = .ok result := by
  induction rest generalizing resolved registry with
  | nil => exact ⟨registry, rfl⟩
  | cons outline rest ih =>
      obtain ⟨definition, hdefinition⟩ := hresolves outline (.head _)
      obtain ⟨later, hresolve, hlater⟩ :=
        hdefinition.resolve_eq_ok outline.name [] resolved hsound (fun _ => nofun)
      have hname := hdefinition.name_eq
      have hnew : outline.name ∉ registry.names := fun h =>
        (List.nodup_append.1 hnames).2.2 _ h _ (.head _) rfl
      rw [register_cons hresolve hname hnew]
      refine ih hlater ?_ fun other hmem => hresolves other (.tail _ hmem)
      simpa [Registry.names, hname] using hnames

theorem register_sound (hsound : resolved.Sound all known) {result : Registry}
    (hok : register all known rest resolved registry = .ok result) :
    ∃ definitions, result.definitions = registry.definitions ++ definitions ∧
      List.Forall₂ (fun outline definition => Resolves all known outline.name definition)
        rest definitions := by
  induction rest generalizing resolved registry with
  | nil =>
      cases hok
      exact ⟨[], by simp, .nil⟩
  | cons outline rest ih =>
      rw [register] at hok
      obtain ⟨⟨definition, later⟩, hresolve, hok⟩ := Outcome.bind_eq_ok.1 hok
      obtain ⟨hdefinition, hlater⟩ := resolve_sound _ _ _ _ hsound _ _ hresolve
      cases hinsert : registry.insert? definition with
      | none =>
          simp only [hinsert] at hok
          cases hok
      | some larger =>
          simp only [hinsert] at hok
          have hlarger : larger = ⟨registry.definitions ++ [definition]⟩ := by
            rw [Registry.insert?] at hinsert
            split at hinsert
            · cases hinsert
            · exact (Option.some.inj hinsert).symm
          obtain ⟨definitions, hresult, hall⟩ := ih hlater hok
          refine ⟨definition :: definitions, ?_, .cons hdefinition hall⟩
          rw [hresult, hlarger]
          simp

/-- A refusal comes from the first outline that does not resolve. -/
theorem register_explains (hsound : resolved.Sound all known)
    (hfind : ∀ outline ∈ rest, (outline? all outline.name).isSome)
    (hnames : (registry.names ++ rest.map (·.name)).Nodup) {fault : Error}
    (herror : register all known rest resolved registry = .error fault) :
    ∃ before root after, rest = before ++ root :: after ∧
      Explains all known (some root.name) fault ∧
      ∀ outline ∈ before, ∃ definition, Resolves all known outline.name definition := by
  induction rest generalizing resolved registry with
  | nil => cases herror
  | cons outline rest ih =>
      cases hresolve : resolve all known outline.name outline.name [] resolved with
      | error cause =>
          have hcause : fault = cause := by
            rw [register, hresolve] at herror
            exact (Except.error.inj herror).symm
          have houtline := hfind outline (.head _)
          refine ⟨[], outline, rest, rfl, ?_, nofun⟩
          refine hcause ▸ resolve_explains outline.name outline.name [] resolved
            (fun _ => .singleton _) .nil ?_ cause hresolve
          intro hnone
          simp [hnone] at houtline
      | ok found =>
          obtain ⟨definition, later⟩ := found
          obtain ⟨hdefinition, hlater⟩ := resolve_sound _ _ _ _ hsound _ _ hresolve
          have hname := hdefinition.name_eq
          have hnew : outline.name ∉ registry.names := fun h =>
            (List.nodup_append.1 hnames).2.2 _ h _ (.head _) rfl
          rw [register_cons hresolve hname hnew] at herror
          obtain ⟨before, root, after, rfl, hexplains, hbefore⟩ :=
            ih hlater (fun other hmem => hfind other (.tail _ hmem))
              (by simpa [Registry.names, hname] using hnames) herror
          refine ⟨outline :: before, root, after, rfl, hexplains, ?_⟩
          intro other hmem
          rcases List.mem_cons.1 hmem with rfl | hmem
          · exact ⟨definition, hdefinition⟩
          · exact hbefore other hmem

end Register

/-! ## When documents load -/

theorem ofDocuments_eq_register {documents : List Yaml.Value}
    (hread : documents.mapM Outline.ofValue = .ok all) (hnames : (all.map (·.name)).Nodup)
    (hnew : ∀ outline ∈ all, known.contains outline.name = false) :
    ofDocuments known documents = register all known all [] {} := by
  have houtlines : outlines known [] documents = .ok ([] ++ all) :=
    outlines_eq_ok hread hnames hnew
  unfold ofDocuments
  rw [houtlines]
  rfl

/-- Documents of new and distinct names load exactly when every reference leads to one of
them or to a known definition, no chain of references comes back to where it began, and the
draft of every outline builds by itself.  A refusal tells what stands in the way: a chain of
references from the outline being resolved that comes back to a name on it, a reference
that leads nowhere, or an outline whose draft is refused. -/
theorem ofDocuments_ok_iff {documents : List Yaml.Value}
    (hread : documents.mapM Outline.ofValue = .ok all) (hnames : (all.map (·.name)).Nodup)
    (hnew : ∀ outline ∈ all, known.contains outline.name = false) :
    ((∃ registry, ofDocuments known documents = .ok registry) ↔
        (∀ outline ∈ all, ∀ reference ∈ outline.references,
          reference ∈ all.map (·.name) ∨ known.contains reference) ∧
        (∀ name, ¬ TransGen (RefersTo all) name name) ∧
        ∀ outline ∈ all, ∃ definition, outline.ownDraft.build = .ok definition) ∧
      (∀ chain, ofDocuments known documents = .error (.circularReference chain) →
        IsCircle all chain ∧ chain.length ≤ all.length + 1 ∧
          (∃ name ∈ chain, TransGen (RefersTo all) name name) ∧
          ∃ before root after, all = before ++ root :: after ∧
            chain.head? = some root.name ∧
            ∀ outline ∈ before, ∃ definition, Resolves all known outline.name definition) ∧
      (∀ filter reference,
        ofDocuments known documents = .error (.unknownReference filter reference) →
        (∃ outline ∈ all, outline.name = filter ∧ reference ∈ outline.references) ∧
          reference ∉ all.map (·.name) ∧ known.contains reference = false) ∧
      (∀ fault, ofDocuments known documents = .error fault →
        (∃ chain, fault = .circularReference chain) ∨
          (∃ filter reference, fault = .unknownReference filter reference) ∨
          ∃ cause, fault = .rejected cause ∧
            ∃ outline ∈ all, ∃ refusal, outline.ownDraft.build = .error refusal) := by
  have hregister := ofDocuments_eq_register hread hnames hnew
  have hsound : Resolved.Sound all known [] := nofun
  have hempty : (({} : Registry).names ++ all.map (·.name)).Nodup := hnames
  have hfind : ∀ outline ∈ all, (outline? all outline.name).isSome := by
    intro outline hmem
    simp [outline?_of_mem hnames hmem]
  rw [hregister]
  refine ⟨?_, ?_, ?_, ?_⟩
  · refine Iff.trans ?_ (forall_resolves_iff hnames)
    constructor
    · rintro ⟨registry, hok⟩
      obtain ⟨definitions, _, hall⟩ := register_sound hsound hok
      intro outline hmem
      obtain ⟨definition, _, hdefinition⟩ := Lists.exists_of_forall₂ hall.flip hmem
      exact ⟨definition, hdefinition⟩
    · exact register_eq_ok hsound hempty
  · intro chain herror
    obtain ⟨before, root, after, hsplit, ⟨hcircle, hhead⟩, hbefore⟩ :=
      register_explains hsound hfind hempty herror
    exact ⟨hcircle, hcircle.length_le, hcircle.transGen, before, root, after, hsplit, hhead,
      hbefore⟩
  · intro filter reference herror
    obtain ⟨_, _, _, _, ⟨outline, houtline, hmem, hother, hget⟩, _⟩ :=
      register_explains hsound hfind hempty herror
    refine ⟨⟨outline, mem_of_outline? houtline, name_of_outline? houtline, hmem⟩, ?_, ?_⟩
    · exact not_mem_of_outline?_eq_none hother
    · rw [Registry.contains_eq_isSome_get?, hget]
      rfl
  · intro fault herror
    obtain ⟨_, _, _, _, hexplains, _⟩ := register_explains hsound hfind hempty herror
    cases fault with
    | circularReference chain => exact .inl ⟨chain, rfl⟩
    | unknownReference filter reference => exact .inr (.inl ⟨filter, reference, rfl⟩)
    | rejected cause =>
        obtain ⟨outline, hmem, hrefused⟩ := hexplains
        exact .inr (.inr ⟨cause, rfl, outline, hmem, Outline.not_builds_iff.1 hrefused⟩)
    | _ => exact hexplains.elim

/-! ## A diamond of documents -/

namespace Sample

def document (name : String) (fields : List Yaml.Value) : Yaml.Value :=
  .mapping [(.string "filter",
    .mapping [(.string "name", .string name), (.string "fields", .sequence fields)])]

def reference (name target : String) : Yaml.Value :=
  .mapping [(.string "name", .string name), (.string "nested", .string target)]

/-- Two ways lead from the top to the base. -/
def diamond : List Yaml.Value :=
  [document "Top" [reference "left" "Left", reference "right" "Right"],
    document "Left" [reference "base" "Base"], document "Right" [reference "base" "Base"],
    document "Base" [.string "x"]]

def diamondOutlines : List Outline :=
  [⟨"Top", {}, [⟨"left", .reference "Left"⟩, ⟨"right", .reference "Right"⟩]⟩,
    ⟨"Left", {}, [⟨"base", .reference "Base"⟩]⟩,
    ⟨"Right", {}, [⟨"base", .reference "Base"⟩]⟩,
    ⟨"Base", {}, [⟨"x", .inferred⟩]⟩]

def heightInDiamond (name : String) : Nat :=
  if name = "Top" then 2 else if name = "Base" then 0 else 1

theorem heightInDiamond_lt {a b : String} (href : RefersTo diamondOutlines a b) :
    heightInDiamond b < heightInDiamond a := by
  obtain ⟨outline, hfind, hmem, _⟩ := href
  have hname := name_of_outline? hfind
  have houtline := mem_of_outline? hfind
  have hall : ∀ outline ∈ diamondOutlines, ∀ reference ∈ outline.references,
      heightInDiamond reference < heightInDiamond outline.name := by decide
  exact hname ▸ hall outline houtline b hmem

theorem not_transGen_diamond (name : String) :
    ¬ TransGen (RefersTo diamondOutlines) name name := by
  have hlower : ∀ {a b : String}, TransGen (RefersTo diamondOutlines) a b →
      heightInDiamond b < heightInDiamond a := by
    intro a b hpath
    induction hpath with
    | single href => exact heightInDiamond_lt href
    | tail _ href ih => exact (heightInDiamond_lt href).trans ih
  exact fun hcircle => (hlower hcircle).false

/-- The diamond loads: that two ways lead to one document is no circle. -/
theorem diamond_loads :
    diamond.mapM Outline.ofValue = .ok diamondOutlines ∧
      (diamondOutlines.map (·.name)).Nodup ∧
      (∀ outline ∈ diamondOutlines, ({} : Registry).contains outline.name = false) ∧
      ∃ registry, ofDocuments {} diamond = .ok registry := by
  have hread : diamond.mapM Outline.ofValue = .ok diamondOutlines := by rfl
  have hnames : (diamondOutlines.map (·.name)).Nodup := by decide
  have hnew : ∀ outline ∈ diamondOutlines, ({} : Registry).contains outline.name = false := by
    decide
  have hbuilds : ∀ outline ∈ diamondOutlines, outline.Builds := by
    intro outline hmem
    simp only [diamondOutlines, List.mem_cons, List.not_mem_nil, or_false] at hmem
    rcases hmem with rfl | rfl | rfl | rfl
    · exact ⟨_, rfl⟩
    · exact ⟨_, rfl⟩
    · exact ⟨_, rfl⟩
    · exact ⟨⟨"Base", [⟨.plain "x", .string⟩], {}⟩, rfl⟩
  exact ⟨hread, hnames, hnew, (ofDocuments_ok_iff hread hnames hnew).1.2
    ⟨by decide, not_transGen_diamond, hbuilds⟩⟩

end Sample

end FilterQuery.Schema
