import FilterQuery.Proofs.Schema.Reference
import Mathlib.Data.List.Chain
/-!
# The search for definitions

Resolving goes down the references of an outline and keeps what it has found.  It finds
a definition for a name exactly when the name resolves, whatever has been kept before
and whichever way it was reached: what is kept is right, and a name that resolves cannot
refer back to a name on the way to it.
-/

namespace FilterQuery.Schema

open Relation

section Cases

/-! ## The ways a name is resolved -/

variable {outlines : List Outline} {known : Registry} {filter name : String}
  {chain : List String} {resolved : Resolved}

theorem resolve_known {definition : Definition} (hnew : outline? outlines name = none)
    (hget : known.get? name = some definition) :
    resolve outlines known filter name chain resolved = .ok (definition, resolved) := by
  rw [resolve]
  split
  · rw [hget]
  · simp_all

theorem resolve_unknown (hnew : outline? outlines name = none)
    (hget : known.get? name = none) :
    resolve outlines known filter name chain resolved =
      .error (.unknownReference filter name) := by
  rw [resolve]
  split
  · rw [hget]
  · simp_all

theorem resolve_kept {outline : Outline} {definition : Definition}
    (hfind : outline? outlines name = some outline)
    (hkept : resolved.lookup name = some definition) :
    resolve outlines known filter name chain resolved = .ok (definition, resolved) := by
  rw [resolve]
  split
  · simp_all
  · rw [hkept]

theorem resolve_circle {outline : Outline} (hfind : outline? outlines name = some outline)
    (hkept : resolved.lookup name = none) (hchain : name ∈ chain) :
    resolve outlines known filter name chain resolved =
      .error (.circularReference (chain ++ [name])) := by
  rw [resolve]
  split
  · simp_all
  · rw [hkept]
    exact dif_pos hchain

theorem resolve_outline {outline : Outline} (hfind : outline? outlines name = some outline)
    (hkept : resolved.lookup name = none) (hchain : name ∉ chain) :
    resolve outlines known filter name chain resolved = do
      let below ←
        resolveAll outlines known name outline.references (chain ++ [name]) resolved
      let definition ← outline.build fun reference => below.1.lookup reference
      return (definition, (name, definition) :: below.2) := by
  rw [resolve]
  split
  · simp_all
  · rename_i found hfound
    cases hfind.symm.trans hfound
    rw [hkept]
    exact dif_neg hchain

theorem resolveAll_nil :
    resolveAll outlines known filter [] chain resolved = .ok ([], resolved) := by
  rw [resolveAll]

theorem resolveAll_cons {rest : List String} :
    resolveAll outlines known filter (name :: rest) chain resolved = do
      let first ← resolve outlines known filter name chain resolved
      let more ← resolveAll outlines known filter rest chain first.2
      return ((name, first.1) :: more.1, more.2) := by
  rw [resolveAll]

end Cases

variable {outlines : List Outline} {known : Registry}

/-! ## What the search finds is right -/

/-- Everything that has been found is what its name resolves to. -/
def Resolved.Sound (outlines : List Outline) (known : Registry) (resolved : Resolved) : Prop :=
  ∀ name definition, (name, definition) ∈ resolved → Resolves outlines known name definition

theorem Resolved.Sound.lookup {resolved : Resolved} (hsound : resolved.Sound outlines known)
    {name : String} {definition : Definition}
    (hkept : resolved.lookup name = some definition) :
    Resolves outlines known name definition := by
  obtain ⟨before, after, hsplit, _⟩ := List.lookup_eq_some_iff.1 hkept
  exact hsound name definition (by simp [hsplit])

theorem Resolved.Sound.cons {resolved : Resolved} (hsound : resolved.Sound outlines known)
    {name : String} {definition : Definition} (h : Resolves outlines known name definition) :
    Resolved.Sound outlines known ((name, definition) :: resolved) := by
  intro other found hmem
  rcases List.mem_cons.1 hmem with heq | hmem
  · cases heq
    exact h
  · exact hsound other found hmem

theorem Resolves.of_lookup {name : String} {outline : Outline}
    (hfind : outline? outlines name = some outline) {below : Resolved}
    (hbelow : below.Sound outlines known)
    (hkeys : below.map (·.1) = outline.references) {definition : Definition}
    (hbuild : outline.build (fun reference => below.lookup reference) = .ok definition) :
    Resolves outlines known name definition := by
  let definitionOf (reference : String) : Definition :=
    (below.lookup reference).getD default
  have hlookup : ∀ reference ∈ outline.references,
      below.lookup reference = some (definitionOf reference) := by
    intro reference hmem
    rw [← hkeys] at hmem
    have hsome : (below.lookup reference).isSome := by
      simpa [List.lookup_isSome_iff] using hmem
    obtain ⟨found, hfound⟩ := Option.isSome_iff_exists.1 hsome
    simp [definitionOf, hfound]
  apply Resolves.outline definitionOf hfind
  · intro reference hmem
    exact hbelow.lookup (hlookup reference hmem)
  · rw [← Outline.draft_congr hlookup]
    exact Outline.build_eq_ok_iff.1 hbuild

/-- The search keeps what it has found right, and what it answers is right. -/
theorem resolve_sound (filter name : String) (chain : List String) (resolved : Resolved) :
    resolved.Sound outlines known → ∀ definition later,
      resolve outlines known filter name chain resolved = .ok (definition, later) →
      Resolves outlines known name definition ∧ later.Sound outlines known := by
  -- What is kept goes from one name to the next, so that it stays right is part of the law.
  refine resolve.induct outlines known
    (fun filter name chain resolved => resolved.Sound outlines known → ∀ definition later,
      resolve outlines known filter name chain resolved = .ok (definition, later) →
      Resolves outlines known name definition ∧ later.Sound outlines known)
    (fun filter names chain resolved => resolved.Sound outlines known → ∀ below later,
      resolveAll outlines known filter names chain resolved = .ok (below, later) →
      below.map (·.1) = names ∧ below.Sound outlines known ∧ later.Sound outlines known)
    ?known ?unknown ?kept ?circle ?outline ?nil ?cons filter name chain resolved
  case known =>
    intro filter name chain resolved hnew definition hget hsound found later hok
    rw [resolve_known hnew hget] at hok
    cases hok
    exact ⟨.known hnew hget, hsound⟩
  case unknown =>
    intro filter name chain resolved hnew hget _ found later hok
    rw [resolve_unknown hnew hget] at hok
    cases hok
  case kept =>
    intro filter name chain resolved outline hfind definition hkept hsound found later hok
    rw [resolve_kept hfind hkept] at hok
    cases hok
    exact ⟨hsound.lookup hkept, hsound⟩
  case circle =>
    intro filter name chain resolved outline hfind hkept hchain _ found later hok
    rw [resolve_circle hfind hkept hchain] at hok
    cases hok
  case outline =>
    intro filter name chain resolved outline hfind hkept hchain ih hsound found later hok
    rw [resolve_outline hfind hkept hchain] at hok
    obtain ⟨⟨below, kept⟩, hbelow, hrest⟩ := Outcome.bind_eq_ok.1 hok
    obtain ⟨definition, hbuild, heq⟩ := Outcome.bind_eq_ok.1 hrest
    cases heq
    obtain ⟨hkeys, hright, hsound⟩ := ih hsound below kept hbelow
    have hresolves := Resolves.of_lookup hfind hright hkeys hbuild
    exact ⟨hresolves, hsound.cons hresolves⟩
  case nil =>
    intro filter chain resolved hsound below later hok
    rw [resolveAll] at hok
    cases hok
    exact ⟨rfl, nofun, hsound⟩
  case cons =>
    intro filter chain resolved name rest hname hrest hsound below later hok
    rw [resolveAll_cons] at hok
    obtain ⟨⟨definition, kept⟩, hfirst, hok⟩ := Outcome.bind_eq_ok.1 hok
    obtain ⟨⟨more, last⟩, hmore, heq⟩ := Outcome.bind_eq_ok.1 hok
    cases heq
    obtain ⟨hresolves, hkept⟩ := hname hsound definition kept hfirst
    obtain ⟨hkeys, hright, hlast⟩ := hrest kept hkept more last hmore
    exact ⟨by rw [List.map_cons, hkeys], hright.cons hresolves, hlast⟩

/-! ## What resolves is found -/

theorem resolveAll_of_each {filter : String} {chain names : List String}
    {definitionOf : String → Definition}
    (heach : ∀ name ∈ names, ∀ resolved : Resolved, resolved.Sound outlines known →
      ∃ later, resolve outlines known filter name chain resolved =
        .ok (definitionOf name, later) ∧ later.Sound outlines known)
    {resolved : Resolved} (hsound : resolved.Sound outlines known) :
    ∃ later, resolveAll outlines known filter names chain resolved =
      .ok (names.map fun name => (name, definitionOf name), later) ∧
      later.Sound outlines known := by
  induction names generalizing resolved with
  | nil => exact ⟨resolved, by rw [resolveAll]; rfl, hsound⟩
  | cons name rest ih =>
      obtain ⟨kept, hfirst, hkept⟩ := heach name (.head _) resolved hsound
      obtain ⟨later, hmore, hlater⟩ :=
        ih (fun other hmem => heach other (.tail _ hmem)) hkept
      refine ⟨later, ?_, hlater⟩
      rw [resolveAll_cons, hfirst]
      simp only [bind, Except.bind]
      rw [hmore]
      rfl

theorem lookup_map_mk {names : List String} (definitionOf : String → Definition)
    {name : String} (hmem : name ∈ names) :
    (names.map fun name => (name, definitionOf name)).lookup name =
      some (definitionOf name) := by
  induction names with
  | nil => cases hmem
  | cons head rest ih =>
      rw [List.map_cons, List.lookup_cons]
      by_cases heq : name = head
      · subst heq
        simp
      · have hne : (name == head) = false := by simpa using heq
        rw [hne]
        exact ih ((List.mem_cons.1 hmem).resolve_left heq)

/-- A name that resolves is found, if no more than names that lead to it are being
resolved already. -/
theorem Resolves.resolve_eq_ok {name : String} {definition : Definition}
    (h : Resolves outlines known name definition) :
    ∀ (filter : String) (chain : List String) (resolved : Resolved),
      resolved.Sound outlines known →
      ((outline? outlines name).isSome →
        ∀ above ∈ chain, TransGen (RefersTo outlines) above name) →
      ∃ later, resolve outlines known filter name chain resolved = .ok (definition, later) ∧
        later.Sound outlines known := by
  induction h with
  | known hnew hget =>
      intro filter chain resolved hsound _
      exact ⟨resolved, resolve_known hnew hget, hsound⟩
  | @outline name outline definition definitionOf hfind hreferences hbuild ih =>
      intro filter chain resolved hsound habove
      have hresolves := Resolves.outline definitionOf hfind hreferences hbuild
      cases hkept : resolved.lookup name with
      | some found =>
          rw [hresolves.unique (hsound.lookup hkept)]
          exact ⟨resolved, resolve_kept hfind hkept, hsound⟩
      | none =>
          have hleads : ∀ above ∈ chain, TransGen (RefersTo outlines) above name :=
            habove (by simp [hfind])
          -- A name that is being resolved above would lead back to itself.
          have hchain : name ∉ chain := fun hmem => hresolves.acyclic (hleads name hmem)
          have heach : ∀ reference ∈ outline.references, ∀ kept : Resolved,
              kept.Sound outlines known → ∃ later,
                resolve outlines known name reference (chain ++ [name]) kept =
                  .ok (definitionOf reference, later) ∧ later.Sound outlines known := by
            intro reference hmem kept hkeptSound
            apply ih reference hmem name (chain ++ [name]) kept hkeptSound
            intro houtline above habove
            have hstep : RefersTo outlines name reference := ⟨outline, hfind, hmem, houtline⟩
            rcases List.mem_append.1 habove with habove | habove
            · exact (hleads above habove).tail hstep
            · rw [List.mem_singleton.1 habove]
              exact .single hstep
          obtain ⟨later, hall, hlater⟩ := resolveAll_of_each heach hsound
          refine ⟨(name, definition) :: later, ?_, hlater.cons hresolves⟩
          rw [resolve_outline hfind hkept hchain, hall]
          simp only [bind, Except.bind]
          rw [Outline.build_congr fun reference hmem => lookup_map_mk definitionOf hmem,
            Outline.build_eq_ok_iff.2 hbuild]
          rfl

end FilterQuery.Schema
