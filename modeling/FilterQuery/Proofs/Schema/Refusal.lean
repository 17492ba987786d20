import FilterQuery.Proofs.Schema.Search
import Mathlib.Data.List.Perm.Subperm
/-!
# Why the search refuses

A refusal of the search points at what is wrong with the outlines: a chain of references
that comes back to a name on it, a reference to nothing, or an outline whose fields
cannot be declared.
-/

namespace FilterQuery.Schema

open Relation

/-- A chain of references that comes back to a name on it, and meets no other twice. -/
structure IsCircle (outlines : List Outline) (chain : List String) : Prop where
  path : chain.IsChain (RefersTo outlines)
  closed : ∃ before last, chain = before ++ [last] ∧ last ∈ before ∧ before.Nodup

/-- The outlines bear out a fault that is reported while `root` is being resolved. -/
def Explains (outlines : List Outline) (known : Registry) (root : Option String) :
    Error → Prop
  | .circularReference chain => IsCircle outlines chain ∧ chain.head? = root
  | .unknownReference filter reference =>
      ∃ outline, outline? outlines filter = some outline ∧
        reference ∈ outline.references ∧ outline? outlines reference = none ∧
        known.get? reference = none
  | .rejected _ => ∃ outline ∈ outlines, ¬ outline.Builds
  | _ => False

variable {outlines : List Outline} {known : Registry}

/-! ## Circles -/

theorem IsCircle.transGen {chain : List String} (hcircle : IsCircle outlines chain) :
    ∃ name ∈ chain, TransGen (RefersTo outlines) name name := by
  obtain ⟨before, last, rfl, hmem, _⟩ := hcircle.closed
  have hpairwise : (before ++ [last]).Pairwise (TransGen (RefersTo outlines)) :=
    List.isChain_iff_pairwise.1 (hcircle.path.imp fun _ _ h => .single h)
  refine ⟨last, by simp, ?_⟩
  exact (List.pairwise_append.1 hpairwise).2.2 last hmem last (by simp)

/-- On a circle only outlines are met, so it is no longer than they are many. -/
theorem IsCircle.length_le {chain : List String} (hcircle : IsCircle outlines chain) :
    chain.length ≤ outlines.length + 1 := by
  obtain ⟨before, last, rfl, _, hnodup⟩ := hcircle.closed
  have hnames : before ⊆ outlines.map (·.name) := by
    intro name hmem
    obtain ⟨front, back, rfl⟩ := List.append_of_mem hmem
    have hpath := hcircle.path
    rw [List.append_assoc, List.isChain_append, List.cons_append] at hpath
    have hstep : ∃ next, RefersTo outlines name next := by
      cases back with
      | nil => exact ⟨last, hpath.2.1.rel⟩
      | cons next back => exact ⟨next, hpath.2.1.rel⟩
    obtain ⟨_, outline, hfind, _⟩ := hstep
    exact List.mem_map.2 ⟨outline, mem_of_outline? hfind, name_of_outline? hfind⟩
  have hlength := (List.subperm_of_subset hnodup hnames).length_le
  simpa using hlength

/-! ## Refusals -/

theorem keys_of_resolveAll {filter : String} {names chain : List String}
    {resolved below later : Resolved}
    (hok : resolveAll outlines known filter names chain resolved = .ok (below, later)) :
    below.map (·.1) = names := by
  induction names generalizing resolved below later with
  | nil =>
      rw [resolveAll] at hok
      cases hok
      rfl
  | cons name rest ih =>
      rw [resolveAll_cons] at hok
      obtain ⟨first, _, hok⟩ := Outcome.bind_eq_ok.1 hok
      obtain ⟨more, hmore, heq⟩ := Outcome.bind_eq_ok.1 hok
      cases heq
      rw [List.map_cons, ih hmore]

theorem Outline.not_builds {outline : Outline} {below : Resolved}
    (hkeys : below.map (·.1) = outline.references) {fault : Error}
    (herror : outline.build (fun reference => below.lookup reference) = .error fault) :
    ¬ outline.Builds := by
  have hcovered : ∀ reference ∈ outline.references, (below.lookup reference).isSome := by
    intro reference hmem
    rw [← hkeys] at hmem
    simpa [List.lookup_isSome_iff] using hmem
  intro hbuilds
  obtain ⟨definition, hok⟩ := (Outline.builds_iff hcovered).1 hbuilds
  rw [Outline.build_eq_ok_iff.2 hok] at herror
  cases herror

theorem RefersTo.isChain_append {chain : List String} {last name : String}
    (hstep : RefersTo outlines last name) (hpath : chain.IsChain (RefersTo outlines))
    (hlast : chain.getLast? = some last) : (chain ++ [name]).IsChain (RefersTo outlines) := by
  rw [List.isChain_append]
  refine ⟨hpath, .singleton name, ?_⟩
  intro above habove below hbelow
  rw [hlast] at habove
  cases habove
  cases hbelow
  exact hstep

/-- What is refused on the way along a chain of references is explained by the
outlines. -/
theorem resolve_explains (filter name : String) (chain : List String)
    (resolved : Resolved) :
    ((outline? outlines name).isSome → (chain ++ [name]).IsChain (RefersTo outlines)) →
    chain.Nodup →
    (outline? outlines name = none →
      ∃ outline, outline? outlines filter = some outline ∧ name ∈ outline.references) →
    ∀ fault, resolve outlines known filter name chain resolved = .error fault →
      Explains outlines known (chain ++ [name]).head? fault := by
  -- The names being resolved are a chain of references on which no name comes twice, so the name
  -- that closes a circle is the first to do so.
  refine resolve.induct outlines known
    (fun filter name chain resolved =>
      ((outline? outlines name).isSome → (chain ++ [name]).IsChain (RefersTo outlines)) →
      chain.Nodup →
      (outline? outlines name = none →
        ∃ outline, outline? outlines filter = some outline ∧ name ∈ outline.references) →
      ∀ fault, resolve outlines known filter name chain resolved = .error fault →
        Explains outlines known (chain ++ [name]).head? fault)
    (fun filter names chain resolved =>
      (∃ outline, outline? outlines filter = some outline ∧ names ⊆ outline.references) →
      chain.IsChain (RefersTo outlines) → chain.getLast? = some filter → chain.Nodup →
      ∀ fault, resolveAll outlines known filter names chain resolved = .error fault →
        Explains outlines known chain.head? fault)
    ?known ?unknown ?kept ?circle ?outline ?nil ?cons filter name chain resolved
  case known =>
    intro filter name chain resolved hnew definition hget _ _ _ fault herror
    rw [resolve_known hnew hget] at herror
    cases herror
  case unknown =>
    intro filter name chain resolved hnew hget _ _ hrefers fault herror
    rw [resolve_unknown hnew hget] at herror
    cases herror
    obtain ⟨outline, hfind, hmem⟩ := hrefers hnew
    exact ⟨outline, hfind, hmem, hnew, hget⟩
  case kept =>
    intro filter name chain resolved outline hfind definition hkept _ _ _ fault herror
    rw [resolve_kept hfind hkept] at herror
    cases herror
  case circle =>
    intro filter name chain resolved outline hfind hkept hchain hpath hnodup _ fault herror
    rw [resolve_circle hfind hkept hchain] at herror
    cases herror
    exact ⟨⟨hpath (by simp [hfind]), chain, name, rfl, hchain, hnodup⟩, rfl⟩
  case outline =>
    intro filter name chain resolved outline hfind hkept hchain ih hpath hnodup _ fault herror
    rw [resolve_outline hfind hkept hchain] at herror
    rcases Outcome.bind_eq_error.1 herror with herror | ⟨⟨below, kept⟩, hbelow, herror⟩
    · have hnodup' : (chain ++ [name]).Nodup := by
        rw [List.nodup_append]
        refine ⟨hnodup, by simp, ?_⟩
        intro above habove other hother heq
        rw [List.mem_singleton.1 hother] at heq
        exact hchain (heq ▸ habove)
      exact ih ⟨outline, hfind, fun _ => id⟩ (hpath (by simp [hfind])) (by simp) hnodup'
        fault herror
    · rcases Outcome.bind_eq_error.1 herror with herror | ⟨_, _, herror⟩
      · have hnot := Outline.not_builds (keys_of_resolveAll hbelow) herror
        obtain ⟨cause, _, rfl⟩ := Outcome.mapError_eq_error.1 herror
        exact ⟨outline, mem_of_outline? hfind, hnot⟩
      · cases herror
  case nil =>
    intro filter chain resolved _ _ _ _ fault herror
    rw [resolveAll] at herror
    cases herror
  case cons =>
    intro filter chain resolved name rest hname hrest hrefers hpath hlast hnodup fault herror
    obtain ⟨outline, hfind, hsubset⟩ := hrefers
    rw [resolveAll_cons] at herror
    rcases Outcome.bind_eq_error.1 herror with herror | ⟨⟨_, kept⟩, _, herror⟩
    · have hhead : (chain ++ [name]).head? = chain.head? := by
        cases chain with
        | nil => simp at hlast
        | cons first chain => rfl
      rw [← hhead]
      refine hname ?_ hnodup (fun _ => ⟨outline, hfind, hsubset (.head _)⟩) fault herror
      intro houtline
      have hstep : RefersTo outlines filter name :=
        ⟨outline, hfind, hsubset (.head _), houtline⟩
      exact hstep.isChain_append hpath hlast
    · rcases Outcome.bind_eq_error.1 herror with herror | ⟨_, _, herror⟩
      · exact hrest kept ⟨outline, hfind, fun _ h => hsubset (.tail _ h)⟩ hpath hlast hnodup
          fault herror
      · cases herror

end FilterQuery.Schema
