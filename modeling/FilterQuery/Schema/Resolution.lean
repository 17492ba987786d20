import FilterQuery.Schema.Outline
import FilterQuery.Registry
/-!
# Resolving references

The nested fields of an outline are resolved in order, depth first.  A name is
looked up among the outlines that are loaded together before it is looked up among
the definitions that are known already.  What has been resolved is kept, and a name
that is met while it is being resolved closes a circle.
-/

namespace FilterQuery.Schema

/-- The draft of a field, where each reference stands for a definition. -/
def OutlineField.draft (definitionOf : String → Option Definition) (field : OutlineField) :
    FieldDraft :=
  match field.kind with
  | .inferred => ⟨field.name, none⟩
  | .given kind => ⟨field.name, some kind⟩
  | .reference name => ⟨field.name, (definitionOf name).map .nested⟩

def Outline.draft (outline : Outline) (definitionOf : String → Option Definition) : Draft :=
  { name := outline.name, fields := outline.fields.map (·.draft definitionOf),
    constants := outline.constants }

/-- The definition of an outline, where each reference stands for a definition. -/
def Outline.build (outline : Outline) (definitionOf : String → Option Definition) :
    Except Error Definition :=
  (outline.draft definitionOf).build.mapError .rejected

def Outline.resolveIn (outline : Outline) (known : Registry) : Except Error Definition :=
  match outline.references.find? (!known.contains ·) with
  | some reference => .error (.unknownReference outline.name reference)
  | none => outline.build known.get?

abbrev Resolved := List (String × Definition)

def outline? (outlines : List Outline) (name : String) : Option Outline :=
  outlines.find? (·.name == name)

/-- The number of outlines that are not being resolved. -/
def unvisited (outlines : List Outline) (chain : List String) : Nat :=
  outlines.countP fun outline => outline.name ∉ chain

theorem unvisited_append_le (outlines : List Outline) (chain : List String)
    (name : String) : unvisited outlines (chain ++ [name]) ≤ unvisited outlines chain :=
  List.countP_mono_left fun outline _ h => by simp_all

theorem unvisited_lt {outlines : List Outline} {chain : List String} {name : String}
    {outline : Outline} (hfind : outline? outlines name = some outline)
    (hnew : name ∉ chain) :
    unvisited outlines (chain ++ [name]) < unvisited outlines chain := by
  have hname : outline.name = name := by simpa using List.find?_some hfind
  obtain ⟨before, after, rfl⟩ := List.append_of_mem (List.mem_of_find?_eq_some hfind)
  have hbefore := unvisited_append_le before chain name
  have hafter := unvisited_append_le after chain name
  unfold unvisited at *
  rw [List.countP_append, List.countP_append, List.countP_cons_of_neg (by simp [hname]),
    List.countP_cons_of_pos (by simpa [hname])]
  omega

mutual

/-- Resolves a name that `filter` refers to, while the names of `chain` are being
resolved. -/
def resolve (outlines : List Outline) (known : Registry) (filter name : String)
    (chain : List String) (resolved : Resolved) : Except Error (Definition × Resolved) :=
  match _hfind : outline? outlines name with
  | none =>
      match known.get? name with
      | some definition => .ok (definition, resolved)
      | none => .error (.unknownReference filter name)
  | some outline =>
      match resolved.lookup name with
      | some definition => .ok (definition, resolved)
      | none =>
          if _hchain : name ∈ chain then .error (.circularReference (chain ++ [name]))
          else do
            let (definitions, resolved) ←
              resolveAll outlines known name outline.references (chain ++ [name]) resolved
            let definition ← outline.build fun reference => definitions.lookup reference
            return (definition, (name, definition) :: resolved)
termination_by (unvisited outlines chain, 0)
decreasing_by exact Prod.Lex.left _ _ (unvisited_lt _hfind _hchain)

def resolveAll (outlines : List Outline) (known : Registry) (filter : String)
    (names : List String) (chain : List String) (resolved : Resolved) :
    Except Error (Resolved × Resolved) :=
  match names with
  | [] => .ok ([], resolved)
  | name :: rest => do
      let (definition, resolved) ← resolve outlines known filter name chain resolved
      let (definitions, resolved) ← resolveAll outlines known filter rest chain resolved
      return ((name, definition) :: definitions, resolved)
termination_by (unvisited outlines chain, names.length + 1)

end

end FilterQuery.Schema
