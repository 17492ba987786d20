import FilterQuery.Definition.Basic
/-!
# Equality of definitions

Definitions are finite trees, so their equality is decided field by field, all
the way down the nested definitions.
-/

namespace FilterQuery

mutual

def FieldKind.decEq : (a b : FieldKind) → Decidable (a = b)
  | .string, .string => isTrue rfl
  | .integer, .integer => isTrue rfl
  | .number, .number => isTrue rfl
  | .boolean, .boolean => isTrue rfl
  | .list a, .list b =>
      match FieldKind.decEq a b with
      | isTrue h => isTrue (by rw [h])
      | isFalse h => isFalse fun e => h (by injection e)
  | .nested a, .nested b =>
      match Definition.decEq a b with
      | isTrue h => isTrue (by rw [h])
      | isFalse h => isFalse fun e => h (by injection e)
  | .string, .integer | .string, .number | .string, .boolean => isFalse nofun
  | .string, .list _ | .string, .nested _ => isFalse nofun
  | .integer, .string | .integer, .number | .integer, .boolean => isFalse nofun
  | .integer, .list _ | .integer, .nested _ => isFalse nofun
  | .number, .string | .number, .integer | .number, .boolean => isFalse nofun
  | .number, .list _ | .number, .nested _ => isFalse nofun
  | .boolean, .string | .boolean, .integer | .boolean, .number => isFalse nofun
  | .boolean, .list _ | .boolean, .nested _ => isFalse nofun
  | .list _, .string | .list _, .integer | .list _, .number => isFalse nofun
  | .list _, .boolean | .list _, .nested _ => isFalse nofun
  | .nested _, .string | .nested _, .integer | .nested _, .number => isFalse nofun
  | .nested _, .boolean | .nested _, .list _ => isFalse nofun
termination_by structural a => a

def DeclaredField.decEq : (a b : DeclaredField) → Decidable (a = b)
  | ⟨f, k⟩, ⟨g, l⟩ =>
      if hf : f = g then
        match FieldKind.decEq k l with
        | isTrue hk => isTrue (by rw [hf, hk])
        | isFalse hk => isFalse fun e => hk (by injection e)
      else isFalse fun e => hf (by injection e)
termination_by structural a => a

def DeclaredField.decEqList : (as bs : List DeclaredField) → Decidable (as = bs)
  | [], [] => isTrue rfl
  | [], _ :: _ => isFalse nofun
  | _ :: _, [] => isFalse nofun
  | a :: as, b :: bs =>
      match DeclaredField.decEq a b with
      | isFalse h => isFalse fun e => h (by injection e)
      | isTrue h =>
          match DeclaredField.decEqList as bs with
          | isTrue hs => isTrue (by rw [h, hs])
          | isFalse hs => isFalse fun e => hs (by injection e)
termination_by structural a => a

def Definition.decEq : (a b : Definition) → Decidable (a = b)
  | ⟨n, fs, c⟩, ⟨m, gs, d⟩ =>
      if hn : n = m then
        if hc : c = d then
          match DeclaredField.decEqList fs gs with
          | isTrue hf => isTrue (by rw [hn, hc, hf])
          | isFalse hf => isFalse fun e => hf (by injection e)
        else isFalse fun e => hc (by injection e)
      else isFalse fun e => hn (by injection e)
termination_by structural a => a

end

instance : DecidableEq Definition := Definition.decEq

instance : DecidableEq FieldKind := FieldKind.decEq

instance : DecidableEq DeclaredField := DeclaredField.decEq

end FilterQuery
