import FilterQuery.FieldName
import FilterQuery.Proofs.Lists
import FilterQuery.Proofs.Text.Segments
/-!
# How field names are taken apart

A name that holds the delimiter is accepted where it is spelled by path segments and the token of
an operator, and it is spelled in one way.  Path segments are those texts that are found again
wherever they stand in front of a delimiter.  Any other name that holds the delimiter is refused,
for an empty part of its path before its operator is looked at.
-/

namespace FilterQuery

namespace Operator

theorem mem_tokens_iff {token : String} {operator : Operator} :
    (token, operator) ∈ tokens ↔ ofToken? token = some operator := by
  have hdistinct : (tokens.map Prod.fst).Nodup := by decide
  unfold ofToken?
  rw [Option.map_eq_some_iff]
  constructor
  · intro hmem
    exact ⟨(token, operator), Lists.find?_of_mem hdistinct hmem, rfl⟩
  · rintro ⟨⟨found, _⟩, hfind, rfl⟩
    obtain ⟨hmem, rfl⟩ := (Lists.find?_eq_some_iff hdistinct).1 hfind
    exact hmem

theorem not_divided_of_mem_tokens {token : String} {operator : Operator}
    (hmem : (token, operator) ∈ tokens) : ¬ Text.Divided token.toList := by
  have hall : ∀ entry ∈ tokens, ¬ Text.Divided entry.1.toList := by decide
  exact hall (token, operator) hmem

end Operator

namespace FieldName

/-- A text that is a segment of a path, wherever it stands in a name. -/
structure IsSegment (text : String) : Prop where
  nonempty : text ≠ ""
  undivided : ¬ Text.Divided text.toList
  ending : ¬ ['_'] <:+ text.toList

/-- A name that is spelled by path segments and the token of an operator. -/
structure Spells (segments : List String) (token : String) (operator : Operator)
    (name : String) : Prop where
  nonempty : segments ≠ []
  areSegments : ∀ segment ∈ segments, IsSegment segment
  listed : (token, operator) ∈ Operator.tokens
  joined : Text.delimiter.intercalate (segments ++ [token]) = name

variable {name token last : String} {segments fronts : List String} {operator : Operator}
  {field : FieldName}

theorem Spells.segments_eq (hspells : Spells segments token operator name) :
    Text.segments name = segments ++ [token] := by
  rw [← hspells.joined]
  refine Text.segments_joined ?_ (Operator.not_divided_of_mem_tokens hspells.listed)
  intro segment hmem
  have hsegment := hspells.areSegments segment hmem
  exact Text.not_divided_append_iff.2 ⟨hsegment.undivided, hsegment.ending⟩

theorem parse_of_not_divided (hname : name ≠ "") (hwhole : ¬ Text.Divided name.toList) :
    parse name = .ok (.plain name) := by
  have hparts : Text.segments name = [name] := Text.segments_eq_iff.2 (.whole hwhole)
  rw [parse, if_neg (by simpa using hname), hparts]

theorem parse_of_segments (hparts : Text.segments name = fronts ++ [last]) (hpath : fronts ≠ []) :
    parse name =
      if "" ∈ fronts then .error (.invalidName name)
      else
        match Operator.ofToken? last with
        | none => .error (.unknownOperator name last)
        | some operator => .ok ⟨name, ".".intercalate fronts, some operator⟩ := by
  have hname : ¬ name.isEmpty := by
    rw [String.isEmpty_iff]
    rintro rfl
    have hempty : Text.segments "" = [] ++ [""] := by decide
    exact hpath (List.append_inj_left' (hparts.symm.trans hempty) rfl)
  have hany : fronts.any String.isEmpty = decide ("" ∈ fronts) := by
    rw [Bool.eq_iff_iff]
    simp
  obtain ⟨first, rest, rfl⟩ := List.exists_cons_of_ne_nil hpath
  rw [parse, if_neg hname, hparts]
  obtain ⟨second, others, hrest⟩ := List.exists_cons_of_ne_nil
    (List.append_ne_nil_of_right_ne_nil rest (List.cons_ne_nil last []))
  rw [List.cons_append, hrest]
  dsimp only
  rw [← hrest, ← List.cons_append, List.dropLast_concat, List.getLastD_concat, hany]
  exact if_congr decide_eq_true_iff rfl rfl

theorem parse_of_spells (hspells : Spells segments token operator name) :
    parse name = .ok ⟨name, ".".intercalate segments, some operator⟩ := by
  have hempty : "" ∉ segments := fun hmem => (hspells.areSegments "" hmem).nonempty rfl
  rw [parse_of_segments hspells.segments_eq hspells.nonempty, if_neg hempty,
    Operator.mem_tokens_iff.1 hspells.listed]

theorem exists_parts_of_divided (hdivided : Text.Divided name.toList) :
    ∃ fronts last, Text.segments name = fronts ++ [last] ∧ fronts ≠ [] ∧
      ("" ∉ fronts → ∀ operator, Operator.ofToken? last = some operator →
        Spells fronts last operator name) := by
  obtain ⟨fronts, last, hparts, hjoined, _, hfronts, hpath⟩ := Text.exists_segments name
  refine ⟨fronts, last, hparts, hpath.1 hdivided, ?_⟩
  intro hempty operator htoken
  refine ⟨hpath.1 hdivided, ?_, Operator.mem_tokens_iff.2 htoken, hjoined⟩
  intro segment hmem
  obtain ⟨hundivided, hending⟩ := Text.not_divided_append_iff.1 (hfronts segment hmem)
  exact ⟨fun heq => hempty (heq ▸ hmem), hundivided, hending⟩

theorem exists_spells_of_parse (hdivided : Text.Divided name.toList)
    (hparse : parse name = .ok field) :
    ∃ segments token operator, Spells segments token operator name ∧
      field = ⟨name, ".".intercalate segments, some operator⟩ := by
  obtain ⟨fronts, last, hparts, hpath, hspells⟩ := exists_parts_of_divided hdivided
  rw [parse_of_segments hparts hpath] at hparse
  split at hparse
  · cases hparse
  · rename_i hempty
    split at hparse
    · cases hparse
    · rename_i operator htoken
      exact ⟨fronts, last, operator, hspells hempty operator htoken, (Except.ok.inj hparse).symm⟩

/-- A name that can be taken apart is that of a plain field, or it is made of segments and an
operator. -/
theorem parse_cases (hparse : parse name = .ok field) :
    name ≠ "" ∧ (field = .plain name ∨ ∃ segments operator, segments ≠ [] ∧
      (∀ segment ∈ segments, segment ≠ "") ∧
      field = ⟨name, ".".intercalate segments, some operator⟩) := by
  have hname : name ≠ "" := by
    rintro rfl
    cases hparse
  refine ⟨hname, ?_⟩
  by_cases hdivided : Text.Divided name.toList
  · obtain ⟨segments, token, operator, hspells, rfl⟩ := exists_spells_of_parse hdivided hparse
    exact .inr ⟨segments, operator, hspells.nonempty,
      fun segment hmem => (hspells.areSegments segment hmem).nonempty, rfl⟩
  · rw [parse_of_not_divided hname hdivided] at hparse
    exact .inl (Except.ok.inj hparse).symm

theorem parse_of_not_spelled (hdivided : Text.Divided name.toList)
    (hnone : ¬ ∃ segments token operator, Spells segments token operator name) :
    ∃ fronts last, Text.CutInto name.toList ((fronts ++ [last]).map String.toList) ∧
      parse name = .error
        (if "" ∈ fronts then .invalidName name else .unknownOperator name last) := by
  obtain ⟨fronts, last, hparts, hpath, hspells⟩ := exists_parts_of_divided hdivided
  refine ⟨fronts, last, Text.segments_eq_iff.1 hparts, ?_⟩
  rw [parse_of_segments hparts hpath]
  by_cases hempty : "" ∈ fronts
  · rw [if_pos hempty, if_pos hempty]
  · cases htoken : Operator.ofToken? last with
    | none => rw [if_neg hempty, if_neg hempty]
    | some operator => exact absurd ⟨fronts, last, operator, hspells hempty operator htoken⟩ hnone

/-- Names that are spelled by path segments and a token are taken apart into these, and every name
that holds the delimiter and is accepted is spelled so in one way.  The others that hold it are
refused for an empty part before the last delimiter, or else for their operator; without the
delimiter a name is that of a plain field. -/
theorem parse_exact :
    (∀ segments token operator name, Spells segments token operator name →
      parse name = .ok ⟨name, ".".intercalate segments, some operator⟩) ∧
    (∀ name, Text.Divided name.toList →
      ((∃ field, parse name = .ok field) →
        ∃! spelling : List String × String,
          ∃ operator, Spells spelling.1 spelling.2 operator name) ∧
      ((¬ ∃ segments token operator, Spells segments token operator name) →
        ∃ fronts last, Text.CutInto name.toList ((fronts ++ [last]).map String.toList) ∧
          parse name = .error
            (if "" ∈ fronts then .invalidName name else .unknownOperator name last))) ∧
    ∀ name, name ≠ "" → ¬ Text.Divided name.toList → parse name = .ok (.plain name) := by
  refine ⟨fun _ _ _ _ => parse_of_spells, ?_, fun _ => parse_of_not_divided⟩
  intro name hdivided
  refine ⟨?_, parse_of_not_spelled hdivided⟩
  rintro ⟨field, hparse⟩
  obtain ⟨segments, token, operator, hspells, _⟩ := exists_spells_of_parse hdivided hparse
  refine ⟨(segments, token), ⟨operator, hspells⟩, ?_⟩
  rintro ⟨others, other⟩ ⟨_, hother⟩
  have hparts : others ++ [other] = segments ++ [token] :=
    hother.segments_eq.symm.trans hspells.segments_eq
  obtain ⟨hpath, hlast⟩ := List.append_inj' hparts rfl
  rw [hpath, List.singleton_inj.1 hlast]

/-- The delimiter is cut at its leftmost place: of three characters the last begins a segment, and
four of them leave a part empty. -/
theorem parse_runs :
    Spells ["author", "_id"] "not_in" .notAmong "author___id__not_in" ∧
      parse "author___id__not_in" = .ok ⟨"author___id__not_in", "author._id", some .notAmong⟩ ∧
      Text.Divided "author____in".toList ∧
      parse "author____in" = .error (.invalidName "author____in") ∧
      ¬ Text.Divided "_in".toList ∧ parse "_in" = .ok (.plain "_in") := by
  have hspells : Spells ["author", "_id"] "not_in" .notAmong "author___id__not_in" := by
    refine ⟨List.cons_ne_nil _ _, ?_, by decide, by simp [Text.delimiter]⟩
    intro segment hmem
    rcases List.mem_pair.1 hmem with rfl | rfl
    · exact ⟨by decide, by decide, by decide⟩
    · exact ⟨by decide, by decide, by decide⟩
  have hdivided : Text.Divided "author____in".toList := ⟨"author".toList, "__in".toList, by decide⟩
  have hplain : ¬ Text.Divided "_in".toList := by decide
  have hpath : parse "author___id__not_in"
      = .ok ⟨"author___id__not_in", ".".intercalate ["author", "_id"], some .notAmong⟩ :=
    parse_exact.1 _ _ _ _ hspells
  refine ⟨hspells, ?_, hdivided, by decide, hplain, parse_exact.2.2 _ (by decide) hplain⟩
  simpa using hpath

end FieldName

end FilterQuery
