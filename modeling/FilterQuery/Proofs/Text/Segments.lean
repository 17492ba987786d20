import FilterQuery.Text.Split
/-!
# Cutting and joining

A text is cut at the first delimiter in it, and what is behind that is cut again.  A piece in
front of a delimiter therefore neither holds a delimiter nor ends in half of one, since the first
delimiter would begin further left.  Pieces of this kind are exactly those that can be joined and
cut again, so every text is cut in one way.
-/

namespace FilterQuery.Text

def Divided (chars : List Char) : Prop :=
  delimiter.toList <:+: chars

/-- The pieces of characters, cut at the leftmost delimiters that do not overlap: the first
delimiter stands where the characters before it, with half of a delimiter, hold none. -/
inductive CutInto : List Char → List (List Char) → Prop
  | whole {chars : List Char} (hwhole : ¬ Divided chars) : CutInto chars [chars]
  | cut {front behind : List Char} {pieces : List (List Char)}
      (hfirst : ¬ Divided (front ++ ['_'])) (hbehind : CutInto behind pieces) :
      CutInto (front ++ delimiter.toList ++ behind) (front :: pieces)

variable {chars front behind : List Char} {pieces : List (List Char)} {c : Char}

theorem toList_delimiter : delimiter.toList = ['_', '_'] := by
  decide

theorem divided_cons : Divided (c :: chars) ↔ (c = '_' ∧ ['_'] <+: chars) ∨ Divided chars := by
  unfold Divided
  rw [List.infix_cons_iff, toList_delimiter, List.cons_prefix_cons, eq_comm]

/-- A piece stands in front of a delimiter where it holds none and does not end in half of one. -/
theorem not_divided_append_iff :
    ¬ Divided (front ++ ['_']) ↔ ¬ Divided front ∧ ¬ ['_'] <:+ front := by
  unfold Divided
  rw [List.infix_concat_iff, toList_delimiter, not_or, and_comm]
  refine and_congr_right fun _ => not_congr ?_
  rw [List.suffix_concat_iff]
  constructor
  · rintro (hnil | ⟨half, hhalf, hsuffix⟩)
    · cases hnil
    · have hboth : ['_'] ++ ['_'] = half ++ ['_'] := hhalf
      rwa [List.append_cancel_right hboth]
  · intro hsuffix
    exact .inr ⟨['_'], rfl, hsuffix⟩

theorem prefix_append_iff :
    ['_'] <+: front ++ delimiter.toList ++ behind ↔ ['_'] <+: front ++ ['_'] := by
  rw [toList_delimiter]
  cases front <;> simp [List.cons_prefix_cons]

/-! ## Cutting -/

theorem segmentChars_cons (hfirst : ¬ (c = '_' ∧ ['_'] <+: chars)) :
    segmentChars (c :: chars) = (segmentChars chars).modifyHead (c :: ·) := by
  rw [segmentChars]
  rintro rest rfl rfl
  exact hfirst ⟨rfl, rest, rfl⟩

theorem segmentChars_of_not_divided (hwhole : ¬ Divided chars) :
    segmentChars chars = [chars] := by
  induction chars with
  | nil => rfl
  | cons c rest ih =>
      rw [divided_cons, not_or] at hwhole
      rw [segmentChars_cons hwhole.1, ih hwhole.2]
      rfl

theorem segmentChars_append (hfirst : ¬ Divided (front ++ ['_'])) :
    segmentChars (front ++ delimiter.toList ++ behind) = front :: segmentChars behind := by
  induction front with
  | nil => rfl
  | cons c rest ih =>
      rw [List.cons_append, divided_cons, not_or, ← prefix_append_iff] at hfirst
      rw [List.cons_append, List.cons_append, segmentChars_cons hfirst.1, ih hfirst.2]
      rfl

theorem cutInto_segmentChars (chars : List Char) : CutInto chars (segmentChars chars) := by
  fun_induction segmentChars chars with
  | case1 =>
      have hempty : ¬ Divided [] := fun hdivided => nomatch List.infix_nil.1 hdivided
      exact .whole hempty
  | case2 rest ih =>
      have hempty : ¬ Divided ([] ++ ['_']) := fun hdivided => nomatch hdivided.length_le
      exact .cut hempty ih
  | case3 c rest hpair ih =>
      have hhead : ¬ (c = '_' ∧ ['_'] <+: rest) := by
        rintro ⟨hc, more, hrest⟩
        exact hpair more hc hrest.symm
      generalize segmentChars rest = pieces at ih
      cases ih with
      | whole hwhole =>
          refine .whole ?_
          rw [divided_cons, not_or]
          exact ⟨hhead, hwhole⟩
      | @cut front behind pieces hfirst hbehind =>
          -- The first delimiter does not move, since none begins at the new character.
          have hlonger : ¬ Divided (c :: front ++ ['_']) := by
            rw [List.cons_append, divided_cons, not_or, ← prefix_append_iff]
            exact ⟨hhead, hfirst⟩
          exact .cut hlonger hbehind

theorem cutInto_iff : CutInto chars pieces ↔ segmentChars chars = pieces := by
  constructor
  · intro hcut
    induction hcut with
    | whole hwhole => exact segmentChars_of_not_divided hwhole
    | cut hfirst _ ih => rw [segmentChars_append hfirst, ih]
  · rintro rfl
    exact cutInto_segmentChars chars

/-! ## Joining -/

/-- What is cut into pieces are the pieces, joined; the last of them holds no delimiter, and the
others do not even with half of one behind them. -/
theorem CutInto.joined (hcut : CutInto chars pieces) :
    delimiter.toList.intercalate pieces = chars ∧
      ∃ fronts last, pieces = fronts ++ [last] ∧ ¬ Divided last ∧
        ∀ front ∈ fronts, ¬ Divided (front ++ ['_']) := by
  induction hcut with
  | @whole chars hwhole => exact ⟨List.intercalate_singleton, [], chars, rfl, hwhole, nofun⟩
  | @cut front behind pieces hfirst _ ih =>
      obtain ⟨hjoined, fronts, last, rfl, hlast, hfronts⟩ := ih
      refine ⟨?_, front :: fronts, last, rfl, hlast, List.forall_mem_cons.2 ⟨hfirst, hfronts⟩⟩
      rw [List.intercalate_cons_of_ne_nil (by simp), hjoined]

theorem cutInto_joined {fronts : List (List Char)} {last : List Char}
    (hfronts : ∀ front ∈ fronts, ¬ Divided (front ++ ['_'])) (hlast : ¬ Divided last) :
    CutInto (delimiter.toList.intercalate (fronts ++ [last])) (fronts ++ [last]) := by
  induction fronts with
  | nil => exact List.intercalate_singleton ▸ .whole hlast
  | cons front fronts ih =>
      obtain ⟨hfirst, hrest⟩ := List.forall_mem_cons.1 hfronts
      rw [List.cons_append, List.intercalate_cons_of_ne_nil (by simp)]
      exact .cut hfirst (ih hrest)

theorem CutInto.divided_iff (hcut : CutInto chars pieces) :
    Divided chars ↔ 2 ≤ pieces.length := by
  cases hcut with
  | whole hwhole => simp [hwhole]
  | @cut front behind pieces hfirst hbehind =>
      have hdivided : Divided (front ++ delimiter.toList ++ behind) := ⟨front, behind, rfl⟩
      have hpieces : pieces ≠ [] := by
        cases hbehind <;> exact List.cons_ne_nil _ _
      have hpositive : 0 < pieces.length := List.length_pos_iff.2 hpieces
      rw [iff_true_left hdivided, List.length_cons]
      omega

theorem divided_iff : Divided chars ↔ segmentChars chars ≠ [chars] := by
  constructor
  · intro hdivided hwhole
    have hlength := (cutInto_segmentChars chars).divided_iff.1 hdivided
    rw [hwhole, List.length_singleton] at hlength
    omega
  · intro hcut
    exact Classical.byContradiction fun hwhole => hcut (segmentChars_of_not_divided hwhole)

instance (chars : List Char) : Decidable (Divided chars) :=
  decidable_of_iff _ divided_iff.symm

/-! ## Texts -/

theorem segments_eq_iff {text : String} {parts : List String} :
    segments text = parts ↔ CutInto text.toList (parts.map String.toList) := by
  rw [cutInto_iff]
  unfold segments
  constructor
  · rintro rfl
    simp [Function.comp_def]
  · intro hparts
    simp [hparts, Function.comp_def]

theorem segments_joined {fronts : List String} {last : String}
    (hfronts : ∀ front ∈ fronts, ¬ Divided (front.toList ++ ['_']))
    (hlast : ¬ Divided last.toList) :
    segments (delimiter.intercalate (fronts ++ [last])) = fronts ++ [last] := by
  rw [segments_eq_iff, String.toList_intercalate, List.map_append, List.map_singleton]
  exact cutInto_joined (List.forall_mem_map.2 hfronts) hlast

theorem exists_segments (text : String) :
    ∃ fronts last, segments text = fronts ++ [last] ∧
      delimiter.intercalate (fronts ++ [last]) = text ∧ ¬ Divided last.toList ∧
      (∀ front ∈ fronts, ¬ Divided (front.toList ++ ['_'])) ∧
      (Divided text.toList ↔ fronts ≠ []) := by
  obtain ⟨hjoined, fronts, last, hpieces, hlast, hfronts⟩ :=
    (cutInto_segmentChars text.toList).joined
  have hdivided := (cutInto_segmentChars text.toList).divided_iff
  rw [hpieces] at hjoined hdivided
  have hparts : segments text = fronts.map String.ofList ++ [String.ofList last] := by
    rw [segments, hpieces, List.map_append, List.map_singleton]
  refine ⟨_, _, hparts, ?_, by simpa using hlast, ?_, ?_⟩
  · rw [← String.toList_inj, String.toList_intercalate]
    simpa [Function.comp_def] using hjoined
  · intro front hmem
    obtain ⟨chars, hchars, rfl⟩ := List.mem_map.1 hmem
    simpa using hfronts chars hchars
  · rw [hdivided, List.length_append, List.length_singleton, ne_eq, List.map_eq_nil_iff,
      ← List.length_eq_zero_iff]
    omega

end FilterQuery.Text
