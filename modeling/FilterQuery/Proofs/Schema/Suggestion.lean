import FilterQuery.Proofs.Schema.Keys
import FilterQuery.Proofs.Text.Rows
/-!
# Suggested keys

A key that is not accepted is reported with the accepted key that was probably meant.  An alias
decides, by the first of its targets that is accepted.  Where none is, the nearest accepted key is
suggested, the earliest of them if several are equally near, unless they are all out of reach.
-/

namespace FilterQuery

/-! ## The first of the least -/

namespace Lists

variable {α : Type} {score : α → Nat} {elements : List α} {a b : α}

/-- The first of the elements with the least score. -/
def FirstLeast (score : α → Nat) (elements : List α) (a : α) : Prop :=
  ∃ before after, elements = before ++ a :: after ∧
    (∀ earlier ∈ before, score a < score earlier) ∧ ∀ later ∈ after, score a ≤ score later

theorem FirstLeast.le_of_mem (hleast : FirstLeast score elements a) (hmem : b ∈ elements) :
    score a ≤ score b := by
  obtain ⟨before, after, rfl, hbefore, hafter⟩ := hleast
  rcases List.mem_append.1 hmem with hmem | hmem
  · exact Nat.le_of_lt (hbefore b hmem)
  · rcases List.mem_cons.1 hmem with rfl | hmem
    · exact Nat.le_refl _
    · exact hafter b hmem

theorem FirstLeast.filter (hleast : FirstLeast score elements a) {keep : α → Bool}
    (hkeep : keep a) : FirstLeast score (elements.filter keep) a := by
  obtain ⟨before, after, rfl, hbefore, hafter⟩ := hleast
  refine ⟨before.filter keep, after.filter keep, ?_, ?_, ?_⟩
  · rw [List.filter_append, List.filter_cons_of_pos hkeep]
  · exact fun earlier hmem => hbefore earlier (List.mem_filter.1 hmem).1
  · exact fun later hmem => hafter later (List.mem_filter.1 hmem).1

theorem exists_firstLeast (score : α → Nat) (hne : elements ≠ []) :
    ∃ a, FirstLeast score elements a := by
  induction elements with
  | nil => exact absurd rfl hne
  | cons head rest ih =>
      by_cases hrest : rest = []
      · subst hrest
        exact ⟨head, [], [], rfl, nofun, nofun⟩
      · obtain ⟨a, hleast⟩ := ih hrest
        by_cases hhead : score head ≤ score a
        · exact ⟨head, [], rest, rfl, nofun,
            fun later hmem => Nat.le_trans hhead (hleast.le_of_mem hmem)⟩
        · obtain ⟨before, after, rfl, hbefore, hafter⟩ := hleast
          refine ⟨a, head :: before, after, rfl, ?_, hafter⟩
          exact List.forall_mem_cons.2 ⟨Nat.lt_of_not_le hhead, hbefore⟩

theorem FirstLeast.minOn?_eq (hleast : FirstLeast score elements a) :
    elements.minOn? score = some a := by
  obtain ⟨before, after, rfl, hbefore, hafter⟩ := hleast
  induction before with
  | nil =>
      rw [List.nil_append, List.minOn?_cons]
      cases hrest : after.minOn? score with
      | none => rfl
      | some b =>
          have hle : score a ≤ score b := hafter b (List.minOn?_mem hrest)
          exact congrArg some (minOn_eq_left hle)
  | cons head before ih =>
      obtain ⟨hhead, hbefore⟩ := List.forall_mem_cons.1 hbefore
      rw [List.cons_append, List.minOn?_cons, ih hbefore]
      exact congrArg some (minOn_eq_right_of_lt hhead)

theorem minOn?_filter_eq_some_iff {bound : Nat} :
    (elements.filter (score · ≤ bound)).minOn? score = some a ↔
      FirstLeast score elements a ∧ score a ≤ bound := by
  constructor
  · intro hmin
    obtain ⟨hmem, hwithin⟩ := List.mem_filter.1 (List.minOn?_mem hmin)
    have hbound : score a ≤ bound := by simpa using hwithin
    obtain ⟨b, hleast⟩ := exists_firstLeast score (List.ne_nil_of_mem hmem)
    have hreach : score b ≤ bound := Nat.le_trans (hleast.le_of_mem hmem) hbound
    have hfilter : FirstLeast score (elements.filter (score · ≤ bound)) b :=
      hleast.filter (by simpa using hreach)
    rw [hfilter.minOn?_eq] at hmin
    cases hmin
    exact ⟨hleast, hbound⟩
  · rintro ⟨hleast, hbound⟩
    exact (hleast.filter (by simpa using hbound)).minOn?_eq

end Lists

namespace Schema

variable {key meant found : String} {accepted : List String}

/-! ## Aliases -/

/-- The target of the first alias of a key whose target is accepted. -/
def FirstAlias (key : String) (accepted : List String) (meant : String) : Prop :=
  meant ∈ accepted ∧ ∃ before after, aliases = before ++ (key, meant) :: after ∧
    ∀ other, (key, other) ∈ before → other ∉ accepted

theorem aliased?_eq_some_iff :
    aliased? key accepted = some meant ↔ FirstAlias key accepted meant := by
  unfold aliased? FirstAlias
  rw [Option.map_eq_some_iff]
  constructor
  · rintro ⟨⟨usual, target⟩, hfind, rfl⟩
    obtain ⟨hboth, before, after, hsplit, hbefore⟩ := List.find?_eq_some_iff_append.1 hfind
    obtain ⟨rfl, htarget⟩ : usual = key ∧ target ∈ accepted := by simpa using hboth
    refine ⟨htarget, before, after, hsplit, ?_⟩
    intro other hmem
    simpa using hbefore (usual, other) hmem
  · rintro ⟨hmeant, before, after, hsplit, hbefore⟩
    refine ⟨(key, meant), List.find?_eq_some_iff_append.2 ⟨by simpa using hmeant, before, after,
      hsplit, ?_⟩, rfl⟩
    rintro ⟨usual, target⟩ hmem
    by_cases husual : usual = key
    · subst husual
      simpa using hbefore target hmem
    · simp [husual]

theorem aliased?_eq_none_iff :
    aliased? key accepted = none ↔ ∀ meant ∈ accepted, (key, meant) ∉ aliases := by
  unfold aliased?
  rw [Option.map_eq_none_iff, List.find?_eq_none]
  constructor
  · intro hnone meant hmeant halias
    exact hnone (key, meant) halias (by simpa using hmeant)
  · rintro hnone ⟨usual, target⟩ halias hboth
    obtain ⟨rfl, htarget⟩ : usual = key ∧ target ∈ accepted := by simpa using hboth
    exact hnone target htarget halias

/-! ## The nearest key -/

theorem nearest?_eq_some_iff :
    nearest? key accepted = some found ↔
      Lists.FirstLeast (Text.distance key) accepted found ∧ Text.distance key found ≤ 2 :=
  Lists.minOn?_filter_eq_some_iff

theorem nearest?_eq_none_iff :
    nearest? key accepted = none ↔ ∀ other ∈ accepted, 2 < Text.distance key other := by
  unfold nearest? suggestionReach
  rw [← Option.not_isSome_iff_eq_none, List.isSome_minOn?_iff, not_not, List.filter_eq_nil_iff]
  simp

theorem suggestion?_of_aliased (halias : FirstAlias key accepted meant) :
    suggestion? key accepted = some meant := by
  rw [suggestion?, aliased?_eq_some_iff.2 halias]
  rfl

theorem suggestion?_of_not_aliased (hnone : ∀ meant ∈ accepted, (key, meant) ∉ aliases) :
    suggestion? key accepted = nearest? key accepted := by
  rw [suggestion?, aliased?_eq_none_iff.2 hnone]
  rfl

theorem mem_of_suggestion? (hsuggest : suggestion? key accepted = some found) :
    found ∈ accepted := by
  rcases Option.or_eq_some_iff.1 hsuggest with halias | ⟨_, hnearest⟩
  · exact (aliased?_eq_some_iff.1 halias).1
  · obtain ⟨⟨before, after, rfl, _⟩, _⟩ := nearest?_eq_some_iff.1 hnearest
    exact List.mem_append_right before (.head after)

/-! ## What is suggested -/

/-- The distance of two texts is the least number of single-character edits between them, and it
is computed in two buffers without missing a cell.  By it an unknown key gets the suggestion that
its first alias with an accepted target makes, or else the earliest of the nearest accepted keys,
and none where all of them are farther than two edits. -/
theorem suggestions_optimal :
    (∀ a b : String, IsLeast {n | Text.Edits n a.toList b.toList} (Text.distance a b) ∧
      ∀ buffer, buffer.length = b.toList.length + 1 →
        Text.bufferDistance? buffer a.toList b.toList = some (Text.distance a b)) ∧
    (∀ value accepted part, ∀ unknown ∈ unknownKeys value accepted part,
      unknown.key ∈ textKeys value ∧ unknown.key ∉ accepted ∧
        unknown.suggestion = suggestion? unknown.key accepted) ∧
    ∀ key accepted,
      (∀ found, suggestion? key accepted = some found → found ∈ accepted) ∧
      (∀ meant, FirstAlias key accepted meant → suggestion? key accepted = some meant) ∧
      ((∀ meant ∈ accepted, (key, meant) ∉ aliases) →
        (∀ found, suggestion? key accepted = some found ↔
          Lists.FirstLeast (Text.distance key) accepted found ∧ Text.distance key found ≤ 2) ∧
        (suggestion? key accepted = none ↔ ∀ other ∈ accepted, 2 < Text.distance key other)) := by
  refine ⟨?_, ?_, ?_⟩
  · intro a b
    have hdistance : Text.distance a b = Text.levenshtein a.toList b.toList :=
      Text.charDistance_eq a.toList b.toList
    refine ⟨?_, fun buffer hbuffer => Text.bufferDistance?_eq a.toList hbuffer⟩
    rw [hdistance]
    exact Text.levenshtein_isLeast a.toList b.toList
  · intro value accepted part unknown hmem
    rw [unknownKeys_eq] at hmem
    obtain ⟨key, hkey, rfl⟩ := List.mem_map.1 hmem
    obtain ⟨hkey, hunknown⟩ := List.mem_filter.1 hkey
    exact ⟨hkey, by simpa using hunknown, rfl⟩
  · intro key accepted
    refine ⟨fun found => mem_of_suggestion?, fun meant => suggestion?_of_aliased, ?_⟩
    intro hnone
    rw [suggestion?_of_not_aliased hnone]
    exact ⟨fun found => nearest?_eq_some_iff, nearest?_eq_none_iff⟩

namespace Sample

def acceptedKeys : List String := ["name", "title", "tile", "ordering_field"]

example : Text.bufferDistance? [7, 7, 7, 7, 7, 7] "titel".toList "title".toList = some 2 := by
  decide

/-- An alias decides for a key that nothing accepted is near to.  Of two keys that are equally
near the first is suggested, and none where all are too far. -/
theorem acceptedKeys_suggested :
    suggestion? "sort" acceptedKeys = some "ordering_field" ∧
      suggestion? "titel" acceptedKeys = some "title" ∧
      suggestion? "colour" acceptedKeys = none := by
  obtain ⟨_, _, hkeys⟩ := suggestions_optimal
  refine ⟨?_, ?_, ?_⟩
  · obtain ⟨_, halias, _⟩ := hkeys "sort" acceptedKeys
    refine halias "ordering_field" ⟨by decide, ?_⟩
    exact ⟨aliases.take 3, aliases.drop 4, by decide, by simp [aliases]⟩
  · obtain ⟨_, _, hnearest⟩ := hkeys "titel" acceptedKeys
    obtain ⟨hfound, _⟩ := hnearest (by decide)
    refine (hfound "title").2 ⟨⟨["name"], ["tile", "ordering_field"], rfl, ?_, ?_⟩, ?_⟩
    · decide
    · decide
    · decide
  · obtain ⟨_, _, hnearest⟩ := hkeys "colour" acceptedKeys
    exact (hnearest (by decide)).2.2 (by decide)

end Sample

end Schema

end FilterQuery
