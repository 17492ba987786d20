import FilterQuery.Text.Distance
import FilterQuery.Proofs.Text.Edits
/-!
# Rows of distances

The row of a text lists its Levenshtein distances to every beginning of the other text.  A
character more leads from the row of a text to the row of the longer text, so the last entry of
the last row is the distance of the two.

The rows can be kept in two buffers that change places after each character.  The buffer that is
written next still holds the row before the last, but each of its cells is written before it is
read, so what it holds does not matter.
-/

namespace FilterQuery.Text

/-! ## What a row holds -/

/-- The distances of a text to the beginnings of another.  Both are read backwards: `a` from its
end, and `seen` is what has been passed of the other text. -/
def levenshteinRow (a seen : List Char) : List Char → List Nat
  | [] => [levenshtein a seen]
  | d :: rest => levenshtein a seen :: levenshteinRow a (d :: seen) rest

theorem levenshteinRow_nil (seen b : List Char) :
    levenshteinRow [] seen b = List.range' seen.length (b.length + 1) := by
  induction b generalizing seen with
  | nil => simp [levenshteinRow]
  | cons d b ih =>
      rw [levenshteinRow, ih, levenshtein_nil_left]
      rfl

theorem levenshteinRow_eq_cons (a seen b : List Char) :
    ∃ above, levenshteinRow a seen b = levenshtein a seen :: above := by
  cases b with
  | nil => exact ⟨[], rfl⟩
  | cons d b => exact ⟨_, rfl⟩

theorem getLastD_levenshteinRow (a seen b : List Char) :
    (levenshteinRow a seen b).getLastD 0 = levenshtein a (b.reverse ++ seen) := by
  induction b generalizing seen with
  | nil => rfl
  | cons d b ih =>
      obtain ⟨above, hrow⟩ := levenshteinRow_eq_cons a (d :: seen) b
      have hlast := ih (d :: seen)
      rw [hrow] at hlast
      rw [levenshteinRow, hrow, List.reverse_cons, List.append_assoc, List.singleton_append,
        ← hlast]
      rfl

theorem rowFrom_levenshteinRow (c : Char) (a seen b : List Char) :
    levenshtein (c :: a) seen :: rowFrom c (levenshtein (c :: a) seen) (levenshteinRow a seen b) b =
      levenshteinRow (c :: a) seen b := by
  induction b generalizing seen with
  | nil => rfl
  | cons d b ih =>
      obtain ⟨above, hrow⟩ := levenshteinRow_eq_cons a (d :: seen) b
      have hrest := ih (d :: seen)
      rw [levenshtein_cons_cons, hrow] at hrest
      rw [levenshteinRow, levenshteinRow, hrow, rowFrom, hrest]

theorem nextRow_levenshteinRow (c : Char) (a b : List Char) :
    nextRow c (levenshteinRow a [] b) b = levenshteinRow (c :: a) [] b := by
  obtain ⟨above, hrow⟩ := levenshteinRow_eq_cons a [] b
  have hfirst : (levenshteinRow a [] b).headD 0 + 1 = levenshtein (c :: a) [] := by
    rw [hrow, levenshtein_nil_right, levenshtein_nil_right]
    rfl
  unfold nextRow
  dsimp only
  rw [hfirst]
  exact rowFrom_levenshteinRow c a [] b

theorem foldl_nextRow_levenshteinRow (a seen b : List Char) :
    a.foldl (fun row c => nextRow c row b) (levenshteinRow seen [] b) =
      levenshteinRow (a.reverse ++ seen) [] b := by
  induction a generalizing seen with
  | nil => rfl
  | cons c a ih =>
      rw [List.foldl_cons, nextRow_levenshteinRow, ih, List.reverse_cons, List.append_assoc]
      rfl

/-- The rows compute the Levenshtein distance. -/
theorem charDistance_eq (a b : List Char) : charDistance a b = levenshtein a b := by
  have hfirst : List.range (b.length + 1) = levenshteinRow [] [] b := by
    rw [levenshteinRow_nil, List.range_eq_range']
    rfl
  calc
    charDistance a b = (levenshteinRow (a.reverse ++ []) [] b).getLastD 0 := by
      rw [charDistance, hfirst, foldl_nextRow_levenshteinRow]
    _ = levenshtein a.reverse b.reverse := by
      rw [getLastD_levenshteinRow, List.append_nil, List.append_nil]
    _ = levenshtein a b := levenshtein_reverse a b

/-! ## Two buffers -/

def write? (buffer : List Nat) (place value : Nat) : Option (List Nat) :=
  if place < buffer.length then some (buffer.set place value) else none

/-- Overwrites the cells behind a place, from the row above and the characters not yet compared. -/
def fill? (c : Char) (previous : List Nat) (place : Nat) (current : List Nat) :
    List Char → Option (List Nat)
  | [] => some current
  | d :: rest => do
      let diagonal ← previous[place]?
      let up ← previous[place + 1]?
      let left ← current[place]?
      let substitution := diagonal + if c = d then 0 else 1
      let current ← write? current (place + 1) (min (min substitution (up + 1)) (left + 1))
      fill? c previous (place + 1) current rest

/-- The last cell that is reached with two buffers, which change places after each character. -/
def lastCell? (b : List Char) (place : Nat) (previous current : List Nat) :
    List Char → Option Nat
  | [] => previous[b.length]?
  | c :: rest => do
      let current ← write? current 0 (place + 1)
      let current ← fill? c previous 0 current b
      lastCell? b (place + 1) current previous rest

/-- The distance by two buffers, the second of which holds anything.  There is none where a cell
is missed. -/
def bufferDistance? (buffer : List Nat) (a b : List Char) : Option Nat :=
  lastCell? b 0 (List.range (b.length + 1)) buffer a

theorem length_rowFrom (c : Char) (left diagonal : Nat) {above : List Nat} {b : List Char}
    (hlength : above.length = b.length) :
    (rowFrom c left (diagonal :: above) b).length = b.length := by
  induction b generalizing left diagonal above with
  | nil =>
      cases above with
      | nil => rfl
      | cons up above => cases hlength
  | cons d b ih =>
      cases above with
      | nil => cases hlength
      | cons up above => simpa [rowFrom] using ih _ up (Nat.succ.inj hlength)

theorem getElem?_behind (done rest : List Nat) (place : Nat) :
    (done ++ rest)[done.length + place]? = rest[place]? := by
  rw [List.getElem?_append_right (Nat.le_add_right _ _), Nat.add_sub_cancel_left]

theorem fill?_eq (c : Char) (passed : List Nat) (diagonal : Nat) (above : List Nat)
    (done : List Nat) (left : Nat) (stale : List Nat) (b : List Char)
    (hplace : passed.length = done.length) (habove : above.length = b.length)
    (hstale : stale.length = b.length) :
    fill? c (passed ++ diagonal :: above) done.length (done ++ left :: stale) b =
      some (done ++ left :: rowFrom c left (diagonal :: above) b) := by
  -- What is passed of the row above and what is done of the buffer stay of one length.
  induction b generalizing passed diagonal above done left stale with
  | nil =>
      rw [List.length_eq_zero_iff.1 habove, List.length_eq_zero_iff.1 hstale]
      rfl
  | cons d b ih =>
      obtain ⟨up, above, rfl⟩ := List.exists_cons_of_length_eq_add_one habove
      obtain ⟨old, stale, rfl⟩ := List.exists_cons_of_length_eq_add_one hstale
      have hdiagonal : (passed ++ diagonal :: up :: above)[done.length]? = some diagonal :=
        hplace ▸ getElem?_behind passed (diagonal :: up :: above) 0
      have hup : (passed ++ diagonal :: up :: above)[done.length + 1]? = some up :=
        hplace ▸ getElem?_behind passed (diagonal :: up :: above) 1
      have hleft : (done ++ left :: old :: stale)[done.length]? = some left :=
        getElem?_behind done (left :: old :: stale) 0
      have hwrite (here : Nat) : write? (done ++ left :: old :: stale) (done.length + 1) here =
          some ((done ++ [left]) ++ here :: stale) := by
        have hlt : done.length + 1 < (done ++ left :: old :: stale).length := by simp
        rw [write?, if_pos hlt, List.set_append_right _ _ (Nat.le_add_right _ _),
          Nat.add_sub_cancel_left, List.append_assoc]
        rfl
      have hrest := ih (passed ++ [diagonal]) up above (done ++ [left])
        (min (diagonal + if c = d then 0 else 1) (min (up + 1) (left + 1))) stale
        (by simp [hplace]) (Nat.succ.inj habove) (Nat.succ.inj hstale)
      rw [fill?, hdiagonal, hup, hleft]
      simp only [Option.bind_eq_bind, Option.bind_some]
      rw [hwrite, Option.bind_some, min_assoc]
      simpa [rowFrom] using hrest

theorem lastCell?_eq (b : List Char) (place : Nat) (above buffer : List Nat) (a : List Char)
    (habove : above.length = b.length) (hbuffer : buffer.length = b.length + 1) :
    lastCell? b place (place :: above) buffer a =
      some ((a.foldl (fun row c => nextRow c row b) (place :: above)).getLastD 0) := by
  induction a generalizing place above buffer with
  | nil =>
      rw [lastCell?, ← habove, List.foldl_nil, List.getLastD_eq_getLast?,
        List.getLast?_eq_getElem?]
      simp
  | cons c a ih =>
      obtain ⟨old, stale, rfl⟩ := List.exists_cons_of_length_eq_add_one hbuffer
      have hstale : stale.length = b.length := Nat.succ.inj hbuffer
      have hwrite : write? (old :: stale) 0 (place + 1) = some ((place + 1) :: stale) := rfl
      have hfill : fill? c (place :: above) 0 ((place + 1) :: stale) b =
          some ((place + 1) :: rowFrom c (place + 1) (place :: above) b) :=
        fill?_eq c [] place above [] (place + 1) stale b rfl habove hstale
      have hrest := ih (place + 1) (rowFrom c (place + 1) (place :: above) b) (place :: above)
        (length_rowFrom c (place + 1) place habove) (congrArg Nat.succ habove)
      rw [lastCell?, hwrite]
      simp only [Option.bind_eq_bind, Option.bind_some]
      rw [hfill, Option.bind_some, hrest]
      rfl

/-- Whatever the second buffer holds, the two buffers compute the distance and no cell of them is
missed. -/
theorem bufferDistance?_eq {buffer : List Nat} (a : List Char) {b : List Char}
    (hbuffer : buffer.length = b.length + 1) :
    bufferDistance? buffer a b = some (charDistance a b) := by
  rw [bufferDistance?, charDistance, List.range_succ_eq_map]
  exact lastCell?_eq b 0 _ buffer a (by simp) hbuffer

end FilterQuery.Text
