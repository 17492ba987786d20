import FilterQuery.Proofs.Lists
import FilterQuery.Proofs.Param.Ordering
import Mathlib.Data.List.Induction
/-!
# Fields that are used more than once

A field is reported as ambiguous at its second use and not again, so the report lists the fields
that are used at least twice, in the order of their second uses.

The check can be made in one pass, which keeps the entries under the fields that they sort by and
notes a field when it gets its second entry.  The notes and the table stay in step, so every field
that was noted is found in the table when the report is made.
-/

namespace FilterQuery

/-! ## Second uses -/

/-- The field is used at the place, and once before. -/
def SecondUse (fields : List String) (place : Nat) (field : String) : Prop :=
  fields[place]? = some field ∧ (fields.take place).count field = 1

theorem SecondUse.lt_length {fields : List String} {place : Nat} {field : String}
    (huse : SecondUse fields place field) : place < fields.length :=
  (List.getElem?_eq_some_iff.1 huse.1).1

theorem SecondUse.append {fields : List String} {place : Nat} {field : String}
    (huse : SecondUse fields place field) (more : List String) :
    SecondUse (fields ++ more) place field := by
  have hlt := huse.lt_length
  refine ⟨?_, ?_⟩
  · rw [List.getElem?_append_left hlt]
    exact huse.1
  · rw [List.take_append_of_le_length (Nat.le_of_lt hlt)]
    exact huse.2

theorem secondUse_length {fields : List String} {field : String} (hcount : fields.count field = 1) :
    SecondUse (fields ++ [field]) fields.length field := by
  refine ⟨?_, ?_⟩
  · rw [List.getElem?_append_right (Nat.le_refl _), Nat.sub_self]
    rfl
  · rw [List.take_append_of_le_length (Nat.le_refl _), List.take_length]
    exact hcount

theorem repeatedFields_append_singleton (seen fields : List String) (field : String) :
    repeatedFields seen (fields ++ [field]) =
      if seen.count field + fields.count field = 1 then repeatedFields seen fields ++ [field]
      else repeatedFields seen fields := by
  induction fields generalizing seen with
  | nil => rfl
  | cons first rest ih =>
      have hcount : (first :: seen).count field + rest.count field =
          seen.count field + (first :: rest).count field := by
        simp only [List.count_cons]
        omega
      rw [List.cons_append, repeatedFields, repeatedFields, ih, hcount]
      split <;> split <;> rfl

section Repeated

variable (fields : List String)

theorem mem_repeatedFields_iff (field : String) :
    field ∈ repeatedFields [] fields ↔ 2 ≤ fields.count field := by
  induction fields using List.reverseRecOn with
  | nil => simp [repeatedFields]
  | append_singleton fields last ih =>
      rw [repeatedFields_append_singleton, List.count_append, List.count_nil, Nat.zero_add]
      by_cases heq : field = last
      · subst heq
        rw [List.count_singleton_self]
        split
        · simp_all
        · rw [ih]
          omega
      · have hsingle : [last].count field = 0 := List.count_eq_zero.2 (by simpa using heq)
        rw [hsingle, Nat.add_zero, ← ih]
        split
        · simp [heq]
        · rfl

theorem nodup_repeatedFields : (repeatedFields [] fields).Nodup := by
  induction fields using List.reverseRecOn with
  | nil => exact .nil
  | append_singleton fields last ih =>
      rw [repeatedFields_append_singleton, List.count_nil, Nat.zero_add]
      split
      · rename_i hcount
        have hnew : last ∉ repeatedFields [] fields := by
          rw [mem_repeatedFields_iff]
          omega
        refine List.nodup_append.2 ⟨ih, List.nodup_singleton last, ?_⟩
        intro field hmem _ hlast heq
        rw [List.mem_singleton.1 hlast] at heq
        exact hnew (heq ▸ hmem)
      · exact ih

theorem secondUses_repeatedFields :
    ∃ places, places.Pairwise (· < ·) ∧
      List.Forall₂ (SecondUse fields) places (repeatedFields [] fields) := by
  induction fields using List.reverseRecOn with
  | nil => exact ⟨[], .nil, .nil⟩
  | append_singleton fields last ih =>
      obtain ⟨places, horder, huses⟩ := ih
      have hkept := huses.imp fun _ _ huse => SecondUse.append huse [last]
      rw [repeatedFields_append_singleton, List.count_nil, Nat.zero_add]
      split
      · rename_i hcount
        refine ⟨places ++ [fields.length], ?_, ?_⟩
        · rw [List.pairwise_append]
          refine ⟨horder, List.pairwise_singleton _ _, ?_⟩
          intro place hmem _ hlast
          obtain ⟨field, _, huse⟩ := Lists.exists_of_forall₂ huses.flip hmem
          rw [List.mem_singleton.1 hlast]
          exact SecondUse.lt_length huse
        · exact List.rel_append hkept (.cons (secondUse_length hcount) .nil)
      · exact ⟨places, horder, hkept⟩

end Repeated

/-! ## One pass over the entries -/

/-- The entries of each field that is used, and the fields noted at their second use. -/
structure Usage where
  table : String → Option (List String) := fun _ => none
  noted : List String := []

namespace Usage

def add (usage : Usage) (entry : String) : Usage :=
  let field := sortedField entry
  let entries := (usage.table field).getD [] ++ [entry]
  { table := fun other => if other = field then some entries else usage.table other
    noted := if entries.length = 2 then usage.noted ++ [field] else usage.noted }

def accept (sortable : List String) (usage : Usage) (entry : String) :
    Except OrderingFault Usage :=
  if sortedField entry ∈ sortable then .ok (usage.add entry)
  else .error (.unsortable (sortedField entry))

def report? (usage : Usage) : Option (List (String × List String)) :=
  usage.noted.mapM fun field => (usage.table field).map (field, ·)

/-- What is wrong with the entries of an ordering, found in one pass.  There is no answer where a
noted field is looked up in vain. -/
def fault? (sortable entries : List String) : Option (Option OrderingFault) :=
  match entries.foldlM (accept sortable) {} with
  | .error fault => some (some fault)
  | .ok usage =>
      if usage.noted.isEmpty then some none
      else usage.report?.map fun uses => some (.ambiguous uses)

/-- The table and the notes as the entries of an ordering leave them. -/
structure Records (usage : Usage) (entries : List String) : Prop where
  table_eq : ∀ field, usage.table field =
    if field ∈ entries.map sortedField then some (entries.filter (sortedField · == field))
    else none
  noted_eq : usage.noted = repeatedFields [] (entries.map sortedField)

variable {sortable entries : List String} {usage : Usage}

theorem records_empty : Records {} [] where
  table_eq _ := rfl
  noted_eq := rfl

theorem Records.getD_table (hrecords : usage.Records entries) (field : String) :
    (usage.table field).getD [] = entries.filter (sortedField · == field) := by
  rw [hrecords.table_eq]
  split
  · rfl
  · rename_i hnew
    symm
    rw [Option.getD_none, List.filter_eq_nil_iff]
    intro entry hmem heq
    exact hnew (List.mem_map.2 ⟨entry, hmem, by simpa using heq⟩)

theorem length_filter_sortedField (entries : List String) (field : String) :
    (entries.filter (sortedField · == field)).length = (entries.map sortedField).count field := by
  rw [← List.countP_eq_length_filter, List.count, List.countP_map]
  rfl

theorem Records.add (hrecords : usage.Records entries) (entry : String) :
    (usage.add entry).Records (entries ++ [entry]) where
  table_eq := by
    intro field
    rw [Usage.add]
    dsimp only
    rw [hrecords.getD_table, hrecords.table_eq, List.filter_append, List.map_append]
    by_cases heq : field = sortedField entry
    · subst heq
      simp
    · have hne : ¬ sortedField entry = field := fun h => heq h.symm
      simp [heq, hne]
  noted_eq := by
    rw [Usage.add]
    dsimp only
    rw [hrecords.getD_table, hrecords.noted_eq, List.map_append, List.map_singleton,
      repeatedFields_append_singleton, List.length_append, length_filter_sortedField,
      List.count_nil, Nat.zero_add]
    simp only [List.length_singleton, Nat.reduceEqDiff]

theorem Records.foldlM_accept {earlier : List String} (hrecords : usage.Records earlier) :
    match entries.find? (sortedField · ∉ sortable) with
    | some entry =>
        entries.foldlM (accept sortable) usage = .error (.unsortable (sortedField entry))
    | none => ∃ last, entries.foldlM (accept sortable) usage = .ok last ∧
        last.Records (earlier ++ entries) := by
  induction entries generalizing usage earlier with
  | nil => exact ⟨usage, rfl, by rwa [List.append_nil]⟩
  | cons entry rest ih =>
      rw [List.foldlM_cons]
      by_cases hsortable : sortedField entry ∈ sortable
      · have haccept : accept sortable usage entry = .ok (usage.add entry) := if_pos hsortable
        have hrest := ih (hrecords.add entry)
        rw [List.append_assoc] at hrest
        rw [List.find?_cons_of_neg (by simpa using hsortable), haccept]
        exact hrest
      · have haccept : accept sortable usage entry = .error (.unsortable (sortedField entry)) :=
          if_neg hsortable
        rw [List.find?_cons_of_pos (by simpa using hsortable), haccept]
        rfl

/-- Every noted field is in the table, under which all its entries stand in their order. -/
theorem Records.report?_eq (hrecords : usage.Records entries) :
    usage.report? = some ((repeatedFields [] (entries.map sortedField)).map fun field =>
      (field, entries.filter (sortedField · == field))) := by
  rw [report?, hrecords.noted_eq]
  apply Lists.mapM_eq_some
  intro field hmem
  have htwice := (mem_repeatedFields_iff _ field).1 hmem
  have hused : field ∈ entries.map sortedField := List.count_pos_iff.1 (by omega)
  rw [hrecords.table_eq, if_pos hused]
  rfl

/-- The pass always has an answer, and finds what is wrong. -/
theorem fault?_eq (sortable entries : List String) :
    fault? sortable entries = some (orderingFault? sortable entries) := by
  have hpass : match entries.find? (sortedField · ∉ sortable) with
      | some entry => entries.foldlM (accept sortable) {} = .error (.unsortable (sortedField entry))
      | none => ∃ last, entries.foldlM (accept sortable) {} = .ok last ∧ last.Records entries :=
    records_empty.foldlM_accept
  have hfind : (entries.map sortedField).find? (· ∉ sortable) =
      (entries.find? (sortedField · ∉ sortable)).map sortedField := by
    rw [List.find?_map]
    rfl
  unfold fault? orderingFault?
  dsimp only
  rw [hfind]
  cases hfirst : entries.find? (sortedField · ∉ sortable) with
  | some entry =>
      rw [hfirst] at hpass
      rw [hpass]
      rfl
  | none =>
      rw [hfirst] at hpass
      obtain ⟨last, hlast, hrecords⟩ := hpass
      rw [hlast]
      dsimp only [Option.map_none]
      rw [hrecords.report?_eq, hrecords.noted_eq]
      split <;> rfl

def check? (constants : Constants) (entries : List String) : Option (Except BindError Unit) :=
  match constants.sortable with
  | none => some (.ok ())
  | some sortable =>
      (fault? sortable entries).map fun
        | some fault => .error (.ordering constants.orderingField fault)
        | none => .ok ()

theorem check?_eq (constants : Constants) (entries : List String) :
    check? constants entries = some (checkOrdering constants entries) := by
  unfold check? checkOrdering
  cases constants.sortable with
  | none => rfl
  | some sortable =>
      dsimp only [Option.bind_some]
      rw [fault?_eq]
      cases orderingFault? sortable entries <;> rfl

end Usage

/-! ## What is reported -/

/-- The fields that are used at least twice, once each and in the order of their second uses, and
with each of them all of its entries in their order. -/
structure Repetitions (entries : List String) (uses : List (String × List String)) : Prop where
  mem_iff : ∀ field, field ∈ uses.map Prod.fst ↔ 2 ≤ (entries.map sortedField).count field
  nodup : (uses.map Prod.fst).Nodup
  second : ∃ places, places.Pairwise (· < ·) ∧
    List.Forall₂ (SecondUse (entries.map sortedField)) places (uses.map Prod.fst)
  entries_eq : ∀ use ∈ uses, use.2 = entries.filter (sortedField · == use.1)

theorem repetitions_repeatedFields (entries : List String) :
    Repetitions entries ((repeatedFields [] (entries.map sortedField)).map fun field =>
      (field, entries.filter (sortedField · == field))) := by
  have hfields : ((repeatedFields [] (entries.map sortedField)).map fun field =>
      (field, entries.filter (sortedField · == field))).map Prod.fst =
        repeatedFields [] (entries.map sortedField) := by
    rw [List.map_map]
    exact List.map_id _
  constructor
  · intro field
    rw [hfields]
    exact mem_repeatedFields_iff _ field
  · rw [hfields]
    exact nodup_repeatedFields _
  · rw [hfields]
    exact secondUses_repeatedFields _
  · intro use hmem
    obtain ⟨field, _, rfl⟩ := List.mem_map.1 hmem
    rfl

variable {sortable entries : List String}

theorem orderingFault?_of_unsortable {before after : List String} {entry : String}
    (hbefore : ∀ earlier ∈ before, sortedField earlier ∈ sortable)
    (hentry : sortedField entry ∉ sortable) :
    orderingFault? sortable (before ++ entry :: after) =
      some (.unsortable (sortedField entry)) := by
  have hnone : (before.map sortedField).find? (· ∉ sortable) = none := by
    simpa [List.find?_eq_none] using hbefore
  have hfind : ((before ++ entry :: after).map sortedField).find? (· ∉ sortable) =
      some (sortedField entry) := by
    rw [List.map_append, List.find?_append, hnone, Option.none_or, List.map_cons,
      List.find?_cons_of_pos (by simpa using hentry)]
  unfold orderingFault?
  dsimp only
  rw [hfind]

theorem orderingFault?_of_repeated (hall : ∀ entry ∈ entries, sortedField entry ∈ sortable)
    (hrepeated : ¬ (entries.map sortedField).Nodup) :
    ∃ uses, orderingFault? sortable entries = some (.ambiguous uses) ∧
      Repetitions entries uses := by
  have hnone : (entries.map sortedField).find? (· ∉ sortable) = none := by
    simpa [List.find?_eq_none] using hall
  have hsome : repeatedFields [] (entries.map sortedField) ≠ [] := by
    intro hnil
    exact hrepeated ((repeatedFields_eq_nil_iff List.nodup_nil).1 hnil).1
  refine ⟨_, ?_, repetitions_repeatedFields entries⟩
  unfold orderingFault?
  dsimp only
  rw [hnone]
  exact if_neg (by simpa using hsome)

variable {constants : Constants}

theorem checkOrdering_of_fault (hsortable : constants.sortable = some sortable)
    {fault : OrderingFault} (hfault : orderingFault? sortable entries = some fault) :
    checkOrdering constants entries = .error (.ordering constants.orderingField fault) := by
  unfold checkOrdering
  rw [hsortable, Option.bind_some, hfault]

/-- Where a definition says what may be sorted by, its check lets through the orderings by
distinct fields of it.  Otherwise the fault is the first field that may not be sorted by, or else
the repetitions.  The check can be made in one pass, which never misses a lookup. -/
theorem checkOrdering_exact (hsortable : constants.sortable = some sortable)
    (entries : List String) :
    (checkOrdering constants entries = .ok () ↔
      (∀ entry ∈ entries, sortedField entry ∈ sortable) ∧ (entries.map sortedField).Nodup) ∧
    (∀ before entry after, entries = before ++ entry :: after →
      (∀ earlier ∈ before, sortedField earlier ∈ sortable) → sortedField entry ∉ sortable →
      checkOrdering constants entries =
        .error (.ordering constants.orderingField (.unsortable (sortedField entry)))) ∧
    ((∀ entry ∈ entries, sortedField entry ∈ sortable) → ¬ (entries.map sortedField).Nodup →
      ∃ uses, Repetitions entries uses ∧
        checkOrdering constants entries =
          .error (.ordering constants.orderingField (.ambiguous uses)) ∧
        (BindError.ordering constants.orderingField (.ambiguous uses)).message =
          "Invalid ordering for '" ++ constants.orderingField ++ "': " ++
            ("field names can appear at most once, the following was ambiguous: " ++
              "; ".intercalate (uses.map fun use =>
                use.1 ++ ": " ++ ", ".intercalate use.2))) ∧
    Usage.check? constants entries = some (checkOrdering constants entries) := by
  refine ⟨?_, ?_, ?_, Usage.check?_eq constants entries⟩
  · rw [checkOrdering_eq_ok_iff, and_comm, hsortable]
    simp only [Option.some.injEq, forall_eq', List.forall_mem_map]
  · rintro before entry after rfl hbefore hentry
    exact checkOrdering_of_fault hsortable (orderingFault?_of_unsortable hbefore hentry)
  · intro hall hrepeated
    obtain ⟨uses, hfault, huses⟩ := orderingFault?_of_repeated hall hrepeated
    exact ⟨uses, huses, checkOrdering_of_fault hsortable hfault, rfl⟩

/-! ## An ordering with three uses of a field -/

namespace Sample

def sortedConstants : Constants := { sortable := some ["age", "name"] }

def twiceOrdered : List String := ["name", "-age", "+age", "-name", "age"]

example : checkOrdering sortedConstants twiceOrdered = .error (.ordering "order_by"
    (.ambiguous [("age", ["-age", "+age", "age"]), ("name", ["name", "-name"])])) := by
  decide

/-- The repetitions are reported, and nothing but the email if it is sorted by in the end. -/
theorem twiceOrdered_reported :
    (∃ uses, Repetitions twiceOrdered uses ∧
      checkOrdering sortedConstants twiceOrdered =
        .error (.ordering "order_by" (.ambiguous uses))) ∧
    checkOrdering sortedConstants (twiceOrdered ++ ["+email", "phone"]) =
      .error (.ordering "order_by" (.unsortable "email")) ∧
    Usage.check? sortedConstants twiceOrdered =
      some (checkOrdering sortedConstants twiceOrdered) := by
  have hall : ∀ entry ∈ twiceOrdered, sortedField entry ∈ ["age", "name"] := by decide
  have hrepeated : ¬ (twiceOrdered.map sortedField).Nodup := by decide
  have hemail : sortedField "+email" = "email" := by decide
  obtain ⟨_, _, hrepetitions, hpass⟩ :=
    @checkOrdering_exact _ sortedConstants rfl twiceOrdered
  obtain ⟨_, hunsortable, _⟩ :=
    @checkOrdering_exact _ sortedConstants rfl (twiceOrdered ++ ["+email", "phone"])
  refine ⟨?_, ?_, hpass⟩
  · obtain ⟨uses, huses, hcheck, _⟩ := hrepetitions hall hrepeated
    exact ⟨uses, huses, hcheck⟩
  · rw [hunsortable twiceOrdered "+email" ["phone"] rfl hall (by decide), hemail]
    rfl

end Sample

end FilterQuery
