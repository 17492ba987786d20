import FilterQuery.Proofs.Decimal.Integers
import FilterQuery.Proofs.Param.Leaves
import FilterQuery.Proofs.Text.Items
/-!
# Integers among parameters

An integer field is set to the number that its text denotes, and a list of integers to the numbers
that its items denote, one for one.  A number that does not fit a word is none that could be set: it
is refused, and with it everything that was to be bound, even if it is only one item of a list.
-/

namespace FilterQuery

open Decimal (Denotes IsWord)

variable {raw : String} {number : Int}

/-! ## Reading integers -/

theorem items_of_denotes {texts : List String} {numbers : List Int}
    (hdenotes : List.Forall₂ Denotes texts numbers) :
    Text.items (",".intercalate texts) = texts := by
  have heach : ∀ text ∈ texts, ∃ number, Denotes text number := by
    intro text hmem
    obtain ⟨number, _, hnumber⟩ := Lists.exists_of_forall₂ hdenotes.flip hmem
    exact ⟨number, hnumber⟩
  apply Text.items_intercalate
  · intro text hmem
    obtain ⟨number, hnumber⟩ := heach text hmem
    exact hnumber.comma_not_mem
  · rintro rfl
    obtain ⟨number, hnumber⟩ := heach "" (List.mem_singleton_self "")
    exact hnumber.ne_empty rfl

theorem readInteger?_eq_some_iff :
    readInteger? raw = some number ↔ Denotes raw number ∧ IsWord number := by
  rw [readInteger?, Option.filter_eq_some_iff, Decimal.denotes_iff, Decimal.isWord_iff]

theorem readInteger?_eq_none_iff :
    readInteger? raw = none ↔ ∀ number, Denotes raw number → ¬ IsWord number := by
  rw [Option.eq_none_iff_forall_ne_some]
  simp only [ne_eq, readInteger?_eq_some_iff, not_and]

namespace FieldKind

theorem readScalar_integer (field raw : String) :
    integer.readScalar field raw =
      match readInteger? raw with
      | some number => .ok (.int number)
      | none => .error (.unreadable field raw .integer) := by
  unfold readScalar
  cases readInteger? raw <;> rfl

theorem read_integer (field raw : String) :
    integer.read field raw =
      match readInteger? raw with
      | some number => .ok (.scalar (.int number))
      | none => .error (.unreadable field raw .integer) := by
  show Value.scalar <$> integer.readScalar field raw = _
  rw [readScalar_integer]
  cases readInteger? raw <;> rfl

theorem read_integers {numbers : List Int}
    (hitems : List.Forall₂ Denotes (Text.items raw) numbers)
    (hwords : ∀ number ∈ numbers, IsWord number) (field : String) :
    (list integer).read field raw = .ok (.list (numbers.map .int)) := by
  show Value.list <$> (Text.items raw).mapM (integer.readScalar field) = _
  have hread : List.Forall₂ (fun item json => integer.readScalar field item = .ok json)
      (Text.items raw) (numbers.map .int) := by
    rw [List.forall₂_map_right_iff]
    refine Lists.forall₂_imp_of_mem hitems ?_
    intro item _ number hmem hdenotes
    rw [readScalar_integer, readInteger?_eq_some_iff.2 ⟨hdenotes, hwords number hmem⟩]
  rw [Outcome.mapM_eq_ok.2 hread]
  rfl

theorem read_integers_error {item : String} (hmem : item ∈ Text.items raw)
    (hitem : ∀ number, Denotes item number → ¬ IsWord number) (field : String) :
    ∃ bad ∈ Text.items raw, (∀ number, Denotes bad number → ¬ IsWord number) ∧
      (list integer).read field raw = .error (.unreadable field bad .integer) := by
  have hfault : ∀ bad error, integer.readScalar field bad = .error error →
      readInteger? bad = none ∧ error = .unreadable field bad .integer := by
    intro bad error hbad
    rw [readScalar_integer] at hbad
    split at hbad
    · cases hbad
    · cases hbad
      exact ⟨‹_›, rfl⟩
  cases hread : (Text.items raw).mapM (integer.readScalar field) with
  | ok jsons =>
      obtain ⟨json, _, hjson⟩ := Lists.exists_of_forall₂ (Outcome.mapM_eq_ok.1 hread).flip hmem
      rw [readScalar_integer, readInteger?_eq_none_iff.2 hitem] at hjson
      cases hjson
  | error error =>
      obtain ⟨bad, hbad, herror⟩ := Outcome.mapM_eq_error hread
      obtain ⟨hnone, rfl⟩ := hfault bad error herror
      refine ⟨bad, hbad, readInteger?_eq_none_iff.1 hnone, ?_⟩
      show Value.list <$> (Text.items raw).mapM (integer.readScalar field) = _
      rw [hread]
      rfl

end FieldKind

/-! ## Binding integers -/

namespace Definition

variable {definition : Definition}

theorem Built.leaf?_name (hbuilt : definition.Built) {declared : DeclaredField}
    (hmem : declared ∈ definition.fields) (hkind : declared.kind.nested? = none) :
    definition.leaf? declared.name = some ⟨[], declared, definition.constants⟩ :=
  leaf?_eq_some_nil.2 ⟨(hbuilt.route_eq_leaf_iff hmem hkind).2 rfl, rfl⟩

/-- Every integer has a text that denotes it, and no text denotes two.  An integer field, at
whatever level it stands, takes the text of a number that is a word for this number, and a list of
integers takes the joined texts of words for these numbers in their order.  A text that denotes no
word is refused, by itself or as an item of a list. -/
theorem Built.bind_integers (hbuilt : definition.Built) (validate : Bool) :
    (∀ number, Denotes (toString number) number) ∧
    (∀ text number other, Denotes text number → Denotes text other → number = other) ∧
    (∀ declared ∈ definition.fields, declared.kind = .integer ∨ declared.kind = .list .integer →
      definition.leaf? declared.name = some ⟨[], declared, definition.constants⟩) ∧
    ∀ key leaf, definition.leaf? key = some leaf →
      (leaf.declared.kind = .integer →
        (∀ text number, Denotes text number → IsWord number →
          definition.Takes validate key leaf text (.scalar (.int number))) ∧
        ∀ text, (∀ number, Denotes text number → ¬ IsWord number) →
          definition.Refuses validate key text
            (.unreadable leaf.declared.name text .integer)) ∧
      (leaf.declared.kind = .list .integer →
        (∀ texts numbers, List.Forall₂ Denotes texts numbers → (∀ number ∈ numbers, IsWord number) →
          definition.Takes validate key leaf (",".intercalate texts)
            (.list (numbers.map .int))) ∧
        ∀ raw, ∀ item ∈ Text.items raw, (∀ number, Denotes item number → ¬ IsWord number) →
          ∃ bad ∈ Text.items raw, (∀ number, Denotes bad number → ¬ IsWord number) ∧
            definition.Refuses validate key raw
              (.unreadable leaf.declared.name bad .integer)) := by
  refine ⟨Decimal.denotes_toString, fun _ _ _ => Denotes.unique, ?_, ?_⟩
  · rintro declared hmem (hkind | hkind)
    · exact hbuilt.leaf?_name hmem (by rw [hkind]; rfl)
    · exact hbuilt.leaf?_name hmem (by rw [hkind]; rfl)
  intro key leaf hleaf
  refine ⟨fun hkind => ⟨?_, ?_⟩, fun hkind => ⟨?_, ?_⟩⟩
  · intro text number hdenotes hword
    apply hbuilt.takes_of_read hleaf
    rw [hkind, FieldKind.read_integer, readInteger?_eq_some_iff.2 ⟨hdenotes, hword⟩]
  · intro text hnone
    apply hbuilt.refuses_of_read hleaf
    rw [hkind, FieldKind.read_integer, readInteger?_eq_none_iff.2 hnone]
  · intro texts numbers hdenotes hwords
    apply hbuilt.takes_of_read hleaf
    have hitems : Text.items (",".intercalate texts) = texts := items_of_denotes hdenotes
    rw [hkind]
    exact FieldKind.read_integers (hitems.symm ▸ hdenotes) hwords _
  · intro raw item hmem hitem
    obtain ⟨bad, hbad, hnone, hread⟩ :=
      FieldKind.read_integers_error hmem hitem leaf.declared.name
    exact ⟨bad, hbad, hnone, hbuilt.refuses_of_read hleaf (by rw [hkind, hread])⟩

/-! ## A ticket for some seats -/

namespace Sample

def ticketDraft : Draft :=
  { name := "Ticket", fields := [⟨"seat__in", some .integer⟩, ⟨"price", some .integer⟩] }

def ticket : Definition :=
  ⟨"Ticket",
    [⟨⟨"seat__in", "seat", some .among⟩, .list .integer⟩, ⟨.plain "price", .integer⟩], {}⟩

theorem ticket_built : ticket.Built := by
  have hbuild : ticketDraft.build = .ok ticket := by rfl
  refine .of_draft hbuild ?_
  intro field hmem sub hkind
  rcases List.mem_pair.1 hmem with rfl | rfl <;> cases hkind

def seatTexts : List String := [" -9223372036854775808", "+007\t", "0"]

def seats : List Int := [-9223372036854775808, 7, 0]

/-- The least word is bound, and the successor of the greatest one is refused, alone and in a
list. -/
theorem ticket_bound :
    ticket.Built ∧ ",".intercalate seatTexts = " -9223372036854775808,+007\t,0" ∧
      List.Forall₂ Denotes seatTexts seats ∧ (∀ number ∈ seats, IsWord number) ∧
      (∃ filter,
        ticket.bind true [⟨"price", "12"⟩, ⟨"seat__in", ",".intercalate seatTexts⟩] = .ok filter ∧
        filter.get? "seat__in" = some (.list (seats.map .int))) ∧
      ticket.bind true [⟨"seat__in", "1,9223372036854775808"⟩, ⟨"price", "12"⟩] =
        .error (.unreadable "seat__in" "9223372036854775808" .integer) ∧
      ticket.bind true [⟨"price", "9223372036854775808"⟩] =
        .error (.unreadable "price" "9223372036854775808" .integer) := by
  have hdenotes : List.Forall₂ Denotes seatTexts seats :=
    .cons (Decimal.denotes_iff.2 (by decide)) <| .cons (Decimal.denotes_iff.2 (by decide)) <|
      .cons (Decimal.denotes_iff.2 (by decide)) .nil
  have hwords : ∀ number ∈ seats, IsWord number := by decide
  have hbeyond : ∀ number, Denotes "9223372036854775808" number → ¬ IsWord number := by
    intro number hnumber
    have hvalue : Denotes "9223372036854775808" 9223372036854775808 :=
      Decimal.denotes_iff.2 (by decide)
    rw [hnumber.unique hvalue]
    decide
  have hprice : ∃ filter, ticket.bind true [⟨"price", "12"⟩] = .ok filter :=
    ⟨_, bind_of_groups rfl rfl⟩
  obtain ⟨_, _, hleaf, hat⟩ := ticket_built.bind_integers true
  obtain ⟨_, hseats⟩ := hat "seat__in" _ (hleaf _ (.head _) (.inr rfl))
  have hpriceLeaf : ticket.leaf? "price" = some ⟨[], ⟨.plain "price", .integer⟩, {}⟩ :=
    hleaf _ (.tail _ (.head _)) (.inl rfl)
  obtain ⟨hcost, _⟩ := hat "price" _ hpriceLeaf
  obtain ⟨htakes, hrefuses⟩ := hseats rfl
  refine ⟨ticket_built, by decide, hdenotes, hwords, ?_, ?_, ?_⟩
  · refine htakes _ _ hdenotes hwords [⟨"price", "12"⟩] [] ?_
    intro other hother
    cases List.mem_singleton.1 hother
    refine ⟨fun hsame => ?_, hprice⟩
    exact absurd (hpriceLeaf.symm.trans hsame) (by decide)
  · have hitems : Text.items "1,9223372036854775808" = ["1", "9223372036854775808"] := by decide
    obtain ⟨bad, hmem, hbad, hrefused⟩ := hrefuses "1,9223372036854775808" "9223372036854775808"
      (by decide) hbeyond
    rw [hitems] at hmem
    rcases List.mem_pair.1 hmem with rfl | rfl
    · -- The first item is a word, so it is not what the list is refused for.
      exact absurd (by decide) (hbad 1 (Decimal.denotes_iff.2 (by decide)))
    · refine (hrefused [] [⟨"price", "12"⟩]).2 ?_
      intro other hother
      cases List.mem_singleton.1 hother
      exact hprice
  · exact ((hcost rfl).2 _ hbeyond [] []).2 nofun

end Sample

end Definition

end FilterQuery
