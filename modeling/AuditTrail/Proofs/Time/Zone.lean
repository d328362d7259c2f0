import AuditTrail.Proofs.Text.Trim
import AuditTrail.Proofs.Time.Offset

/-!
# What the id of a zone comes to

An id is read without the blanks around it, and its letters count as capitals except in the name of
a region.  `parse_eq_error_iff` says when there is no zone: an offset is cut inside a character,
which brings the host down, or the id is neither a keyword nor an offset nor a region
(`Resolves`).  Offsets are read as they are written (`offset_denotes`); their limit is one of hours,
so the longest exceeds it by fifty-nine minutes (`fixed_range`).
-/

namespace AuditTrail.Time.Zone

open Text

variable {id : String} {regions : List Region} {h m : Nat} {sign o : Int}

def trimmed (id : String) : String := String.ofList (trim id.toList)

def capitals (id : String) : List Char := (trim id.toList).map Char.toUpper

def keywords : List String := utcWords ++ systemWords

/-- The id is a keyword, an offset within the limit or a region. -/
def Resolves (id : String) (regions : List Region) : Prop :=
  (∃ word ∈ keywords, word.toList = capitals id) ∨
    (∃ sign h m, SpellsOffset (capitals id) sign h m ∧ h ≤ maxOffsetHours ∧ m < 60) ∨
    ∃ r ∈ regions, r.id = trimmed id

/-- What an id is that is no offset. -/
def named (id : String) (regions : List Region) : Build Zone :=
  if utcWords.any (·.toList == capitals id) then .ok utc
  else if systemWords.any (·.toList == capitals id) then .ok system
  else
    match Region.find? regions (trimmed id) with
    | some r => .ok (.region r)
    | none => .refuse (.invalidTimeZone (trimmed id))

theorem offset?_keyword : ∀ word ∈ keywords, offset? (dropWord word.toList) = .ok none := by
  decide

/-- It does not matter that keywords are looked for first, because none of them is an offset. -/
theorem parse_eq (id : String) (regions : List Region) :
    parse id regions = offset? (dropWord (capitals id)) >>= fun seconds? =>
      match seconds? with
      | some seconds => .ok (.fixed seconds)
      | none => named id regions := by
  have hkeyword {words : List String} (hwords : words ⊆ keywords)
      (h : words.any (·.toList == capitals id) = true) :
      offset? (dropWord (capitals id)) = .ok none := by
    obtain ⟨word, hword, heq⟩ := List.any_eq_true.1 h
    rw [← eq_of_beq heq]
    exact offset?_keyword word (hwords hword)
  have hopen : parse id regions =
      if utcWords.any (·.toList == capitals id) then .ok utc
      else if systemWords.any (·.toList == capitals id) then .ok system
      else offset? (dropWord (capitals id)) >>= fun seconds? =>
        match seconds? with
        | some seconds => .ok (.fixed seconds)
        | none =>
          match Region.find? regions (trimmed id) with
          | some r => .ok (.region r)
          | none => .refuse (.invalidTimeZone (trimmed id)) := rfl
  rw [hopen]
  by_cases hutc : utcWords.any (·.toList == capitals id) = true
  · rw [if_pos hutc, hkeyword (List.subset_append_left _ _) hutc]
    exact (if_pos hutc).symm
  · by_cases hsystem : systemWords.any (·.toList == capitals id) = true
    · rw [if_neg hutc, if_pos hsystem, hkeyword (List.subset_append_right _ _) hsystem]
      exact ((if_neg hutc).trans (if_pos hsystem)).symm
    · rw [if_neg hutc, if_neg hsystem]
      simp only [named, hutc, hsystem, Bool.false_eq_true, if_false]

theorem named_ne_fixed (id : String) (regions : List Region) (o : Int) :
    named id regions ≠ .ok (.fixed o) := by
  unfold named
  split
  · nofun
  · split
    · nofun
    · split <;> nofun

theorem named_eq_error_iff {f : Failure} :
    named id regions = .error f ↔
      f = .refused (.invalidTimeZone (trimmed id)) ∧
        (∀ word ∈ keywords, word.toList ≠ capitals id) ∧ ∀ r ∈ regions, r.id ≠ trimmed id := by
  have hwords (words : List String) :
      words.any (·.toList == capitals id) = false ↔ ∀ word ∈ words, word.toList ≠ capitals id := by
    simp
  rw [keywords, List.forall_mem_append, ← hwords, ← hwords, named]
  cases utcWords.any (·.toList == capitals id) with
  | true => simp
  | false =>
    cases systemWords.any (·.toList == capitals id) with
    | true => simp
    | false =>
      cases hfind : Region.find? regions (trimmed id) with
      | some r =>
        have hid : r.id = trimmed id := by simpa using List.find?_some hfind
        have hmem : r ∈ regions := List.mem_of_find?_eq_some hfind
        refine ⟨nofun, fun h => absurd hid (h.2.2 r hmem)⟩
      | none =>
        have hnone : ∀ r ∈ regions, r.id ≠ trimmed id := by
          simpa [Region.find?] using hfind
        refine ⟨fun h => ⟨(Except.error.inj h).symm, ⟨rfl, rfl⟩, hnone⟩, ?_⟩
        rintro ⟨rfl, -⟩
        rfl

theorem parse_of_offset (h : offset? (dropWord (capitals id)) = .ok (some o)) :
    parse id regions = .ok (.fixed o) := by
  rw [parse_eq, h]
  rfl

theorem parse_of_no_offset (h : offset? (dropWord (capitals id)) = .ok none) :
    parse id regions = named id regions := by
  rw [parse_eq, h]
  rfl

theorem parse_of_error {f : Failure} (h : offset? (dropWord (capitals id)) = .error f) :
    parse id regions = .error f := by
  rw [parse_eq, h]
  rfl

theorem parse_eq_fixed_iff :
    parse id regions = .ok (.fixed o) ↔
      ∃ sign h m, SpellsOffset (capitals id) sign h m ∧ h ≤ maxOffsetHours ∧ m < 60 ∧
        o = sign * (h * 3600 + m * 60) := by
  rw [← offset?_eq_some_iff]
  refine ⟨fun hparse => ?_, parse_of_offset⟩
  cases hread : offset? (dropWord (capitals id)) with
  | error f =>
    rw [parse_of_error hread] at hparse
    cases hparse
  | ok seconds? =>
    cases seconds? with
    | none =>
      rw [parse_of_no_offset hread] at hparse
      exact absurd hparse (named_ne_fixed id regions o)
    | some seconds =>
      rw [parse_of_offset hread] at hparse
      cases hparse
      rfl

/-- The failures of an id: the host crashes where an offset is cut inside a character, and an id
that is nothing else either is refused in the words in which it was given. -/
theorem parse_eq_error_iff {f : Failure} :
    parse id regions = .error f ↔
      (f = .crashed .offsetCutInsideCharacter ∧ CutsCharacter (capitals id)) ∨
        (f = .refused (.invalidTimeZone (trimmed id)) ∧ ¬ CutsCharacter (capitals id) ∧
          ¬ Resolves id regions) := by
  cases hread : offset? (dropWord (capitals id)) with
  | error f' =>
    obtain ⟨rfl, hcut⟩ := offset?_eq_error_iff.1 hread
    rw [parse_of_error hread]
    grind
  | ok seconds? =>
    have hcut : ¬ CutsCharacter (capitals id) := by
      intro hcut
      rw [offset?_eq_error_iff.2 ⟨rfl, hcut⟩] at hread
      cases hread
    cases seconds? with
    | some seconds =>
      rw [parse_of_offset hread]
      obtain ⟨sign, h, m, hspells, hhours, hminutes, -⟩ := offset?_eq_some_iff.1 hread
      have hresolves : Resolves id regions :=
        Or.inr (Or.inl ⟨sign, h, m, hspells, hhours, hminutes⟩)
      simp [hcut, hresolves]
    | none =>
      have hoffset : ¬ ∃ sign h m, SpellsOffset (capitals id) sign h m ∧ h ≤ maxOffsetHours ∧
          m < 60 := by
        rintro ⟨sign, h, m, hspells, hhours, hminutes⟩
        rw [offset?_eq_some_iff.2 ⟨sign, h, m, hspells, hhours, hminutes, rfl⟩] at hread
        cases hread
      rw [parse_of_no_offset hread, named_eq_error_iff, Resolves]
      simp [hcut, hoffset]

/-! ## Spellings of an offset -/

theorem HoursMinutes.exists_last {body : List Char} (hbody : HoursMinutes body h m) :
    ∃ front c, body = front ++ [c] ∧ isBlank c = false := by
  cases hbody with
  | @separated hours minutes h m hh hm =>
    obtain ⟨front, c, rfl, hc⟩ := hm.exists_last
    exact ⟨hours ++ ':' :: front, c, by simp, isBlank_of_isDigit hc⟩
  | alone hh hlength =>
    obtain ⟨front, c, rfl, hc⟩ := hh.exists_last
    exact ⟨front, c, rfl, isBlank_of_isDigit hc⟩
  | @joined hours minutes h m hh hlength hm =>
    obtain ⟨front, c, rfl, hc⟩ := hm.exists_last
    exact ⟨hours ++ front, c, by simp, isBlank_of_isDigit hc⟩

theorem SpellsOffset.isTrimmed {text : List Char} (hs : SpellsOffset text sign h m) :
    IsTrimmed text := by
  obtain ⟨body, ⟨word, hword, mark, hmark, rfl⟩, hbody⟩ := hs
  constructor
  · simp only [signs, List.mem_cons, Prod.mk.injEq, List.not_mem_nil, or_false] at hmark hword
    rcases hword with rfl | rfl | rfl <;> rcases hmark with ⟨rfl, -⟩ | ⟨rfl, -⟩ <;>
      exact ⟨_, _, rfl, by decide⟩
  · obtain ⟨front, c, rfl, hc⟩ := hbody.exists_last
    exact ⟨word.toList ++ mark :: front, c, by simp, hc⟩

theorem capitals_of_padded {before core after : List Char}
    (hbefore : ∀ c ∈ before, isBlank c = true) (hafter : ∀ c ∈ after, isBlank c = true)
    (hs : SpellsOffset (core.map Char.toUpper) sign h m) :
    capitals (String.ofList (before ++ core ++ after)) = core.map Char.toUpper := by
  rw [capitals, String.toList_ofList,
    trim_of_isTrimmed (isTrimmed_of_map_toUpper hs.isTrimmed) hbefore hafter]

/-- An id that is read as an offset says that offset: its capitals are a word or none, the sign, the
hours and the minutes.  What says an offset within the limit is read as that offset, in letters of
either case and with any blanks around it. -/
theorem offset_denotes (regions : List Region) :
    (∀ id o, parse id regions = .ok (.fixed o) →
      ∃ sign h m, SpellsOffset (capitals id) sign h m ∧ m < 60 ∧
        o = sign * (h * 3600 + m * 60)) ∧
      ∀ before core after sign h m, (∀ c ∈ before, isBlank c = true) →
        (∀ c ∈ after, isBlank c = true) → SpellsOffset (core.map Char.toUpper) sign h m →
        m < 60 → h * 3600 + m * 60 ≤ maxOffsetHours * 3600 →
        parse (String.ofList (before ++ core ++ after)) regions =
          .ok (.fixed (sign * (h * 3600 + m * 60))) := by
  constructor
  · intro id o hparse
    obtain ⟨sign, h, m, hspells, -, hminutes, ho⟩ := parse_eq_fixed_iff.1 hparse
    exact ⟨sign, h, m, hspells, hminutes, ho⟩
  · intro before core after sign h m hbefore hafter hspells hminutes hlimit
    have hhours : h ≤ maxOffsetHours := by omega
    refine parse_eq_fixed_iff.2 ⟨sign, h, m, ?_, hhours, hminutes, rfl⟩
    rw [capitals_of_padded hbefore hafter hspells]
    exact hspells

theorem offset_denotes_padded :
    parse "\tgmt-0009:0030 " = .ok (.fixed (-34200)) ∧
      ∃ sign h m, SpellsOffset (capitals "\tgmt-0009:0030 ") sign h m ∧ m < 60 ∧
        -34200 = sign * (h * 3600 + m * 60) := by
  have hspells : SpellsOffset ("gmt-0009:0030".toList.map Char.toUpper) (-1) 9 30 := by
    refine ⟨"0009:0030".toList, ⟨"GMT", by decide, '-', by decide, by decide⟩, ?_⟩
    exact @HoursMinutes.separated "0009".toList "0030".toList 9 30 (by decide) (by decide)
  have htab : ∀ c ∈ ['\t'], isBlank c = true := by simp [isBlank, blankCodes]
  have hspace : ∀ c ∈ [' '], isBlank c = true := by simp [isBlank, blankCodes]
  have hparse : parse "\tgmt-0009:0030 " = .ok (.fixed (-34200)) :=
    (offset_denotes Region.all).2 ['\t'] "gmt-0009:0030".toList [' '] (-1) 9 30 htab hspace hspells
      (by decide) (by decide)
  exact ⟨hparse, (offset_denotes Region.all).1 _ _ hparse⟩

/-! ## The longest offset -/

/-- An offset with all its parts. -/
def writtenOffset (mark : Char) (h m : Nat) : List Char :=
  mark :: (Nat.toDigits 10 h ++ ':' :: Nat.toDigits 10 m)

theorem spellsOffset_written {mark : Char} (hmark : (mark, sign) ∈ signs) (h m : Nat) :
    SpellsOffset ((writtenOffset mark h m).map Char.toUpper) sign h m := by
  have hdigits (n : Nat) : (Nat.toDigits 10 n).map Char.toUpper = Nat.toDigits 10 n :=
    (numeral_toDigits n).map_toUpper
  have hupper : mark.toUpper = mark := by
    simp only [signs, List.mem_cons, Prod.mk.injEq, List.not_mem_nil, or_false] at hmark
    rcases hmark with ⟨rfl, -⟩ | ⟨rfl, -⟩ <;> rfl
  rw [writtenOffset, List.map_cons, List.map_append, List.map_cons, hdigits, hdigits, hupper]
  exact ⟨_, ⟨"", by simp, mark, hmark, rfl⟩, .separated (numeral_toDigits h) (numeral_toDigits m)⟩

/-- Every offset of whole minutes with hours within the limit can be chosen. -/
theorem exists_parse_eq_fixed (regions : List Region) (hsign : sign = 1 ∨ sign = -1)
    (hh : h ≤ maxOffsetHours) (hm : m < 60) :
    ∃ id, parse id regions = .ok (.fixed (sign * (h * 3600 + m * 60))) := by
  obtain ⟨mark, hmark⟩ : ∃ mark, (mark, sign) ∈ signs := by
    rcases hsign with rfl | rfl
    · exact ⟨'+', by simp [signs]⟩
    · exact ⟨'-', by simp [signs]⟩
  let core := writtenOffset mark h m
  have hspells : SpellsOffset (core.map Char.toUpper) sign h m := spellsOffset_written hmark h m
  have hcapitals : capitals (String.ofList core) = core.map Char.toUpper := by
    simpa using @capitals_of_padded _ _ _ [] core [] (by simp) (by simp) hspells
  refine ⟨String.ofList core, parse_eq_fixed_iff.2 ⟨sign, h, m, ?_, hh, hm, rfl⟩⟩
  rw [hcapitals]
  exact hspells

/-- The offsets that ids can have are those of whole minutes up to eighteen hours and fifty-nine
minutes to either side.  The limit is one of the hours alone, so an offset is beyond it exactly if
it has that many hours and some minutes. -/
theorem fixed_range (regions : List Region) :
    (∀ o : Int, (∃ id, parse id regions = .ok (.fixed o)) ↔
      60 ∣ o ∧ o.natAbs ≤ maxOffsetHours * 3600 + 59 * 60) ∧
      ∀ id o, parse id regions = .ok (.fixed o) →
        (maxOffsetHours * 3600 < o.natAbs ↔
          ∃ sign m, SpellsOffset (capitals id) sign maxOffsetHours m ∧ 0 < m) := by
  have hlimit : maxOffsetHours = 18 := rfl
  constructor
  · intro o
    constructor
    · rintro ⟨id, hparse⟩
      obtain ⟨sign, h, m, hspells, hhours, hminutes, rfl⟩ := parse_eq_fixed_iff.1 hparse
      rcases hspells.sign_eq with rfl | rfl <;> omega
    · rintro ⟨hwhole, hbound⟩
      have hhours : o.natAbs / 3600 ≤ maxOffsetHours := by omega
      have hminutes : o.natAbs % 3600 / 60 < 60 := by omega
      obtain ⟨sign, hsign, ho⟩ : ∃ sign : Int, (sign = 1 ∨ sign = -1) ∧ o = sign * o.natAbs := by
        rcases Int.natAbs_eq o with ho | ho
        · exact ⟨1, Or.inl rfl, by omega⟩
        · exact ⟨-1, Or.inr rfl, by omega⟩
      have hparts : (o.natAbs : Int) =
          (o.natAbs / 3600 : Nat) * 3600 + (o.natAbs % 3600 / 60 : Nat) * 60 := by
        omega
      rw [ho, hparts]
      exact exists_parse_eq_fixed regions hsign hhours hminutes
  · intro id o hparse
    obtain ⟨sign, h, m, hspells, hhours, hminutes, rfl⟩ := parse_eq_fixed_iff.1 hparse
    constructor
    · intro hbeyond
      have hsize : h = maxOffsetHours ∧ 0 < m := by
        rcases hspells.sign_eq with rfl | rfl <;> omega
      exact ⟨sign, m, hsize.1 ▸ hspells, hsize.2⟩
    · rintro ⟨sign', m', hspells', hpos⟩
      obtain ⟨hh, hm⟩ := hspells.unique hspells'
      rw [hh, hlimit]
      rcases hspells.sign_eq with rfl | rfl <;> omega

theorem fixed_range_longest :
    parse "-1859" = .ok (.fixed (-68340)) ∧ maxOffsetHours * 3600 < (-68340 : Int).natAbs := by
  have hparse : parse "-1859" = .ok (.fixed (-68340)) := by decide +kernel
  have hspells : SpellsOffset (capitals "-1859") (-1) maxOffsetHours 59 := by
    refine ⟨"1859".toList, ⟨"", by decide, '-', by decide, by decide⟩, ?_⟩
    exact @HoursMinutes.joined "18".toList "59".toList 18 59 (by decide) rfl (by decide)
  exact ⟨hparse, ((fixed_range Region.all).2 _ _ hparse).2 ⟨-1, 59, hspells, by decide⟩⟩

/-- Half an hour more than the limit is accepted. -/
theorem fixed_beyond_limit :
    parse "+18:30" = .ok (.fixed 66600) ∧ maxOffsetHours * 3600 < (66600 : Int).natAbs := by
  decide +kernel

end AuditTrail.Time.Zone
