import AuditTrail.Proofs.Text.Numeral
import AuditTrail.Proofs.Text.Occurrence
import AuditTrail.Time.Zone

/-!
# How an offset is written

After its sign an offset has its hours and its minutes with a colon between them, or one or two
digits of hours alone, or two digits of hours with the minutes directly after them
(`HoursMinutes`).  Reading finds exactly these, and refuses the rest, with one exception: a text
without a colon is cut after its second byte before anyone has looked at its characters, and where
that byte ends no character the host crashes (`splitOffset_eq_error_iff`).
-/

namespace AuditTrail.Time.Zone

open Text

variable {s front rest text body hours minutes : List Char} {c : Char} {h m n : Nat} {sign o : Int}

/-! ## Cutting at a byte -/

theorem byteLength_cons (c : Char) (s : List Char) :
    byteLength (c :: s) = c.utf8Size + byteLength s := rfl

theorem byteLength_append (s t : List Char) :
    byteLength (s ++ t) = byteLength s + byteLength t := by
  induction s with
  | nil => exact (Nat.zero_add _).symm
  | cons c s ih => rw [List.cons_append, byteLength_cons, byteLength_cons, ih, Nat.add_assoc]

theorem byteLength_eq_zero_iff : byteLength s = 0 ↔ s = [] := by
  cases s with
  | nil => exact ⟨fun _ => rfl, fun _ => rfl⟩
  | cons c s =>
    have hpos := c.utf8Size_pos
    refine ⟨fun h => ?_, nofun⟩
    rw [byteLength_cons] at h
    omega

theorem byteLength_eq_utf8ByteSize (s : List Char) :
    byteLength s = (String.ofList s).utf8ByteSize := by
  induction s with
  | nil => rfl
  | cons c s ih =>
    rw [byteLength_cons, ih, ← List.singleton_append, String.ofList_append,
      String.utf8ByteSize_append, ← String.singleton_eq_ofList, String.utf8ByteSize_singleton]

/-- A digit takes one byte. -/
theorem byteLength_of_isDigit (hs : ∀ c ∈ s, c.isDigit = true) : byteLength s = s.length := by
  induction s with
  | nil => rfl
  | cons c s ih =>
    obtain ⟨hc, hs⟩ := List.forall_mem_cons.1 hs
    have hsize : c.utf8Size = 1 := by
      rw [Char.utf8Size_eq_one_iff]
      simp only [Char.isDigit, Bool.and_eq_true, decide_eq_true_eq] at hc
      exact UInt32.le_trans hc.2 (by decide)
    rw [byteLength_cons, hsize, ih hs, List.length_cons, Nat.add_comm]

theorem cutAfterBytes?_zero (s : List Char) : cutAfterBytes? 0 s = some ([], s) := by
  cases s <;> rfl

theorem cutAfterBytes?_cons (hn : n ≠ 0) :
    cutAfterBytes? n (c :: s) =
      if c.utf8Size ≤ n then
        (cutAfterBytes? (n - c.utf8Size) s).map fun (front, rest) => (c :: front, rest)
      else none := by
  cases n with
  | zero => exact absurd rfl hn
  | succ n => rfl

/-- A text can be cut after so many bytes exactly if a part of it has that length. -/
theorem cutAfterBytes?_eq_some_iff :
    cutAfterBytes? n s = some (front, rest) ↔ s = front ++ rest ∧ byteLength front = n := by
  induction s generalizing n front with
  | nil =>
    by_cases hn : n = 0
    · subst hn
      rw [cutAfterBytes?_zero, byteLength_eq_zero_iff]
      grind
    · obtain ⟨k, rfl⟩ := Nat.exists_eq_succ_of_ne_zero hn
      refine ⟨nofun, fun ⟨happend, hlength⟩ => ?_⟩
      rw [(List.nil_eq_append_iff.1 happend).1] at hlength
      exact absurd hlength.symm hn
  | cons c s ih =>
    have hpos := c.utf8Size_pos
    by_cases hn : n = 0
    · subst hn
      rw [cutAfterBytes?_zero, byteLength_eq_zero_iff]
      grind
    · rw [cutAfterBytes?_cons hn]
      split
      · rename_i hle
        rw [Option.map_eq_some_iff]
        constructor
        · rintro ⟨⟨front', rest'⟩, hcut, heq⟩
          cases heq
          obtain ⟨rfl, hlength⟩ := ih.1 hcut
          rw [byteLength_cons]
          exact ⟨rfl, by omega⟩
        · rintro ⟨happend, hlength⟩
          cases front with
          | nil => exact absurd hlength.symm hn
          | cons d front =>
            rw [List.cons_append, List.cons.injEq] at happend
            obtain ⟨rfl, rfl⟩ := happend
            rw [byteLength_cons] at hlength
            exact ⟨(front, rest), ih.2 ⟨rfl, by omega⟩, rfl⟩
      · refine ⟨nofun, fun ⟨happend, hlength⟩ => ?_⟩
        cases front with
        | nil => exact absurd hlength.symm hn
        | cons d front =>
          rw [List.cons_append, List.cons.injEq] at happend
          obtain ⟨rfl, -⟩ := happend
          rw [byteLength_cons] at hlength
          omega

theorem cutAfterBytes?_eq_none_iff :
    cutAfterBytes? n s = none ↔ ¬ String.Pos.Raw.IsValid (String.ofList s) ⟨n⟩ := by
  rw [String.Pos.Raw.isValid_iff_exists_append, ← not_iff_not, not_not, ← ne_eq,
    Option.ne_none_iff_exists']
  constructor
  · rintro ⟨⟨front, rest⟩, hcut⟩
    obtain ⟨rfl, rfl⟩ := cutAfterBytes?_eq_some_iff.1 hcut
    refine ⟨String.ofList front, String.ofList rest, String.ofList_append, ?_⟩
    rw [byteLength_eq_utf8ByteSize]
    rfl
  · rintro ⟨front, rest, happend, hlength⟩
    refine ⟨(front.toList, rest.toList), cutAfterBytes?_eq_some_iff.2 ⟨?_, ?_⟩⟩
    · rw [← String.toList_append, ← happend, String.toList_ofList]
    · rw [byteLength_eq_utf8ByteSize, String.ofList_toList]
      exact (String.Pos.Raw.ext_iff.1 hlength).symm

/-! ## Hours and minutes -/

/-- Hours and minutes as they may stand after a sign. -/
inductive HoursMinutes : List Char → Nat → Nat → Prop
  | separated {hours minutes : List Char} {h m : Nat} (hh : Numeral hours h)
      (hm : Numeral minutes m) : HoursMinutes (hours ++ ':' :: minutes) h m
  | alone {hours : List Char} {h : Nat} (hh : Numeral hours h) (hlength : hours.length ≤ 2) :
    HoursMinutes hours h 0
  | joined {hours minutes : List Char} {h m : Nat} (hh : Numeral hours h)
      (hlength : hours.length = 2) (hm : Numeral minutes m) :
    HoursMinutes (hours ++ minutes) h m

/-- There is no colon, and the text goes on after its second byte, which ends no character. -/
def SplitsCharacter (body : List Char) : Prop :=
  ':' ∉ body ∧ 2 < (String.ofList body).utf8ByteSize ∧
    ¬ String.Pos.Raw.IsValid (String.ofList body) ⟨2⟩

theorem splitOffset_of_mem (hc : ':' ∈ body) :
    ∃ hours minutes, splitOffset body = .ok (hours, minutes) ∧
      body = hours ++ ':' :: minutes ∧ ':' ∉ hours := by
  cases hcut : cut? [':'] body with
  | none =>
    rw [cut?_eq_none_iff (List.cons_ne_nil _ _), List.singleton_infix_iff] at hcut
    exact absurd hc hcut
  | some halves =>
    obtain ⟨hours, minutes⟩ := halves
    obtain ⟨hbody, hfree⟩ := cut?_singleton_iff.1 hcut
    refine ⟨hours, minutes, ?_, ?_, hfree⟩
    · rw [splitOffset, hcut]
    · rw [hbody, List.append_assoc, List.singleton_append]

theorem splitOffset_of_not_mem (hc : ':' ∉ body) :
    splitOffset body =
      if byteLength body ≤ 2 then .ok (body, ['0'])
      else
        match cutAfterBytes? 2 body with
        | some halves => .ok halves
        | none => .crash .offsetCutInsideCharacter := by
  have hcut : cut? [':'] body = none := by
    rw [cut?_eq_none_iff (List.cons_ne_nil _ _), List.singleton_infix_iff]
    exact hc
  unfold splitOffset
  split
  · rename_i halves hsome
    rw [hcut] at hsome
    cases hsome
  · rfl

theorem splitOffset_eq_error_iff {f : Failure} :
    splitOffset body = .error f ↔
      f = .crashed .offsetCutInsideCharacter ∧ SplitsCharacter body := by
  by_cases hc : ':' ∈ body
  · obtain ⟨hours, minutes, hsplit, -⟩ := splitOffset_of_mem hc
    rw [hsplit]
    exact ⟨nofun, fun h => absurd hc h.2.1⟩
  · rw [splitOffset_of_not_mem hc, SplitsCharacter, ← byteLength_eq_utf8ByteSize,
      ← cutAfterBytes?_eq_none_iff]
    split
    · rename_i hshort
      refine ⟨nofun, fun h => ?_⟩
      have := h.2.2.1
      omega
    · rename_i hlong
      cases hcut : cutAfterBytes? 2 body with
      | some halves => exact ⟨nofun, fun h => nomatch h.2.2.2⟩
      | none =>
        refine ⟨fun h => ⟨(Except.error.inj h).symm, hc, by omega, rfl⟩, ?_⟩
        rintro ⟨rfl, -⟩
        rfl

/-- The halves of a text that are numerals are its hours and its minutes. -/
theorem exists_splitOffset_iff :
    (∃ hours minutes, splitOffset body = .ok (hours, minutes) ∧
        Numeral hours h ∧ Numeral minutes m) ↔
      HoursMinutes body h m := by
  constructor
  · rintro ⟨hours, minutes, hsplit, hh, hm⟩
    by_cases hc : ':' ∈ body
    · obtain ⟨hours', minutes', hsplit', rfl, -⟩ := splitOffset_of_mem hc
      rw [hsplit, Except.ok.injEq, Prod.mk.injEq] at hsplit'
      obtain ⟨rfl, rfl⟩ := hsplit'
      exact .separated hh hm
    · rw [splitOffset_of_not_mem hc] at hsplit
      split at hsplit
      · rename_i hshort
        cases hsplit
        obtain rfl : m = 0 := hm.value.symm
        rw [byteLength_of_isDigit hh.isDigit] at hshort
        exact .alone hh hshort
      · split at hsplit
        · rename_i halves hcut
          cases hsplit
          obtain ⟨rfl, hlength⟩ := cutAfterBytes?_eq_some_iff.1 hcut
          rw [byteLength_of_isDigit hh.isDigit] at hlength
          exact .joined hh hlength hm
        · cases hsplit
  · intro hbody
    cases hbody with
    | @separated hours minutes h m hh hm =>
      refine ⟨hours, minutes, ?_, hh, hm⟩
      have hcut : cut? [':'] (hours ++ ':' :: minutes) = some (hours, minutes) :=
        cut?_singleton_iff.2 ⟨by simp, hh.not_mem rfl⟩
      rw [splitOffset, hcut]
    | alone hh hlength =>
      refine ⟨body, ['0'], ?_, hh, by decide⟩
      rw [splitOffset_of_not_mem (hh.not_mem rfl), byteLength_of_isDigit hh.isDigit,
        if_pos hlength]
    | @joined hours minutes h m hh hlength hm =>
      refine ⟨hours, minutes, ?_, hh, hm⟩
      have hc : ':' ∉ hours ++ minutes := by
        rw [List.mem_append, not_or]
        exact ⟨hh.not_mem rfl, hm.not_mem rfl⟩
      have hhours : byteLength hours = 2 := by
        rw [byteLength_of_isDigit hh.isDigit, hlength]
      have hminutes : byteLength minutes ≠ 0 := by
        rw [ne_eq, byteLength_eq_zero_iff]
        exact hm.ne_nil
      rw [splitOffset_of_not_mem hc, cutAfterBytes?_eq_some_iff.2 ⟨rfl, hhours⟩,
        byteLength_append, if_neg (by omega)]

/-! ## Reckoning -/

theorem offsetSeconds?_eq_some_iff :
    offsetSeconds? sign hours minutes = some o ↔
      ∃ h m, Numeral hours h ∧ Numeral minutes m ∧ h ≤ maxOffsetHours ∧ m < 60 ∧
        o = sign * (h * 3600 + m * 60) := by
  simp only [offsetSeconds?, Option.bind_eq_bind, Option.bind_eq_some_iff, number?_eq_some_iff,
    Option.ite_none_left_eq_some, Option.some.injEq, not_or, Nat.not_lt, Nat.not_le]
  constructor
  · rintro ⟨h, hh, m, hm, ⟨hhours, hminutes⟩, rfl⟩
    exact ⟨h, m, hh, hm, hhours, hminutes, rfl⟩
  · rintro ⟨h, m, hh, hm, hhours, hminutes, rfl⟩
    exact ⟨h, hh, m, hm, ⟨hhours, hminutes⟩, rfl⟩

/-- A signed word of 32 bits holds the number. -/
def InWord (k : Int) : Prop := Int32.minValue.toInt ≤ k ∧ k ≤ Int32.maxValue.toInt

/-- The numbers that come up while an offset is reckoned. -/
def reckoning (sign h m : Int) : List Int :=
  [h, m, h * 3600, m * 60, h * 3600 + m * 60, sign * (h * 3600 + m * 60)]

theorem inWord_of_natAbs_lt {k : Int} (hk : k.natAbs < 86400) : InWord k := by
  have hmin : Int32.minValue.toInt = -2147483648 := by decide
  have hmax : Int32.maxValue.toInt = 2147483647 := by decide
  unfold InWord
  omega

/-- The numbers of an offset that is accepted are far from the limits of a word, and what comes out
is less than a day. -/
theorem inWord_of_mem_reckoning (hsign : sign = 1 ∨ sign = -1) (hh : h ≤ maxOffsetHours)
    (hm : m < 60) :
    ∀ k ∈ reckoning sign h m, k.natAbs < 86400 ∧ InWord k := by
  have hhours : h ≤ 18 := hh
  intro k hk
  suffices hsmall : k.natAbs < 86400 from ⟨hsmall, inWord_of_natAbs_lt hsmall⟩
  simp only [reckoning, List.mem_cons, List.not_mem_nil, or_false] at hk
  rcases hsign with rfl | rfl <;> rcases hk with rfl | rfl | rfl | rfl | rfl | rfl <;> omega

/-! ## The whole of an offset -/

/-- The signs of an offset: east of Greenwich and west of it. -/
def signs : List (Char × Int) := [('+', 1), ('-', -1)]

/-- The text is a sign, perhaps with one of the words before it, and `body` after it. -/
def OpensOffset (text : List Char) (sign : Int) (body : List Char) : Prop :=
  ∃ word ∈ ["", "UTC", "GMT"], ∃ mark, (mark, sign) ∈ signs ∧ text = word.toList ++ mark :: body

/-- The text is an offset of so many hours and minutes. -/
def SpellsOffset (text : List Char) (sign : Int) (h m : Nat) : Prop :=
  ∃ body, OpensOffset text sign body ∧ HoursMinutes body h m

/-- The text is an offset up to its sign, and the second byte after that is within a character. -/
def CutsCharacter (text : List Char) : Prop :=
  ∃ sign body, OpensOffset text sign body ∧ SplitsCharacter body

theorem opensOffset_iff :
    OpensOffset text sign body ↔ ∃ mark, (mark, sign) ∈ signs ∧ dropWord text = mark :: body := by
  constructor
  · rintro ⟨word, hword, mark, hmark, rfl⟩
    refine ⟨mark, hmark, ?_⟩
    simp only [signs, List.mem_cons, Prod.mk.injEq, List.not_mem_nil, or_false] at hmark hword
    rcases hword with rfl | rfl | rfl <;> rcases hmark with ⟨rfl, -⟩ | ⟨rfl, -⟩ <;> rfl
  · rintro ⟨mark, hmark, hdrop⟩
    unfold dropWord at hdrop
    split at hdrop
    · rename_i hword
      rcases hword with hword | hword
      · refine ⟨"UTC", by simp, mark, hmark, ?_⟩
        rw [← hdrop]
        exact eq_append_of_isPrefixOf hword
      · refine ⟨"GMT", by simp, mark, hmark, ?_⟩
        rw [← hdrop]
        exact eq_append_of_isPrefixOf hword
    · exact ⟨"", by simp, mark, hmark, hdrop⟩

theorem offset?_cons {mark : Char} (hmark : (mark, sign) ∈ signs) (body : List Char) :
    offset? (mark :: body) =
      (splitOffset body).map fun halves => offsetSeconds? sign halves.1 halves.2 := by
  simp only [signs, List.mem_cons, Prod.mk.injEq, List.not_mem_nil, or_false] at hmark
  rcases hmark with ⟨rfl, rfl⟩ | ⟨rfl, rfl⟩ <;>
    · cases hsplit : splitOffset body <;> simp [offset?, hsplit] <;> rfl

theorem offset?_of_opens (h : OpensOffset text sign body) :
    offset? (dropWord text) =
      (splitOffset body).map fun halves => offsetSeconds? sign halves.1 halves.2 := by
  obtain ⟨mark, hmark, hdrop⟩ := opensOffset_iff.1 h
  rw [hdrop, offset?_cons hmark]

theorem exists_opensOffset (h : offset? (dropWord text) ≠ .ok none) :
    ∃ sign body, OpensOffset text sign body := by
  unfold offset? at h
  split at h
  · rename_i body hdrop
    exact ⟨1, body, opensOffset_iff.2 ⟨'+', by simp [signs], hdrop⟩⟩
  · rename_i body hdrop
    exact ⟨-1, body, opensOffset_iff.2 ⟨'-', by simp [signs], hdrop⟩⟩
  · exact absurd rfl h

theorem offset?_eq_some_iff :
    offset? (dropWord text) = .ok (some o) ↔
      ∃ sign h m, SpellsOffset text sign h m ∧ h ≤ maxOffsetHours ∧ m < 60 ∧
        o = sign * (h * 3600 + m * 60) := by
  constructor
  · intro hread
    obtain ⟨sign, body, hopens⟩ := exists_opensOffset (by rw [hread]; nofun)
    rw [offset?_of_opens hopens] at hread
    cases hsplit : splitOffset body with
    | error f =>
      rw [hsplit] at hread
      cases hread
    | ok halves =>
      rw [hsplit] at hread
      obtain ⟨h, m, hh, hm, hhours, hminutes, ho⟩ :=
        offsetSeconds?_eq_some_iff.1 (Except.ok.inj hread)
      have hbody : HoursMinutes body h m := exists_splitOffset_iff.1 ⟨_, _, hsplit, hh, hm⟩
      exact ⟨sign, h, m, ⟨body, hopens, hbody⟩, hhours, hminutes, ho⟩
  · rintro ⟨sign, h, m, ⟨body, hopens, hbody⟩, hhours, hminutes, ho⟩
    obtain ⟨hours, minutes, hsplit, hh, hm⟩ := exists_splitOffset_iff.2 hbody
    rw [offset?_of_opens hopens, hsplit]
    exact congrArg Except.ok
      (offsetSeconds?_eq_some_iff.2 ⟨h, m, hh, hm, hhours, hminutes, ho⟩)

theorem offset?_eq_error_iff {f : Failure} :
    offset? (dropWord text) = .error f ↔
      f = .crashed .offsetCutInsideCharacter ∧ CutsCharacter text := by
  constructor
  · intro hread
    obtain ⟨sign, body, hopens⟩ := exists_opensOffset (by rw [hread]; nofun)
    rw [offset?_of_opens hopens] at hread
    cases hsplit : splitOffset body with
    | error f' =>
      rw [hsplit] at hread
      obtain rfl : f' = f := Except.error.inj hread
      obtain ⟨hf, hbody⟩ := splitOffset_eq_error_iff.1 hsplit
      exact ⟨hf, sign, body, hopens, hbody⟩
    | ok halves =>
      rw [hsplit] at hread
      cases hread
  · rintro ⟨hf, sign, body, hopens, hbody⟩
    rw [offset?_of_opens hopens, splitOffset_eq_error_iff.2 ⟨hf, hbody⟩]
    rfl

theorem SpellsOffset.sign_eq (hs : SpellsOffset text sign h m) : sign = 1 ∨ sign = -1 := by
  obtain ⟨body, ⟨word, hword, mark, hmark, -⟩, -⟩ := hs
  simp only [signs, List.mem_cons, Prod.mk.injEq, List.not_mem_nil, or_false] at hmark
  exact hmark.imp And.right And.right

/-- What an offset says is determined by its text. -/
theorem SpellsOffset.unique {sign' : Int} {h' m' : Nat} (hs : SpellsOffset text sign h m)
    (hs' : SpellsOffset text sign' h' m') : h = h' ∧ m = m' := by
  obtain ⟨body, hopens, hbody⟩ := hs
  obtain ⟨body', hopens', hbody'⟩ := hs'
  obtain ⟨mark, -, hdrop⟩ := opensOffset_iff.1 hopens
  obtain ⟨mark', -, hdrop'⟩ := opensOffset_iff.1 hopens'
  obtain rfl : body = body' := (List.cons.inj (hdrop.symm.trans hdrop')).2
  obtain ⟨hours, minutes, hsplit, hh, hm⟩ := exists_splitOffset_iff.2 hbody
  obtain ⟨hours', minutes', hsplit', hh', hm'⟩ := exists_splitOffset_iff.2 hbody'
  obtain ⟨rfl, rfl⟩ := Prod.mk.inj (Except.ok.inj (hsplit.symm.trans hsplit'))
  exact ⟨hh.unique hh', hm.unique hm'⟩

end AuditTrail.Time.Zone
