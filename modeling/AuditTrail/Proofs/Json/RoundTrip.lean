import AuditTrail.Json.Printer
import AuditTrail.Json.Reader

/-!
# Reading what was written

A document is read back as the value that was laid out, if it is made of strings, arrays and objects
(`Plain`).  Each lemma says of one reader that it takes what the matching writer has put in front of
a text and leaves the text, whatever it is.  Blanks before an item, which the layout puts there, do
not count.
-/

namespace AuditTrail.Json

/-! ## Strings -/

theorem lookup_shortEscapes {c letter : Char} (h : escapedLetters.lookup c = some letter) :
    shortEscapes.lookup letter = some c ∧ letter ≠ 'u' := by
  have hall : ∀ p ∈ escapedLetters, shortEscapes.lookup p.2 = some p.1 ∧ p.2 ≠ 'u' := by decide
  obtain ⟨before, after, heq, -⟩ := List.lookup_eq_some_iff.1 h
  exact hall (c, letter) (by rw [heq]; simp)

theorem readEscapedUnit_of_lt {c : Char} (h : c.toNat < 0x20) (more : List Char) :
    readEscapedUnit
        ('0' :: '0' :: Nat.digitChar (c.toNat / 16) :: Nat.digitChar (c.toNat % 16) :: more) =
      some (c, more) := by
  have hnumber : ∀ n < 0x20,
      Text.number? 16 ['0', '0', Nat.digitChar (n / 16), Nat.digitChar (n % 16)] = some n := by
    decide
  have hhigh : ¬ (0xD800 ≤ c.toNat ∧ c.toNat < 0xDC00) := by omega
  have hlow : ¬ (0xDC00 ≤ c.toNat ∧ c.toNat < 0xE000) := by omega
  simp [readEscapedUnit, readUnit, hnumber c.toNat h, hhigh, hlow]

section Body

variable {fuel : Nat} {c letter : Char} {unit more : List Char}

theorem readStringBody_plain (hquote : c ≠ '"') (hslash : c ≠ '\\') (hplain : ¬ c.toNat < 0x20) :
    readStringBody (fuel + 1) (c :: more) =
      (readStringBody fuel more).map fun (text, rest) => (c :: text, rest) := by
  rw [readStringBody.eq_def]
  simp only [if_neg hquote, if_neg hslash, if_neg hplain]
  cases readStringBody fuel more <;> rfl

theorem readStringBody_letter (h : shortEscapes.lookup letter = some c) (hletter : letter ≠ 'u') :
    readStringBody (fuel + 1) ('\\' :: letter :: more) =
      (readStringBody fuel more).map fun (text, rest) => (c :: text, rest) := by
  rw [readStringBody.eq_def]
  simp only [if_neg (show '\\' ≠ '"' by decide), if_true, h]
  cases readStringBody fuel more <;> rfl

theorem readStringBody_unit (h : readEscapedUnit unit = some (c, more)) :
    readStringBody (fuel + 1) ('\\' :: 'u' :: unit) =
      (readStringBody fuel more).map fun (text, rest) => (c :: text, rest) := by
  rw [readStringBody.eq_def]
  simp only [if_neg (show '\\' ≠ '"' by decide), if_true, h, Option.bind_eq_bind, Option.bind_some]
  cases readStringBody fuel more <;> rfl

/-- One step of the reader takes one character as it is escaped. -/
theorem readStringBody_escapeChar (fuel : Nat) (c : Char) (more : List Char) :
    readStringBody (fuel + 1) (escapeChar c ++ more) =
      (readStringBody fuel more).map fun (text, rest) => (c :: text, rest) := by
  rw [escapeChar]
  cases hlookup : escapedLetters.lookup c with
  | some letter =>
    obtain ⟨hshort, hletter⟩ := lookup_shortEscapes hlookup
    exact readStringBody_letter hshort hletter
  | none =>
    have hkeys (k : Char) (hk : k ∈ escapedLetters.map (·.1)) : c ≠ k := by
      obtain ⟨p, hp, rfl⟩ := List.mem_map.1 hk
      simpa using List.lookup_eq_none_iff.1 hlookup p hp
    by_cases hcontrol : c.toNat < 0x20
    · simp only [if_pos hcontrol]
      exact readStringBody_unit (readEscapedUnit_of_lt hcontrol more)
    · simp only [if_neg hcontrol]
      exact readStringBody_plain (hkeys '"' (by decide)) (hkeys '\\' (by decide)) hcontrol

end Body

theorem one_le_length_escapeChar (c : Char) : 1 ≤ (escapeChar c).length := by
  rw [escapeChar]
  split
  · simp
  · split <;> simp

theorem readStringBody_writeString (cs rest : List Char) (fuel : Nat)
    (hfuel : (cs.flatMap escapeChar).length < fuel) :
    readStringBody fuel (cs.flatMap escapeChar ++ '"' :: rest) = some (cs, rest) := by
  induction cs generalizing fuel with
  | nil =>
    obtain ⟨fuel, rfl⟩ := Nat.exists_eq_add_of_lt hfuel
    simp [readStringBody]
  | cons c cs ih =>
    rw [List.flatMap_cons, List.length_append] at hfuel
    have hc := one_le_length_escapeChar c
    obtain ⟨fuel, rfl⟩ : ∃ n, fuel = n + 1 := ⟨fuel - 1, by omega⟩
    rw [List.flatMap_cons, List.append_assoc, readStringBody_escapeChar, ih fuel (by omega)]
    rfl

theorem readString_writeString (s : String) (rest : List Char) :
    readString (writeString s ++ rest) = some (s, rest) := by
  have htext : writeString s ++ rest = '"' :: (s.toList.flatMap escapeChar ++ '"' :: rest) := by
    simp [writeString]
  have hfuel : (s.toList.flatMap escapeChar).length <
      (s.toList.flatMap escapeChar ++ '"' :: rest).length + 1 := by
    rw [List.length_append]
    omega
  rw [htext, readString, readStringBody_writeString _ _ _ hfuel]
  simp

/-! ## Items between brackets -/

/-- Every character is one that the layout may put before an item. -/
def Blanks (s : List Char) : Prop := ∀ c ∈ s, isBlank c = true

theorem skipBlanks_append {blanks s : List Char} (h : Blanks blanks) :
    skipBlanks (blanks ++ s) = skipBlanks s :=
  List.dropWhile_append_of_pos h

theorem skipBlanks_cons {c : Char} {s : List Char} (h : isBlank c = false) :
    skipBlanks (c :: s) = c :: s := by
  rw [skipBlanks, List.dropWhile_cons, h]
  rfl

theorem blanks_newLine (level : Nat) : Blanks (newLine level) := by
  intro c hc
  rcases List.mem_cons.1 hc with rfl | hc
  · rfl
  · rw [List.eq_of_mem_replicate hc]
    rfl

section Items

variable {α : Type} {item : Reader α} {write : α → List Char} {close : Char}

/-- The reader takes what the writer has put behind any blanks. -/
def Takes (item : Reader α) (write : α → List Char) (a : α) : Prop :=
  ∀ blanks rest, Blanks blanks → item (blanks ++ (write a ++ rest)) = some (a, rest)

/-- What is written begins with a character that is neither a blank nor the closing bracket. -/
def Opens (close : Char) (s : List Char) : Prop :=
  ∃ c more, s = c :: more ∧ isBlank c = false ∧ c ≠ close

theorem Opens.intercalate {a : α} (h : Opens close (write a)) (as : List α) (sep : List Char) :
    Opens close (sep.intercalate ((a :: as).map write)) := by
  obtain ⟨c, more, hwrite, hc, hne⟩ := h
  cases as with
  | nil => exact ⟨c, more, by simp [hwrite], hc, hne⟩
  | cons b as =>
    refine ⟨c, more ++ (sep ++ sep.intercalate ((b :: as).map write)), ?_, hc, hne⟩
    simp only [List.map_cons, List.intercalate_cons_cons, hwrite, List.cons_append,
      List.append_assoc]

theorem Opens.skipBlanks_append {blanks s : List Char} (h : Opens close s) (hblanks : Blanks blanks)
    (rest : List Char) :
    ∃ c more, skipBlanks (blanks ++ (s ++ rest)) = c :: more ∧ c ≠ close := by
  obtain ⟨c, more, rfl, hc, hne⟩ := h
  refine ⟨c, more ++ rest, ?_, hne⟩
  rw [Json.skipBlanks_append hblanks, List.cons_append, skipBlanks_cons hc]

theorem length_le_intercalate (sep : List Char) (hsep : 1 ≤ sep.length)
    (texts : List (List Char)) : texts.length ≤ (sep.intercalate texts).length + 1 := by
  induction texts with
  | nil => simp
  | cons text texts ih =>
    cases texts with
    | nil => simp
    | cons next texts =>
      rw [List.intercalate_cons_cons, List.length_append, List.length_append]
      simp only [List.length_cons] at ih ⊢
      omega

theorem readItems_intercalate (hclose : close ≠ ',') (hblank : isBlank close = false)
    {lead tail : List Char} (hlead : Blanks lead) (htail : Blanks tail) (rest : List Char)
    (a : α) (as : List α) (h : ∀ b ∈ a :: as, Takes item write b) {fuel : Nat}
    (hfuel : (a :: as).length ≤ fuel) :
    readItems item close fuel
        (lead ++ ((',' :: lead).intercalate ((a :: as).map write) ++ (tail ++ close :: rest))) =
      some (a :: as, rest) := by
  obtain ⟨fuel, rfl⟩ : ∃ n, fuel = n + 1 := ⟨fuel - 1, by simp at hfuel; omega⟩
  induction as generalizing a fuel with
  | nil =>
    have htext : (',' :: lead).intercalate ([a].map write) = write a := by simp
    rw [htext, readItems, h a (by simp) lead _ hlead]
    simp only [Option.bind_eq_bind, Option.bind_some, skipBlanks_append htail,
      skipBlanks_cons hblank, if_neg hclose, if_true]
  | cons b as ih =>
    obtain ⟨fuel, rfl⟩ : ∃ n, fuel = n + 1 := ⟨fuel - 1, by simp at hfuel; omega⟩
    have hrest := ih b (fun c hc => h c (List.mem_cons_of_mem a hc)) fuel
      (by simp at hfuel ⊢; omega)
    have htext : (',' :: lead).intercalate ((a :: b :: as).map write) =
        write a ++ ',' :: (lead ++ (',' :: lead).intercalate ((b :: as).map write)) := by
      simp only [List.map_cons, List.intercalate_cons_cons, List.cons_append, List.append_assoc]
    rw [htext, readItems, List.append_assoc, h a (by simp) lead _ hlead]
    simp only [Option.bind_eq_bind, Option.bind_some, List.cons_append,
      skipBlanks_cons (show isBlank ',' = false by rfl), if_true]
    rw [List.append_assoc, hrest]
    rfl

/-- A container that the printer has laid out is read item by item. -/
theorem readEnclosed_enclose (opening : Char) (hclose : close ≠ ',')
    (hblank : isBlank close = false) (level : Nat) (as : List α)
    (h : ∀ a ∈ as, Takes item write a) (hopens : ∀ a ∈ as, Opens close (write a))
    (rest : List Char) :
    ∃ more, enclose opening close level (as.map write) ++ rest = opening :: more ∧
      readEnclosed item close more = some (as, rest) := by
  cases as with
  | nil =>
    refine ⟨close :: rest, rfl, ?_⟩
    rw [readEnclosed, skipBlanks_cons hblank]
    exact if_pos rfl
  | cons a as =>
    let lead := newLine (level + 1)
    let items := (',' :: lead).intercalate ((a :: as).map write)
    let more := lead ++ (items ++ (newLine level ++ close :: rest))
    have hitems : Opens close items := (hopens a List.mem_cons_self).intercalate as (',' :: lead)
    obtain ⟨c, s, hskip, hne⟩ := hitems.skipBlanks_append (blanks_newLine (level + 1))
      (newLine level ++ close :: rest)
    refine ⟨more, ?_, ?_⟩
    · simp [enclose, more, items, lead]
    · have hskip' : skipBlanks more = c :: s := hskip
      rw [readEnclosed, hskip']
      simp only [if_neg hne]
      refine readItems_intercalate hclose hblank (blanks_newLine (level + 1)) (blanks_newLine level)
        rest a as h ?_
      -- a comma follows each item but the last, so the text is long enough to be the fuel
      have hlength := length_le_intercalate (',' :: lead) (by simp) ((a :: as).map write)
      have hlead : 1 ≤ lead.length := by simp [lead, newLine]
      simp only [List.length_map] at hlength
      simp only [more, items, List.length_append]
      omega

end Items

/-! ## Values -/

/-- A value of strings, arrays and objects, with containers nested at most so deep. -/
inductive Plain : Nat → Json → Prop
  | string {depth} (s) : Plain depth (.string s)
  | array {depth items} (h : ∀ item ∈ items, Plain depth item) : Plain (depth + 1) (.array items)
  | object {depth members} (h : ∀ m ∈ members, Plain depth m.2) :
    Plain (depth + 1) (.object members)

def writeMember (level : Nat) (m : String × Json) : List Char :=
  writeString m.1 ++ [':', ' '] ++ write level m.2

theorem writeItems_eq_map (level : Nat) (items : List Json) :
    writeItems level items = items.map (write level) := by
  induction items with
  | nil => rfl
  | cons item rest ih => rw [writeItems, ih, List.map_cons]

theorem writeMembers_eq_map (level : Nat) (members : List (String × Json)) :
    writeMembers level members = members.map (writeMember level) := by
  induction members with
  | nil => rfl
  | cons m rest ih => rw [writeMembers, ih, List.map_cons, writeMember]

section Values

variable {depth : Nat} {s more rest : List Char}

theorem readValue_of_quote (h : skipBlanks s = '"' :: more) :
    readValue depth s =
      (readString ('"' :: more)).map fun (text, rest) => (.string text, rest) := by
  rw [readValue.eq_def]
  simp only [h]

theorem readValue_of_bracket (h : skipBlanks s = '[' :: more) :
    readValue (depth + 1) s =
      (readEnclosed (readValue depth) ']' more).map fun (items, rest) => (.array items, rest) := by
  rw [readValue.eq_def]
  simp only [h]

theorem readValue_of_brace (h : skipBlanks s = '\x7b' :: more) :
    readValue (depth + 1) s =
      (readEnclosed (readMember (readValue depth)) '\x7d' more).map fun (members, rest) =>
        (.object members, rest) := by
  rw [readValue.eq_def]
  simp only [h]

theorem opens_writeMember (level : Nat) (m : String × Json) :
    Opens '\x7d' (writeMember level m) :=
  ⟨'"', m.1.toList.flatMap escapeChar ++ ['"'] ++ [':', ' '] ++ write level m.2,
    by simp [writeMember, writeString], rfl, by decide⟩

theorem enclose_eq_cons (opening closing : Char) (level : Nat) (items : List (List Char)) :
    ∃ more, enclose opening closing level items = opening :: more := by
  cases items with
  | nil => exact ⟨[closing], rfl⟩
  | cons item items =>
    exact ⟨newLine (level + 1) ++ (',' :: newLine (level + 1)).intercalate (item :: items) ++
      newLine level ++ [closing], by simp [enclose]⟩

theorem exists_pretty_object_eq_cons (members : List (String × Json)) :
    ∃ more, (pretty (.object members)).toList = '\x7b' :: more := by
  obtain ⟨more, hmore⟩ := enclose_eq_cons '\x7b' '\x7d' 0 (writeMembers 1 members)
  exact ⟨more, by rw [pretty, String.toList_ofList, write, hmore]⟩

theorem Plain.opens {v : Json} (h : Plain depth v) (level : Nat) :
    Opens ']' (write level v) := by
  cases h with
  | string s => exact ⟨'"', s.toList.flatMap escapeChar ++ ['"'], rfl, rfl, by decide⟩
  | @array _ items h =>
    obtain ⟨more, hmore⟩ := enclose_eq_cons '[' ']' level (writeItems (level + 1) items)
    exact ⟨'[', more, hmore, rfl, by decide⟩
  | @object _ members h =>
    obtain ⟨more, hmore⟩ := enclose_eq_cons '\x7b' '\x7d' level (writeMembers (level + 1) members)
    exact ⟨'\x7b', more, hmore, rfl, by decide⟩

theorem skipBlanks_writeString (s : String) (more : List Char) :
    skipBlanks (writeString s ++ more) = writeString s ++ more :=
  skipBlanks_cons (show isBlank '"' = false by rfl)

theorem takes_readMember {level : Nat} {m : String × Json}
    (h : Takes (readValue depth) (write level) m.2) :
    Takes (readMember (readValue depth)) (writeMember level) m := by
  intro blanks rest hblanks
  obtain ⟨key, value⟩ := m
  have htext : writeMember level (key, value) ++ rest =
      writeString key ++ ':' :: ([' '] ++ (write level value ++ rest)) := by
    simp [writeMember]
  rw [htext, readMember, skipBlanks_append hblanks, skipBlanks_writeString, readString_writeString]
  simp only [Option.bind_eq_bind, Option.bind_some,
    skipBlanks_cons (show isBlank ':' = false by rfl)]
  rw [h [' '] rest (by simp [Blanks, isBlank])]
  rfl

/-- The reader of values undoes the printer. -/
theorem Plain.takes {v : Json} (h : Plain depth v) (level : Nat) :
    Takes (readValue depth) (write level) v := by
  induction h generalizing level with
  | string s =>
    intro blanks rest hblanks
    have hskip : skipBlanks (blanks ++ (writeString s ++ rest)) = writeString s ++ rest := by
      rw [skipBlanks_append hblanks, skipBlanks_writeString]
    rw [write, readValue_of_quote hskip]
    exact congrArg (Option.map fun (text, rest) => (Json.string text, rest))
      (readString_writeString s rest)
  | @array depth items h ih =>
    intro blanks rest hblanks
    obtain ⟨more, htext, hread⟩ := readEnclosed_enclose '[' (show ']' ≠ ',' by decide) rfl level
      items (fun v hv => ih v hv (level + 1)) (fun v hv => (h v hv).opens (level + 1)) rest
    have hskip : skipBlanks (blanks ++ ('[' :: more)) = '[' :: more := by
      rw [skipBlanks_append hblanks, skipBlanks_cons (by rfl)]
    rw [write, writeItems_eq_map, htext, readValue_of_bracket hskip, hread]
    rfl
  | @object depth members h ih =>
    intro blanks rest hblanks
    obtain ⟨more, htext, hread⟩ := readEnclosed_enclose '\x7b' (show '\x7d' ≠ ',' by decide) rfl
      level members (fun m hm => takes_readMember (ih m hm (level + 1)))
      (fun m _ => opens_writeMember (level + 1) m) rest
    have hskip : skipBlanks (blanks ++ ('\x7b' :: more)) = '\x7b' :: more := by
      rw [skipBlanks_append hblanks, skipBlanks_cons (by rfl)]
    rw [write, writeMembers_eq_map, htext, readValue_of_brace hskip, hread]
    rfl

end Values

theorem parse_pretty {v : Json} (h : Plain maxDepth v) : parse v.pretty = .ok v := by
  have htakes := h.takes 0 [] [] (by simp [Blanks])
  rw [List.nil_append, List.append_nil] at htakes
  simp only [parse, pretty, String.toList_ofList, htakes]
  rfl

end AuditTrail.Json
