import AuditTrail.Yaml.Node.Reader

/-!
# Mappings between braces

A mapping on one line, with its members between braces and a comma after each of them, is read as
the pairs that it shows (`Document.parse_flow`).  Its keys are names, and its values are names or
such mappings again.  A name is made of letters, digits and underscores, which are no sign of any
kind wherever they stand.

The tokens are followed from place to place on the line: each lemma `Runs.of_…` reads one thing and
leaves the rest of the line to what comes next.  The nodes are then read off the tokens, member by
member.
-/

namespace AuditTrail.Yaml

/-! ## Names -/

def isNameChar (c : Char) : Bool := c.isAlphanum || c = '_'

structure IsName (word : List Char) : Prop where
  ne_nil : word ≠ []
  chars : ∀ c ∈ word, isNameChar c = true

section NameChar

variable {c d : Char}

theorem ne_of_isNameChar (hc : isNameChar c = true) (hd : isNameChar d = false) : c ≠ d := by
  rintro rfl
  rw [hc] at hd
  cases hd

theorem not_mem_of_isNameChar (hc : isNameChar c = true) (signs : List Char)
    (hsigns : signs.all (! isNameChar ·) = true) : c ∉ signs := by
  intro hmem
  have := List.all_eq_true.1 hsigns c hmem
  simp [hc] at this

theorem isBreak_of_isNameChar (hc : isNameChar c = true) : isBreak c = false := by
  have h := not_mem_of_isNameChar hc ['\n', '\u2028', '\u2029'] (by decide)
  simp only [List.mem_cons, List.not_mem_nil, or_false, not_or] at h
  simp [isBreak, h]

theorem isGap_of_isNameChar (hc : isNameChar c = true) : isGap c = false := by
  have h := not_mem_of_isNameChar hc [' ', '\t'] (by decide)
  simp only [List.mem_cons, List.not_mem_nil, or_false, not_or] at h
  simp [isGap, isBlank, isBreak_of_isNameChar hc, h]

theorem toNat_of_isNameChar (hc : isNameChar c = true) : 0x20 ≤ c.toNat ∧ c.toNat ≤ 0x7E := by
  change (((decide ('A'.val ≤ c.val ∧ c.val ≤ 'Z'.val) || 'a'.val ≤ c.val && c.val ≤ 'z'.val) ||
    '0'.val ≤ c.val && c.val ≤ '9'.val) || c = '_') = true at hc
  simp only [Bool.or_eq_true, Bool.and_eq_true, decide_eq_true_eq, UInt32.le_iff_toNat_le] at hc
  change 0x20 ≤ c.val.toNat ∧ c.val.toNat ≤ 0x7E
  rcases hc with ((⟨hlow, hhigh⟩ | ⟨hlow, hhigh⟩) | ⟨hlow, hhigh⟩) | rfl
  · exact ⟨Nat.le_trans (by decide) hlow, Nat.le_trans hhigh (by decide)⟩
  · exact ⟨Nat.le_trans (by decide) hlow, Nat.le_trans hhigh (by decide)⟩
  · exact ⟨Nat.le_trans (by decide) hlow, Nat.le_trans hhigh (by decide)⟩
  · decide

end NameChar

/-! ## A line of text -/

namespace Source

variable {line column : Nat} {c : Char} {cs text : List Char}

theorem place_cons (hc : isBreak c = false) :
    place line column (c :: cs) = ⟨c, line, column⟩ :: place line (column + 1) cs := by
  rw [place, if_neg (by rw [hc]; decide)]

theorem length_place (line column : Nat) (text : List Char) :
    (place line column text).length = text.length := by
  rw [← List.length_map (f := Spot.char), map_char_place]

theorem atMark_of_ne {sign : Char} {x : Spot} {s : Source} (h : x.char ≠ sign) :
    atMark sign (x :: s) = false := by
  rw [atMark.eq_def]
  split
  next heq =>
    cases heq
    simp [h]
  next => rfl

theorem unifyBreaks_of_printable (h : ∀ c ∈ text, 0x20 ≤ c.toNat ∧ c.toNat ≤ 0x7E) :
    unifyBreaks text = text := by
  induction text with
  | nil => rfl
  | cons c cs ih =>
    have hc := h c (by simp)
    have hreturn : c ≠ '\r' := by
      rintro rfl
      exact absurd hc (by decide)
    have hnext : c ≠ '\u0085' := by
      rintro rfl
      exact absurd hc (by decide)
    rw [unifyBreaks.eq_def]
    split
    next heq => exact absurd (List.cons.inj heq).1 hreturn
    next heq =>
      cases heq
      rw [if_neg (by simp [hreturn, hnext]), ih fun d hd => h d (by simp [hd])]
    next heq => cases heq

/-- A text of printable characters needs no change before it is read. -/
theorem ofChars_of_printable (h : ∀ c ∈ text, 0x20 ≤ c.toNat ∧ c.toNat ≤ 0x7E) :
    ofChars text = .ok (place 0 0 text) := by
  have hallowed : text.all isAllowed = true :=
    List.all_eq_true.2 fun c hc => by simp [isAllowed, h c hc]
  rw [ofChars, if_pos hallowed, unifyBreaks_of_printable h]

end Source

/-! ## Plain words -/

namespace Plain

open Source

variable {line column : Nat} {word back : List Char} {d : Char}

/-- In a flow collection, a word may end before this text, wherever it stands. -/
def Ends (back : List Char) : Prop :=
  ∀ line column, readWord true (place line column back) = .ok ([], place line column back)

theorem ends_colon (text : List Char) : Ends (':' :: ' ' :: text) := by
  intro line column
  rw [place_cons (by decide), place_cons (by decide), readWord]
  rfl

theorem ends_comma (text : List Char) : Ends (',' :: text) := by
  intro line column
  rw [place_cons (by decide), readWord]
  rfl

theorem readWord_append (hword : ∀ c ∈ word, isNameChar c = true) (hback : Ends back) :
    readWord true (place line column (word ++ back)) =
      .ok (word, place line (column + word.length) back) := by
  induction word generalizing column with
  | nil => exact hback line column
  | cons c cs ih =>
    have hc := hword c (by simp)
    have hcolon : (c == ':') = false := beq_eq_false_iff_ne.2 (ne_of_isNameChar hc (by decide))
    have hsign : isFlowSign c = false := by
      simpa [isFlowSign] using not_mem_of_isNameChar hc [',', '[', ']', '\x7b', '\x7d'] (by decide)
    rw [List.cons_append, place_cons (isBreak_of_isNameChar hc), readWord]
    simp only [isGap_of_isNameChar hc, hcolon, hsign, Bool.and_false, Bool.false_and,
      Bool.false_eq_true, if_false]
    rw [ih fun d hd => hword d (by simp [hd]), List.length_cons, Nat.add_right_comm, Nat.add_assoc]
    rfl

/-- A name is a whole scalar where what follows ends it and is no gap. -/
theorem read_append (hword : IsName word) (hd : isGap d = false) (hback : Ends (d :: back))
    (indent line column : Nat) :
    read true indent (place line column (word ++ d :: back)) =
      .ok ⟨word, false, place line (column + word.length) (d :: back)⟩ := by
  obtain ⟨c, cs, rfl⟩ := List.exists_cons_of_ne_nil hword.ne_nil
  have hc := hword.chars c (by simp)
  have hfirst : place line column (c :: cs ++ d :: back) =
      ⟨c, line, column⟩ :: place line (column + 1) (cs ++ d :: back) :=
    place_cons (isBreak_of_isNameChar hc)
  have hmark : atDocumentMark (place line column (c :: cs ++ d :: back)) = false := by
    rw [hfirst, atDocumentMark, atMark_of_ne (ne_of_isNameChar hc (by decide)),
      atMark_of_ne (ne_of_isNameChar hc (by decide))]
    rfl
  have hcomment : (place line column (c :: cs ++ d :: back)).char? ≠ some '#' := by
    rw [hfirst]
    simpa [char?] using ne_of_isNameChar hc (d := '#') (by decide)
  have hend : (char? (place line (column + (c :: cs).length) (d :: back))).any isGap = false := by
    simpa [place, char?] using hd
  rw [read, hfirst, List.length_cons, readWords, ← hfirst]
  simp only [hmark, hcomment, Bool.false_or, decide_false, Bool.false_eq_true, if_false]
  rw [readWord_append hword.chars hback]
  simp only [bind, Except.bind, hend, Bool.not_false, Bool.or_true, if_true]
  rfl

end Plain

/-! ## Members of a mapping -/

/-- The members of a mapping between braces, up to its end. -/
inductive Flow where
  | done
  | word (name value : List Char) (rest : Flow)
  | nested (name : List Char) (inner rest : Flow)

namespace Flow

def text : Flow → List Char
  | done => ['\x7d']
  | word name value rest => name ++ ':' :: ' ' :: (value ++ ',' :: rest.text)
  | nested name inner rest => name ++ ':' :: ' ' :: '\x7b' :: (inner.text ++ ',' :: rest.text)

def scalarToken (word : List Char) : Token := .scalar (String.ofList word) .plain

def scalarNode (word : List Char) : Node := .scalar ⟨String.ofList word, .plain, none⟩

def tokens : Flow → List Token
  | done => [.flowMappingEnd]
  | word name value rest =>
    .key :: scalarToken name :: .value :: scalarToken value :: .comma :: rest.tokens
  | nested name inner rest =>
    .key :: scalarToken name :: .value :: .flowMappingStart ::
      (inner.tokens ++ .comma :: rest.tokens)

def pairs : Flow → List (Node × Node)
  | done => []
  | word name value rest => (scalarNode name, scalarNode value) :: rest.pairs
  | nested name inner rest => (scalarNode name, .mapping inner.pairs) :: rest.pairs

/-- How many nodes within each other the members need. -/
def depth : Flow → Nat
  | done => 0
  | word _ _ rest => max 1 rest.depth
  | nested _ inner rest => max (inner.depth + 1) rest.depth

structure IsKey (name : List Char) : Prop extends IsName name where
  length_le : name.length ≤ KeyCandidate.maxLength

def Proper : Flow → Prop
  | done => True
  | word name value rest => IsKey name ∧ IsName value ∧ rest.Proper
  | nested name inner rest => IsKey name ∧ inner.Proper ∧ rest.Proper

variable {f : Flow} {c : Char}

theorem mem_text (hf : f.Proper) (hc : c ∈ f.text) :
    isNameChar c = true ∨ c ∈ [':', ' ', ',', '\x7b', '\x7d'] := by
  induction f with
  | done => exact .inr (by simp_all [text])
  | word name value rest ih =>
    obtain ⟨hname, hvalue, hrest⟩ := hf
    simp only [text, List.mem_append, List.mem_cons] at hc
    rcases hc with hc | rfl | rfl | hc | rfl | hc
    · exact .inl (hname.chars c hc)
    · exact .inr (by simp)
    · exact .inr (by simp)
    · exact .inl (hvalue.chars c hc)
    · exact .inr (by simp)
    · exact ih hrest hc
  | nested name inner rest ihinner ihrest =>
    obtain ⟨hname, hinner, hrest⟩ := hf
    simp only [text, List.mem_append, List.mem_cons] at hc
    rcases hc with hc | rfl | rfl | rfl | hc | rfl | hc
    · exact .inl (hname.chars c hc)
    · exact .inr (by simp)
    · exact .inr (by simp)
    · exact .inr (by simp)
    · exact ihinner hinner hc
    · exact .inr (by simp)
    · exact ihrest hrest hc

theorem printable_text (hf : f.Proper) (hc : c ∈ '\x7b' :: f.text) :
    0x20 ≤ c.toNat ∧ c.toNat ≤ 0x7E := by
  rcases List.mem_cons.1 hc with rfl | hc
  · decide
  · rcases mem_text hf hc with hc | hc
    · exact toNat_of_isNameChar hc
    · simp only [List.mem_cons, List.not_mem_nil, or_false] at hc
      rcases hc with rfl | rfl | rfl | rfl | rfl <;> decide

end Flow

/-! ## From place to place -/

namespace Lexer

/-- The tokens that are read to the end, however large the bound on them is. -/
def Runs (l : Lexer) (r : Except YamlFault (List Token)) : Prop :=
  ∀ fuel, l.source.length < fuel → l.run fuel = r

/-- Within the first line, where no block is open.  The last token comes first. -/
def onLine (column : Nat) (text : List Char) (tokens : List Token) (key : Option KeyCandidate)
    (outer : List (Option KeyCandidate)) (allowed : Bool) : Lexer :=
  ⟨Source.place 0 column text, tokens, tokens.length, [], key, outer, allowed⟩

/-- Characters that the lexer skips, or that may stand for more than a token of their own. -/
def isIdle (c : Char) : Bool :=
  [' ', '\t', '\n', '\u2028', '\u2029', '\ufeff', '#', '%', '-', '.'].contains c

variable {column : Nat} {c d : Char} {text name : List Char} {ts : List Token}
  {key o : Option KeyCandidate} {outer : List (Option KeyCandidate)} {allowed : Bool}
  {l l' : Lexer} {r : Except YamlFault (List Token)}

theorem isIdle_of_isNameChar (hc : isNameChar c = true) : isIdle c = false := by
  simpa only [isIdle, List.contains_eq_mem, decide_eq_false_iff_not] using
    not_mem_of_isNameChar hc _ (by decide)

theorem isBreak_of_not_isIdle (hc : isIdle c = false) : isBreak c = false := by
  simp only [isIdle, List.contains_eq_mem, List.mem_cons, List.not_mem_nil, or_false,
    decide_eq_false_iff_not, not_or] at hc
  simp [isBreak, hc]

theorem closeBlocks_of_nil (h : l.blocks = []) (holds : Nat → Bool) : l.closeBlocks holds = l := by
  cases l
  cases h
  simp [closeBlocks]

theorem skip_of_not_isIdle (hc : isIdle c = false) (inFlow : Bool) {line : Nat} {rest : Source} :
    skip inFlow false allowed (⟨c, line, column⟩ :: rest) =
      (allowed, ⟨c, line, column⟩ :: rest) := by
  simp only [isIdle, List.contains_eq_mem, List.mem_cons, List.not_mem_nil, or_false,
    decide_eq_false_iff_not, not_or] at hc
  simp [skip, isBreak, Spot.isByteOrderMark, hc]

theorem skip_space (inFlow : Bool) {line : Nat} {rest : Source} :
    skip inFlow false allowed (⟨' ', line, column⟩ :: rest) = skip inFlow false allowed rest := by
  simp [skip, isBreak]

/-- On the line nothing happens between two tokens, as long as the candidate is near. -/
theorem run_onLine (hc : isIdle c = false) (hkey : key.all (·.reaches ⟨c, 0, column⟩))
    (fuel : Nat) :
    (onLine column (c :: text) ts key outer allowed).run (fuel + 1) =
      ((onLine column (c :: text) ts key outer allowed).readToken ⟨c, 0, column⟩
        (Source.place 0 (column + 1) text) >>= (·.run fuel)) := by
  rw [run]
  simp only [onLine, Source.place_cons (isBreak_of_not_isIdle hc), skip_of_not_isIdle hc, dropStale,
    hkey, if_true, bind, Except.bind, closeBlocks_of_nil]

theorem Runs.of_readToken (hc : isIdle c = false) (hkey : key.all (·.reaches ⟨c, 0, column⟩))
    (hread : (onLine column (c :: text) ts key outer allowed).readToken ⟨c, 0, column⟩
      (Source.place 0 (column + 1) text) = .ok l')
    (hlength : l'.source.length ≤ text.length) (h : Runs l' r) :
    Runs (onLine column (c :: text) ts key outer allowed) r := by
  intro fuel hfuel
  obtain ⟨fuel, rfl⟩ := Nat.exists_eq_add_of_lt hfuel
  rw [run_onLine hc hkey, hread]
  refine h _ ?_
  simp only [onLine, Source.length_place, List.length_cons]
  omega

theorem Runs.of_space (h : Runs (onLine (column + 1) text ts key outer allowed) r) :
    Runs (onLine column (' ' :: text) ts key outer allowed) r := by
  intro fuel hfuel
  rw [← h fuel (by simp only [onLine, Source.length_place, List.length_cons] at hfuel ⊢; omega)]
  cases fuel with
  | zero => rfl
  | succ fuel =>
    simp only [run, onLine, Source.place_cons (show isBreak ' ' = false by decide), skip_space,
      inFlow]
    split
    · simp only [closeBlocks_of_nil, dropKey]
      cases dropCandidate key <;> rfl
    · rfl

/-- Neither a directive nor a mark of the document begins with such a character. -/
theorem not_between (hc : isIdle c = false) :
    ¬ (column = 0 ∧ c = '%') ∧
      ¬ (onLine column (c :: text) ts key outer allowed).source.atMark '-' = true ∧
      ¬ (onLine column (c :: text) ts key outer allowed).source.atMark '.' = true := by
  have hbreak := isBreak_of_not_isIdle hc
  simp only [isIdle, List.contains_eq_mem, List.mem_cons, List.not_mem_nil, or_false,
    decide_eq_false_iff_not, not_or] at hc
  refine ⟨by simp [hc], ?_, ?_⟩ <;>
    simp [onLine, Source.place_cons hbreak, Source.atMark_of_ne, hc]

theorem Runs.of_open
    (h : Runs (onLine (column + 1) text (.flowMappingStart :: ts) none (none :: outer) true) r) :
    Runs (onLine column ('\x7b' :: text) ts none outer false) r := by
  obtain ⟨hdirective, hstart, hend⟩ := not_between (c := '\x7b') rfl
  refine .of_readToken rfl rfl ?_ (Nat.le_of_eq (Source.length_place _ _ _)) h
  rw [readToken, if_neg hdirective, if_neg hstart, if_neg hend]
  rfl

theorem Runs.of_close
    (h : Runs (onLine (column + 1) text (.flowMappingEnd :: ts) o outer false) r) :
    Runs (onLine column ('\x7d' :: text) ts none (o :: outer) allowed) r := by
  obtain ⟨hdirective, hstart, hend⟩ := not_between (c := '\x7d') rfl
  refine .of_readToken rfl rfl ?_ (Nat.le_of_eq (Source.length_place _ _ _)) h
  rw [readToken, if_neg hdirective, if_neg hstart, if_neg hend]
  rfl

theorem Runs.of_comma
    (h : Runs (onLine (column + 1) text (.comma :: ts) none (o :: outer) true) r) :
    Runs (onLine column (',' :: text) ts none (o :: outer) allowed) r := by
  obtain ⟨hdirective, hstart, hend⟩ := not_between (c := ',') rfl
  refine .of_readToken rfl rfl ?_ (Nat.le_of_eq (Source.length_place _ _ _)) h
  rw [readToken, if_neg hdirective, if_neg hstart, if_neg hend]
  rfl

/-- The colon puts the sign of a key before the token of the candidate. -/
theorem Runs.of_colon {start : Nat} {t : Token} (hreach : column ≤ start + KeyCandidate.maxLength)
    (h : Runs (onLine (column + 1) text (.value :: t :: .key :: ts) none (o :: outer) false) r) :
    Runs (onLine column (':' :: text) (t :: ts) (some ⟨false, ts.length, 0, start⟩) (o :: outer)
      allowed) r := by
  obtain ⟨hdirective, hstart, hend⟩ := not_between (c := ':') rfl
  refine .of_readToken rfl ?_ ?_ (Nat.le_of_eq (Source.length_place _ _ _)) h
  · simpa [KeyCandidate.reaches] using hreach
  · rw [readToken, if_neg hdirective, if_neg hstart, if_neg hend]
    have hinsert : (t :: ts).insertIdx ((t :: ts).length - ts.length) .key = t :: .key :: ts := by
      simp
    simp only [onLine, inFlow, List.isEmpty_cons, Bool.not_false, Bool.true_or, if_true, readValue,
      insert, hinsert, openBlock]
    rfl

theorem readToken_of_isNameChar (hc : isNameChar c = true) :
    (onLine column (c :: text) ts key outer allowed).readToken ⟨c, 0, column⟩
        (Source.place 0 (column + 1) text) =
      (onLine column (c :: text) ts key outer allowed).readPlain ⟨c, 0, column⟩ := by
  obtain ⟨hdirective, hstart, hend⟩ := not_between (isIdle_of_isNameChar hc)
  rw [readToken, if_neg hdirective, if_neg hstart, if_neg hend]
  -- Every other branch is for a sign, and only the last one is left for a name.
  split
  case h_20 =>
    rw [isGap_of_isNameChar hc]
    rfl
  all_goals
    rename_i heq
    exact absurd hc (by rw [show c = _ from heq]; decide)

theorem Runs.of_name {back : List Char} (hname : IsName name) (hd : isGap d = false)
    (hback : Plain.Ends (d :: back))
    (h : Runs (onLine (column + name.length) (d :: back) (Flow.scalarToken name :: ts)
      (if allowed then some ⟨false, ts.length, 0, column⟩ else none) (o :: outer) false) r) :
    Runs (onLine column (name ++ d :: back) ts none (o :: outer) allowed) r := by
  have hread := Plain.read_append hname hd hback 0 0 column
  obtain ⟨c, cs, rfl⟩ := List.exists_cons_of_ne_nil hname.ne_nil
  have hc := hname.chars c (by simp)
  rw [List.cons_append] at hread ⊢
  refine .of_readToken (isIdle_of_isNameChar hc) rfl ?_ ?_ h
  · rw [readToken_of_isNameChar hc]
    cases allowed <;>
      simp [readPlain, saveKey, dropKey, dropCandidate, inFlow, nextIndent, onLine, emit, hread,
        Flow.scalarToken, bind, Except.bind, pure, Except.pure]
  · simp [onLine, Source.length_place]

theorem Runs.of_key (hname : Flow.IsKey name)
    (h : ∀ column, Runs (onLine column text (.value :: Flow.scalarToken name :: .key :: ts) none
      (o :: outer) false) r) :
    Runs (onLine column (name ++ ':' :: ' ' :: text) ts none (o :: outer) true) r :=
  .of_name hname.toIsName (by decide) (Plain.ends_colon text) <|
    .of_colon (Nat.add_le_add_left hname.length_le _) (.of_space (h _))

theorem Runs.of_value {value : List Char} (hvalue : IsName value)
    (h : ∀ column, Runs (onLine column text (.comma :: Flow.scalarToken value :: ts) none
      (o :: outer) true) r) :
    Runs (onLine column (value ++ ',' :: text) ts none (o :: outer) false) r :=
  .of_name hvalue (by decide) (Plain.ends_comma text) (.of_comma (h _))

/-- Members are read as their tokens, and the candidate outside of them is looked at again. -/
theorem Runs.of_flow {f : Flow} (hf : f.Proper)
    (h : ∀ column, Runs (onLine column text (f.tokens.reverse ++ ts) o outer false) r) :
    Runs (onLine column (f.text ++ text) ts none (o :: outer) true) r := by
  induction f generalizing column text ts o outer with
  | done => exact .of_close (h _)
  | word name value rest ih =>
    obtain ⟨hname, hvalue, hrest⟩ := hf
    simp only [Flow.text, Flow.tokens, List.append_assoc, List.cons_append, List.reverse_cons,
      List.nil_append] at h ⊢
    exact .of_key hname fun _ => .of_value hvalue fun _ => ih hrest h
  | nested name inner rest ihinner ihrest =>
    obtain ⟨hname, hinner, hrest⟩ := hf
    simp only [Flow.text, Flow.tokens, List.append_assoc, List.cons_append, List.reverse_cons,
      List.reverse_append, List.nil_append] at h ⊢
    refine .of_key hname fun _ => .of_open ?_
    exact ihinner hinner fun _ => .of_comma (ihrest hrest h)

/-- A candidate that need not be a key is given up at the end. -/
theorem runs_end (hkey : key.all (! ·.required)) :
    Runs (onLine column [] ts key [] allowed) (.ok ts.reverse) := by
  intro fuel hfuel
  obtain ⟨fuel, rfl⟩ := Nat.exists_eq_add_of_lt hfuel
  rw [run]
  cases key with
  | none => rfl
  | some k =>
    have hk : k.required = false := by simpa using hkey
    simp [onLine, Source.place, skip, closeBlocks, dropKey, dropCandidate, hk, bind, Except.bind,
      pure, Except.pure]

/-- The outermost brace might itself begin a key. -/
theorem runs_start {f : Flow} (hf : f.Proper) :
    Runs (onLine 0 ('\x7b' :: f.text) [] none [] true) (.ok (.flowMappingStart :: f.tokens)) := by
  obtain ⟨hdirective, hstart, hend⟩ := not_between (c := '\x7b') rfl
  have hopen : (onLine 0 ('\x7b' :: f.text) [] none [] true).readToken ⟨'\x7b', 0, 0⟩
      (Source.place 0 1 f.text) =
        .ok (onLine 1 f.text [.flowMappingStart] none [some ⟨false, 0, 0, 0⟩] true) := by
    rw [readToken, if_neg hdirective, if_neg hstart, if_neg hend]
    rfl
  have hmembers : Runs (onLine 1 (f.text ++ []) [.flowMappingStart] none
      [some ⟨false, 0, 0, 0⟩] true) (.ok (f.tokens.reverse ++ [Token.flowMappingStart]).reverse) :=
    .of_flow hf fun _ => runs_end rfl
  rw [List.append_nil, List.reverse_append, List.reverse_reverse] at hmembers
  exact .of_readToken rfl rfl hopen (Nat.le_of_eq (Source.length_place _ _ _)) hmembers

end Lexer

theorem Token.ofSource_flow {f : Flow} (hf : f.Proper) :
    Token.ofSource (Source.place 0 0 ('\x7b' :: f.text)) = .ok (.flowMappingStart :: f.tokens) :=
  Lexer.runs_start hf _ (Nat.lt_succ_self _)

/-! ## From tokens to nodes -/

namespace Node.Reader

variable {d fuel : Nat} {w : List Char} {t : Token} {ts : List Token}
  {names : List (String × Nat)} {anchored : List Anchored} {handles : List (String × Tag)}
  {v : Node} {p : Node × Node} {ps : List (Node × Node)} {r r' : Reading}

/-- The pairs of a mapping between braces, each of whose nodes goes at most so deep. -/
abbrev members (d : Nat) (first : Bool) (fuel : Nat) : Reader (List (Node × Node)) :=
  flowMembers .flowMappingEnd (flowKeyed (node d .inFlow)) first fuel

theorem node_scalarToken (position : Position) :
    (node (d + 1) position).run ⟨Flow.scalarToken w :: ts, names, anchored, handles⟩ =
      .ok (Flow.scalarNode w, ⟨ts, names, anchored, handles⟩) := rfl

theorem node_mapping {position : Position}
    (h : (members d true (ts.length + 1)).run ⟨ts, names, anchored, handles⟩ = .ok (ps, r)) :
    (node (d + 1) position).run ⟨.flowMappingStart :: ts, names, anchored, handles⟩ =
      .ok (.mapping ps, r) := by
  have hnode : (node (d + 1) position).run ⟨.flowMappingStart :: ts, names, anchored, handles⟩ =
      ((mapping <$> members d true (ts.length + 1)) >>= pure).run
        ⟨ts, names, anchored, handles⟩ := rfl
  rw [hnode, bind_pure, StateT.run_map, h]
  rfl

theorem flowKeyed_run (ht : [.comma, .flowMappingEnd].contains t = false)
    (h : (node (d + 1) .inFlow).run ⟨t :: ts, names, anchored, handles⟩ = .ok (v, r)) :
    (flowKeyed (node (d + 1) .inFlow)).run
        ⟨.key :: Flow.scalarToken w :: .value :: t :: ts, names, anchored, handles⟩ =
      .ok ((Flow.scalarNode w, v), r) := by
  have hempty : (orEmpty [.comma, .flowMappingEnd] (node (d + 1) .inFlow)).run
        ⟨t :: ts, names, anchored, handles⟩ =
      (if [.comma, .flowMappingEnd].contains t then (pure empty : Reader Node)
        else node (d + 1) .inFlow).run ⟨t :: ts, names, anchored, handles⟩ := rfl
  have hpair : (flowKeyed (node (d + 1) .inFlow)).run
        ⟨.key :: Flow.scalarToken w :: .value :: t :: ts, names, anchored, handles⟩ =
      ((orEmpty [.comma, .flowMappingEnd] (node (d + 1) .inFlow)).run
          ⟨t :: ts, names, anchored, handles⟩ >>=
        fun q => .ok ((Flow.scalarNode w, q.1), q.2)) := rfl
  rw [hpair, hempty, ht, if_neg Bool.false_ne_true, h]
  rfl

theorem members_cons
    (hp : (flowKeyed (node d .inFlow)).run ⟨.key :: ts, names, anchored, handles⟩ = .ok (p, r))
    (hps : (members d false fuel).run r = .ok (ps, r')) :
    (members d true (fuel + 1)).run ⟨.key :: ts, names, anchored, handles⟩ =
      .ok (p :: ps, r') := by
  have hstep : (members d true (fuel + 1)).run ⟨.key :: ts, names, anchored, handles⟩ =
      ((flowKeyed (node d .inFlow)).run ⟨.key :: ts, names, anchored, handles⟩ >>=
        fun q => (members d false fuel).run q.2 >>= fun qs => .ok (q.1 :: qs.1, qs.2)) := rfl
  rw [hstep, hp]
  change ((members d false fuel).run r >>= _) = _
  rw [hps]
  rfl

/-- After a comma, members are read as they are at the beginning. -/
theorem members_comma (f : Flow) :
    (members d false fuel).run ⟨.comma :: (f.tokens ++ ts), names, anchored, handles⟩ =
      (members d true fuel).run ⟨f.tokens ++ ts, names, anchored, handles⟩ := by
  cases fuel <;> cases f <;> rfl

theorem members_tokens {f : Flow} (hdepth : f.depth ≤ d) (hfuel : f.tokens.length ≤ fuel) :
    (members d true fuel).run ⟨f.tokens ++ ts, names, anchored, handles⟩ =
      .ok (f.pairs, ⟨ts, names, anchored, handles⟩) := by
  induction f generalizing d fuel ts with
  | done =>
    obtain ⟨fuel, rfl⟩ := Nat.exists_eq_add_of_lt hfuel
    rfl
  | word name value rest ih =>
    simp only [Flow.depth, Nat.max_le, Flow.tokens, List.length_cons] at hdepth hfuel
    obtain ⟨d, rfl⟩ := Nat.exists_eq_succ_of_ne_zero (Nat.ne_of_gt hdepth.1)
    obtain ⟨fuel, rfl⟩ := Nat.exists_eq_succ_of_ne_zero (Nat.ne_of_gt (Nat.zero_lt_of_lt hfuel))
    have hrest : (members (d + 1) true fuel).run ⟨rest.tokens ++ ts, names, anchored, handles⟩ =
        .ok (rest.pairs, ⟨ts, names, anchored, handles⟩) := ih hdepth.2 (by omega)
    rw [← members_comma] at hrest
    exact members_cons (flowKeyed_run rfl (node_scalarToken .inFlow)) hrest
  | nested name inner rest ihinner ihrest =>
    simp only [Flow.depth, Nat.max_le, Flow.tokens, List.length_cons, List.length_append]
      at hdepth hfuel
    obtain ⟨d, rfl⟩ := Nat.exists_eq_succ_of_ne_zero (Nat.ne_of_gt (Nat.zero_lt_of_lt hdepth.1))
    obtain ⟨fuel, rfl⟩ := Nat.exists_eq_succ_of_ne_zero (Nat.ne_of_gt (Nat.zero_lt_of_lt hfuel))
    have hinner : (members d true ((inner.tokens ++ .comma :: (rest.tokens ++ ts)).length + 1)).run
          ⟨inner.tokens ++ .comma :: (rest.tokens ++ ts), names, anchored, handles⟩ =
        .ok (inner.pairs, ⟨.comma :: (rest.tokens ++ ts), names, anchored, handles⟩) :=
      ihinner (Nat.le_of_succ_le_succ hdepth.1) (by simp only [List.length_append]; omega)
    have hrest : (members (d + 1) true fuel).run ⟨rest.tokens ++ ts, names, anchored, handles⟩ =
        .ok (rest.pairs, ⟨ts, names, anchored, handles⟩) := ihrest hdepth.2 (by omega)
    rw [← members_comma] at hrest
    have htokens : (Flow.nested name inner rest).tokens ++ ts =
        .key :: Flow.scalarToken name :: .value :: .flowMappingStart ::
          (inner.tokens ++ .comma :: (rest.tokens ++ ts)) := by
      simp [Flow.tokens]
    rw [htokens]
    exact members_cons (flowKeyed_run rfl (node_mapping hinner)) hrest

theorem document_flow {f : Flow} (hdepth : f.depth < maxDepth) :
    document.run ⟨.flowMappingStart :: f.tokens, [], [], []⟩ =
      .ok (.mapping f.pairs, ⟨[], [], [], usualHandles⟩) := by
  have hnode : (node maxDepth .inBlock).run
        ⟨.flowMappingStart :: (f.tokens ++ []), [], [], usualHandles⟩ =
      .ok (.mapping f.pairs, ⟨[], [], [], usualHandles⟩) :=
    node_mapping (d := maxDepth - 1) (members_tokens (Nat.le_of_lt_succ hdepth) (by simp))
  have hdocument : document.run ⟨.flowMappingStart :: f.tokens, [], [], []⟩ =
      (do
        let n ← node maxDepth .inBlock
        closing
        if (← peek).isSome then throw .manyDocuments else return n : Reader Node).run
          ⟨.flowMappingStart :: f.tokens, [], [], usualHandles⟩ := rfl
  rw [List.append_nil] at hnode
  rw [hdocument, StateT.run_bind, hnode]
  rfl

end Node.Reader

/-- A mapping between braces is read as the pairs that it shows. -/
theorem Document.parse_flow {f : Flow} (hf : f.Proper) (hdepth : f.depth < Node.Reader.maxDepth) :
    parse ('\x7b' :: f.text) = .ok ⟨.mapping f.pairs, []⟩ := by
  rw [parse, Source.ofChars_of_printable fun _ => Flow.printable_text hf]
  change (Token.ofSource _ >>= ofTokens) = _
  rw [Token.ofSource_flow hf]
  change ofTokens _ = _
  rw [ofTokens, Node.Reader.document_flow hdepth]
  rfl

end AuditTrail.Yaml
