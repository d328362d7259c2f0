import AuditTrail.Cache
import AuditTrail.Config.Load
import AuditTrail.Proofs.Text.Numeral
import AuditTrail.Proofs.Yaml.Flow

/-!
# Accepted settings

Which settings of the cache get past the checks, and what becomes of them.  There must be room for
an entry, and nothing else is asked: whatever the lifetimes are, a text can be written that chooses
them and is accepted (`CacheSettings.ofText_written`).  A cache whose entries are to be kept for
more than a thousand years cannot be built, though, and the host crashes on such settings when it
starts (`accepted_builds_iff`).
-/

namespace AuditTrail

/-! ## What can be built -/

namespace Cache

theorem ofSettings_eq_ok_iff {c : Config.CacheSettings} {cache : Cache} :
    ofSettings c = .ok cache ↔
      (∀ t ∈ lifetimes c, t ≤ maxLifetime) ∧
        cache = new (c.maxCapacity ≠ 0 && (lifetimes c).all (· ≠ 0)) := by
  unfold ofSettings
  split
  next hlong =>
    obtain ⟨t, ht, hlt⟩ := List.any_eq_true.1 hlong
    refine ⟨nofun, fun h => absurd (h.1 t ht) ?_⟩
    simpa using hlt
  next hshort =>
    have hle : ∀ t ∈ lifetimes c, t ≤ maxLifetime := by simpa using hshort
    exact ⟨fun h => ⟨hle, (Except.ok.inj h).symm⟩, fun h => congrArg Except.ok h.2.symm⟩

theorem ofSettings_eq_crash_iff {c : Config.CacheSettings} :
    ofSettings c = Build.crash .lifetimeTooLong ↔
      ∃ t ∈ lifetimes c, maxLifetime < t := by
  unfold ofSettings
  split
  next hlong => simpa using hlong
  next hshort =>
    refine ⟨nofun, fun h => absurd ?_ hshort⟩
    simpa using h

end Cache

namespace Config

open Yaml (Document Flow IsName Node Scalar)

variable {d : Document} {x : UInt64}

theorem wholeNumber?_toDigits (n : Nat) : wholeNumber? (Nat.toDigits 10 n) = some n := by
  by_cases hn : n = 0
  · subst hn
    decide
  · have hnumber : Text.number? 10 (Nat.toDigits 10 n) = some n :=
      Text.number?_eq_some_iff.2 (Text.numeral_toDigits n)
    obtain ⟨k, hk, ds, hds, hzero⟩ := Text.exists_toDigits n
    have hsigns : ∀ k < 10, Nat.digitChar k ≠ '+' ∧ (k ≠ 0 → Nat.digitChar k ≠ '0') := by decide
    obtain ⟨hplus, hdigit⟩ := hsigns k hk
    have hfirst : Nat.digitChar k ≠ '0' := hdigit fun h => hn (hzero h)
    rw [hds] at hnumber ⊢
    have hunsigned : unsigned? (Nat.digitChar k :: ds) = some n := by
      unfold unsigned?
      split
      case h_5 => exact hnumber
      all_goals
        rename_i heq
        exact absurd (List.cons.inj heq).1 hfirst
    unfold wholeNumber?
    split
    next heq => exact absurd (List.cons.inj heq).1 hplus
    next => exact hunsigned

/-- A number as it may be written. -/
def digits (x : UInt64) : List Char := Nat.toDigits 10 x.toNat

theorem isName_digits (x : UInt64) : IsName (digits x) where
  ne_nil := (Text.numeral_toDigits x.toNat).ne_nil
  chars c hc := by
    simp [Yaml.isNameChar, Char.isAlphanum, Nat.isDigit_of_mem_toDigits (by decide) (by decide) hc]

theorem isNothing_digits (x : UInt64) :
    (Scalar.mk (String.ofList (digits x)) .plain none).isNothing = false := by
  obtain ⟨k, hk, ds, hds, -⟩ := Text.exists_toDigits x.toNat
  have hwords : ∀ w ∈ "" :: Scalar.nullWords, ∀ k < 10,
      w.toList.head? ≠ some (Nat.digitChar k) := by
    decide
  have hne : ∀ w ∈ "" :: Scalar.nullWords, String.ofList (digits x) ≠ w := by
    intro w hw heq
    refine hwords w hw k hk ?_
    rw [← heq, String.toList_ofList, digits, hds]
    rfl
  have hempty : (String.ofList (digits x)).isEmpty = false := by
    simpa using hne "" List.mem_cons_self
  have hnull : Scalar.nullWords.contains (String.ofList (digits x)) = false := by
    simp only [List.contains_eq_mem, decide_eq_false_iff_not]
    exact fun hmem => hne _ (List.mem_cons_of_mem _ hmem) rfl
  simp only [Scalar.isNothing, hempty, hnull, Bool.or_self, Bool.and_false]

/-! ## Decoding what was written -/

theorem decodeNumber_digits (x : UInt64) :
    (decodeNumber (Flow.scalarNode (digits x))).run d = .ok x := by
  have hresolve : (resolve (Flow.scalarNode (digits x))).run d =
      .ok (Flow.scalarNode (digits x)) := rfl
  have hsize : x.toNat < UInt64.size := x.toNat_lt
  rw [decodeNumber, ReaderT.run_bind, hresolve]
  simp only [bind, Except.bind, Flow.scalarNode, digits, String.toList_ofList,
    wholeNumber?_toDigits, mayBeNumber, beq_self_eq_true, Bool.true_or, hsize, decide_true,
    Bool.and_self, if_true, UInt64.ofNat_toNat]
  rfl

theorem decodeOptional_digits (x : UInt64) :
    (decodeOptional decodeNumber (Flow.scalarNode (digits x))).run d = .ok (some x) := by
  have hread : (decodeOptional decodeNumber (Flow.scalarNode (digits x))).run d =
      (if (Scalar.mk (String.ofList (digits x)) .plain none).isNothing then pure none
        else some <$> decodeNumber (Flow.scalarNode (digits x)) :
          Decoded (Option UInt64)).run d := rfl
  rw [hread, isNothing_digits, if_neg Bool.false_ne_true, ReaderT.run_map, decodeNumber_digits]
  rfl

/-- What has been decoded is put into a section. -/
theorem run_return {α σ : Type} {decode : Decoded α} {a : α} (h : decode.run d = .ok a)
    (put : α → σ) : (return put (← decode) : Decoded σ).run d = .ok (put a) := by
  rw [ReaderT.run_bind, h]
  rfl

/-- A pair whose key is known and new leaves its value in the section. -/
theorem Field.putAll_cons {σ : Type} {fields : List (Field σ)} {f : Field σ} {given : List String}
    {s s' : σ} {name : String} {value : Node} {pairs : List (Node × Node)}
    (hfind : fields.find? (·.answersTo name) = some f) (hgiven : given.contains f.name = false)
    (hput : (f.put s value).run d = .ok s') :
    (putAll fields given s ((Flow.scalarNode name.toList, value) :: pairs)).run d =
      (putAll fields (f.name :: given) s' pairs).run d := by
  have hkey : (decodeText (Flow.scalarNode name.toList)).run d = .ok name :=
    congrArg Except.ok String.ofList_toList
  rw [putAll, ReaderT.run_bind, hkey]
  simp only [bind, Except.bind, hfind, hgiven, Bool.false_eq_true, if_false]
  change ((f.put s value).run d >>= _) = _
  rw [hput]
  rfl

/-! ## A text for any settings of the cache -/

namespace CacheSettings

def optionalMember (name : String) (value : Option UInt64) (rest : Flow) : Flow :=
  match value with
  | some x => .word name.toList (digits x) rest
  | none => rest

def members (c : CacheSettings) : Flow :=
  .word "max_capacity".toList (digits c.maxCapacity) <|
    optionalMember "time_to_live_millis" c.timeToLive <|
      optionalMember "time_to_idle_millis" c.timeToIdle .done

def sections (c : CacheSettings) : Flow := .nested "whitelist_cache".toList c.members .done

/-- A text that chooses these settings of the cache and nothing else. -/
def written (c : CacheSettings) : String := String.ofList ('\x7b' :: c.sections.text)

theorem isKey_of_all {name : List Char}
    (h : name ≠ [] ∧ name.all Yaml.isNameChar = true ∧ name.length ≤ 1024) : Flow.IsKey name :=
  ⟨⟨h.1, List.all_eq_true.1 h.2.1⟩, h.2.2⟩

theorem proper_optionalMember {name : String} (hname : Flow.IsKey name.toList)
    (value : Option UInt64) {rest : Flow} (hrest : rest.Proper) :
    (optionalMember name value rest).Proper := by
  cases value with
  | none => exact hrest
  | some x => exact ⟨hname, isName_digits x, hrest⟩

theorem proper_sections (c : CacheSettings) : c.sections.Proper := by
  refine ⟨isKey_of_all (by decide), ⟨isKey_of_all (by decide), isName_digits _, ?_⟩, trivial⟩
  refine proper_optionalMember (isKey_of_all (by decide)) _ ?_
  exact proper_optionalMember (isKey_of_all (by decide)) _ trivial

theorem depth_sections (c : CacheSettings) : c.sections.depth < Node.Reader.maxDepth := by
  obtain ⟨capacity, live, idle⟩ := c
  cases live <;> cases idle <;> exact (show 2 < 128 by decide)

theorem put_maxCapacity (c : CacheSettings) (x : UInt64) :
    (fields[0].put c (Flow.scalarNode (digits x))).run d = .ok { c with maxCapacity := x } :=
  run_return (decodeNumber_digits x) fun n => ({ c with maxCapacity := n } : CacheSettings)

theorem put_timeToLive (c : CacheSettings) (x : UInt64) :
    (fields[1].put c (Flow.scalarNode (digits x))).run d = .ok { c with timeToLive := some x } :=
  run_return (decodeOptional_digits x) fun t => ({ c with timeToLive := t } : CacheSettings)

theorem put_timeToIdle (c : CacheSettings) (x : UInt64) :
    (fields[2].put c (Flow.scalarNode (digits x))).run d = .ok { c with timeToIdle := some x } :=
  run_return (decodeOptional_digits x) fun t => ({ c with timeToIdle := t } : CacheSettings)

theorem ofNode_members (c : CacheSettings) :
    (ofNode (.mapping c.members.pairs)).run d = .ok c := by
  obtain ⟨capacity, live, idle⟩ := c
  have hread : (ofNode (.mapping (members ⟨capacity, live, idle⟩).pairs)).run d =
      (Field.putAll fields [] {} (members ⟨capacity, live, idle⟩).pairs).run d := rfl
  rw [hread, members, Flow.pairs, Field.putAll_cons rfl rfl (put_maxCapacity _ _)]
  cases live with
  | none =>
    cases idle with
    | none => rfl
    | some idle =>
      simp only [optionalMember, Flow.pairs]
      rw [Field.putAll_cons rfl rfl (put_timeToIdle _ _)]
      rfl
  | some live =>
    rw [optionalMember, Flow.pairs, Field.putAll_cons rfl rfl (put_timeToLive _ _)]
    cases idle with
    | none => rfl
    | some idle =>
      rw [optionalMember, Flow.pairs, Field.putAll_cons rfl rfl (put_timeToIdle _ _)]
      rfl

theorem ofDocument_sections (c : CacheSettings) :
    Settings.ofDocument ⟨.mapping c.sections.pairs, []⟩ = .ok { cache := c } := by
  let d : Document := ⟨.mapping c.sections.pairs, []⟩
  have hput : (Settings.fields[3].put {} (.mapping c.members.pairs)).run d =
      .ok { cache := c } :=
    run_return (ofNode_members c) fun cache => ({ cache } : Settings)
  have hread : Settings.ofDocument d =
      (Field.putAll Settings.fields [] {} c.sections.pairs).run d := rfl
  exact hread.trans (Field.putAll_cons rfl rfl hput)

/-- Settings of the cache that leave room for an entry are accepted, whatever the lifetimes. -/
theorem ofText_written (c : CacheSettings) (hcapacity : c.maxCapacity ≠ 0) :
    ofText c.written = .ok { cache := c } := by
  have hblank : Text.isAllBlank c.written = false := by
    simp [written, Text.isAllBlank, show Text.isBlank '\x7b' = false by decide]
  have hdocument : Document.parse c.written.toList >>= Settings.ofDocument =
      .ok { cache := c } := by
    rw [written, String.toList_ofList, Document.parse_flow c.proper_sections c.depth_sections]
    exact ofDocument_sections c
  have hvalid : Settings.validate { cache := c } = .ok () :=
    Settings.validate_eq_ok_iff.2 ⟨hcapacity, rfl⟩
  rw [ofText, hblank, if_neg Bool.false_ne_true, hdocument]
  simp only [hvalid]

end CacheSettings

/-! ## What is accepted -/

/-- Settings that the host gets, from a text or from a file. -/
inductive Accepted (s : Settings) : Prop where
  | text (text : String) (h : ofText text = .ok s)
  | file (path : FilePath) (files : FileTree) (h : load path files = .ok s)

theorem ofText_eq_ok_iff {text : String} {s : Settings} :
    ofText text = .ok s ↔ (ofText text).toOption = some s := by
  cases ofText text <;> simp [Except.toOption]

instance (text : String) (s : Settings) : Decidable (ofText text = .ok s) :=
  decidable_of_iff _ ofText_eq_ok_iff.symm

variable {s : Settings} {c : CacheSettings}

theorem validate_of_ofText {text : String} (h : ofText text = .ok s) : s.validate = .ok () := by
  unfold ofText at h
  split at h
  · cases h
    rfl
  · split at h
    next => cases h
    next =>
      split at h
      next => cases h
      next hvalid =>
        cases h
        exact hvalid

theorem Accepted.exists_text (h : Accepted s) : ∃ text, ofText text = .ok s := by
  cases h with
  | text text h => exact ⟨text, h⟩
  | file path files h =>
    unfold load at h
    split at h
    · exact ⟨"", h⟩
    · split at h
      next text _ => exact ⟨text, h⟩
      next => cases h

theorem Accepted.maxCapacity_ne_zero (h : Accepted s) : s.cache.maxCapacity ≠ 0 := by
  obtain ⟨text, htext⟩ := h.exists_text
  exact (Settings.validate_eq_ok_iff.1 (validate_of_ofText htext)).1

theorem exists_accepted_iff : (∃ s, Accepted s ∧ s.cache = c) ↔ c.maxCapacity ≠ 0 := by
  constructor
  · rintro ⟨s, hs, rfl⟩
    exact hs.maxCapacity_ne_zero
  · intro h
    exact ⟨_, .text _ (c.ofText_written h), rfl⟩

/-- The checks let settings of the cache through exactly if they leave room for an entry.  Of the
settings that are accepted, the cache can be built if no lifetime is too long, and then only a
lifetime of zero keeps it from holding entries.  With a lifetime that is too long the host
crashes. -/
theorem accepted_builds_iff (c : CacheSettings) :
    ((∃ s, Accepted s ∧ s.cache = c) ↔ c.maxCapacity ≠ 0) ∧
      ∀ s, Accepted s → s.cache = c →
        (Cache.ofSettings s.cache = .ok (Cache.new ((Cache.lifetimes c).all (· ≠ 0))) ↔
            ∀ t ∈ Cache.lifetimes c, t ≤ Cache.maxLifetime) ∧
          (Cache.ofSettings s.cache = Build.crash .lifetimeTooLong ↔
            ∃ t ∈ Cache.lifetimes c, Cache.maxLifetime < t) := by
  refine ⟨exists_accepted_iff, fun s hs hc => ?_⟩
  subst hc
  refine ⟨?_, Cache.ofSettings_eq_crash_iff⟩
  rw [Cache.ofSettings_eq_ok_iff]
  refine and_iff_left ?_
  simp only [ne_eq, hs.maxCapacity_ne_zero, not_false_eq_true, decide_true, Bool.true_and]

/-- The longest lifetime that there can be. -/
theorem accepted_builds_iff_longest :
    ∃ s, ofText "whitelist_cache:\n  time_to_idle_millis: 31536000000000\n" = .ok s ∧
      Cache.ofSettings s.cache = .ok (Cache.new true) := by
  have htext : ofText "whitelist_cache:\n  time_to_idle_millis: 31536000000000\n" =
      .ok { cache := { timeToIdle := some 31536000000000 } } := by
    decide +kernel
  exact ⟨_, htext, ((accepted_builds_iff _).2 _ (.text _ htext) rfl).1.2 (by decide)⟩

/-- One millisecond more is accepted as well. -/
theorem accepted_crashes :
    ∃ s, ofText "whitelist_cache:\n  time_to_live_millis: 31536000000001\n" = .ok s ∧
      Cache.ofSettings s.cache = Build.crash .lifetimeTooLong := by
  have htext : ofText "whitelist_cache:\n  time_to_live_millis: 31536000000001\n" =
      .ok { cache := { timeToLive := some 31536000000001 } } := by
    decide +kernel
  exact ⟨_, htext, rfl⟩

end Config
end AuditTrail
