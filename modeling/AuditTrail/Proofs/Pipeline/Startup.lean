import AuditTrail.Pipeline
import AuditTrail.Proofs.Template.Placeholder
import AuditTrail.Proofs.Time.Pattern
import AuditTrail.Proofs.Time.Zone

/-!
# Starting from settings

A pipeline is built before the first record is seen: the zone is read first, then the time pattern,
then the format with its fields.  The first of them that is at fault is the error, and a template is
built only where none of them is (`Template.ofSettings_outcome`).  Only the zone can do worse: an
offset that is cut inside a character brings the host down, and nothing else here does
(`building_answers`).
-/

namespace AuditTrail

open Time Template

namespace Build

variable {α β : Type} {cut : Prop} {b : Build α} {next : α → Build β}

/-- The build comes to a value or to an error of configuration.  If `cut` holds, an offset is cut
inside a character instead, and the host crashes. -/
def AnswersUnless (cut : Prop) : Build α → Prop
  | .ok _ => ¬ cut
  | .error (.refused e) => ¬ cut ∧ e.isConfiguration = true
  | .error (.crashed c) => cut ∧ c = .offsetCutInsideCharacter

theorem AnswersUnless.bind (h : b.AnswersUnless cut) (hnext : ∀ a, (next a).AnswersUnless False) :
    (b >>= next).AnswersUnless cut := by
  cases b with
  | error f => cases f <;> exact h
  | ok a =>
    have ha : (next a).AnswersUnless False := hnext a
    change (next a).AnswersUnless cut
    cases hb : next a with
    | ok b => exact h
    | error f =>
      rw [hb] at ha
      cases f with
      | refused e => exact ⟨h, ha.2⟩
      | crashed c => exact absurd ha.1 not_false

theorem ok_bind (a : α) (next : α → Build β) : (Except.ok a >>= next) = next a := rfl

theorem answers_pure (a : α) : (pure a : Build α).AnswersUnless False := not_false

end Build

/-! ## Timestamps -/

namespace Time

variable {p id : String} {pattern? zone? : Option String} {regions : List Region}

/-- The zone of the settings cuts an offset inside a character. -/
def ZoneCuts (zone? : Option String) : Prop :=
  ∃ id, zone? = some id ∧ Zone.CutsCharacter (Zone.capitals id)

def ZoneSound (zone? : Option String) (regions : List Region) : Prop :=
  ∀ id, zone? = some id → Zone.Resolves id regions

def PatternSound (pattern? : Option String) : Prop :=
  ∀ p, pattern? = some p → Pattern.IsPattern p

theorem not_zoneCuts (h : ∀ id, zone? = some id → ∀ c, Zone.parse id regions ≠ Build.crash c) :
    ¬ ZoneCuts zone? := by
  rintro ⟨id, hid, hcut⟩
  exact h id hid _ (Zone.parse_eq_error_iff.2 (Or.inl ⟨rfl, hcut⟩))

theorem Zone.answers_parse (id : String) (regions : List Region) :
    (parse id regions).AnswersUnless (CutsCharacter (capitals id)) := by
  cases hparse : parse id regions with
  | ok zone =>
    intro hcut
    rw [parse_eq_error_iff.2 (Or.inl ⟨rfl, hcut⟩)] at hparse
    cases hparse
  | error f =>
    rcases parse_eq_error_iff.1 hparse with ⟨rfl, hcut⟩ | ⟨rfl, hcut, -⟩
    · exact ⟨hcut, rfl⟩
    · exact ⟨hcut, rfl⟩

namespace Stamp

def zoneOf (zone? : Option String) (regions : List Region) : Build Zone :=
  match zone? with
  | some id => Zone.parse id regions
  | none => .ok .system

def shown (pattern? : Option String) (zone : Zone) : Build Stamp :=
  match pattern? with
  | none => .ok millis
  | some p =>
    if p.isEmpty then .refuse (.invalidTimeFormat p .empty)
    else
      match Pattern.items? p.toList with
      | some items => .ok (pattern items zone)
      | none => .refuse (.invalidTimeFormat p .unsupported)

/-- What is wrong with a text that is no pattern. -/
def patternFault (p : String) : PatternFault := if p.isEmpty then .empty else .unsupported

theorem make_eq (pattern? zone? : Option String) (regions : List Region) :
    make pattern? zone? regions = zoneOf zone? regions >>= shown pattern? := by
  cases zone? with
  | none => cases pattern? <;> rfl
  | some id =>
    unfold make zoneOf
    cases Zone.parse id regions <;> cases pattern? <;> rfl

theorem answers_zoneOf (zone? : Option String) (regions : List Region) :
    (zoneOf zone? regions).AnswersUnless (ZoneCuts zone?) := by
  cases zone? with
  | none => exact fun ⟨id, hid, _⟩ => nomatch hid
  | some id =>
    have hcuts : ZoneCuts (some id) ↔ Zone.CutsCharacter (Zone.capitals id) := by
      simp [ZoneCuts]
    rw [hcuts]
    exact Zone.answers_parse id regions

theorem zoneOf_of_sound (hcut : ¬ ZoneCuts zone?) (h : ZoneSound zone? regions) :
    ∃ zone, zoneOf zone? regions = .ok zone := by
  cases zone? with
  | none => exact ⟨.system, rfl⟩
  | some id =>
    change ∃ zone, Zone.parse id regions = .ok zone
    cases hparse : Zone.parse id regions with
    | ok zone => exact ⟨zone, rfl⟩
    | error f =>
      rcases Zone.parse_eq_error_iff.1 hparse with ⟨-, hbad⟩ | ⟨-, -, hbad⟩
      · exact absurd ⟨id, rfl, hbad⟩ hcut
      · exact absurd (h id rfl) hbad

theorem zoneOf_of_not_resolves (hcut : ¬ ZoneCuts (some id)) (h : ¬ Zone.Resolves id regions) :
    zoneOf (some id) regions = Build.refuse (.invalidTimeZone (Zone.trimmed id)) :=
  Zone.parse_eq_error_iff.2 (Or.inr ⟨rfl, fun hbad => hcut ⟨id, rfl, hbad⟩, h⟩)

theorem shown_of_isPattern (hp : Pattern.IsPattern p) (zone : Zone) :
    ∃ stamp, shown (some p) zone = .ok stamp := by
  obtain ⟨hne, items, hitems⟩ := hp
  have hempty : p.isEmpty = false := by simpa using hne
  refine ⟨pattern items zone, ?_⟩
  simp only [shown, hempty, Pattern.items?_eq_some_iff.2 hitems, Bool.false_eq_true, if_false]

theorem shown_of_sound (h : PatternSound pattern?) (zone : Zone) :
    ∃ stamp, shown pattern? zone = .ok stamp := by
  cases pattern? with
  | none => exact ⟨millis, rfl⟩
  | some p => exact shown_of_isPattern (h p rfl) zone

theorem shown_of_not_isPattern (hp : ¬ Pattern.IsPattern p) (zone : Zone) :
    shown (some p) zone = .refuse (.invalidTimeFormat p (patternFault p)) := by
  cases hempty : p.isEmpty with
  | true => simp only [shown, patternFault, hempty, if_true]
  | false =>
    have hne : p ≠ "" := by simpa using hempty
    have hnone : Pattern.items? p.toList = none := by
      rw [Option.eq_none_iff_forall_ne_some]
      intro items hitems
      exact hp ⟨hne, items, Pattern.items?_eq_some_iff.1 hitems⟩
    simp only [shown, patternFault, hempty, hnone, Bool.false_eq_true, if_false]

theorem answers_shown (pattern? : Option String) (zone : Zone) :
    (shown pattern? zone).AnswersUnless False := by
  cases pattern? with
  | none => exact not_false
  | some p =>
    by_cases hp : Pattern.IsPattern p
    · obtain ⟨stamp, hstamp⟩ := shown_of_isPattern hp zone
      rw [hstamp]
      exact not_false
    · rw [shown_of_not_isPattern hp]
      exact ⟨not_false, rfl⟩

theorem answers_make (pattern? zone? : Option String) (regions : List Region) :
    (make pattern? zone? regions).AnswersUnless (ZoneCuts zone?) := by
  rw [make_eq]
  exact (answers_zoneOf zone? regions).bind (answers_shown pattern?)

end Stamp
end Time

/-! ## Fields -/

namespace Template

variable {format : String} {registry : Registry} {stamp : Stamp}

/-- The names of the fields in a format, in plain text and in blocks, from left to right. -/
def fieldNames (format : String) : List String :=
  (lex format.toList).filterMap fun i => i.name?.map String.ofList

def standardNames : List String :=
  ["CLIENT", "USER", "BATCH_ID", "STATUS", "OPERATION", "TIMESTAMP"]

theorem Registry.extractor?_register (registry : Registry) (name other : String)
    (extract : Extractor) :
    (registry.register name extract).extractor? other =
      if name = other then some extract else registry.extractor? other := by
  rw [extractor?, register, Std.ExtTreeMap.getElem?_insert]
  simp only [Std.LawfulEqCmp.compare_eq_iff_eq]
  rfl

theorem Registry.extractor?_standard_eq_none_iff {name : String} :
    (standard stamp).extractor? name = none ↔ name ∉ standardNames := by
  have hempty : empty.extractor? name = none := Std.ExtTreeMap.getElem?_empty
  have hstep (other : String) (extract : Extractor) (rest : Option Extractor) :
      (if other = name then some extract else rest) = none ↔ name ≠ other ∧ rest = none := by
    split <;> simp_all [eq_comm]
  simp only [standard, extractor?_register, hstep, hempty, standardNames, List.mem_cons,
    List.not_mem_nil, or_false, not_or, and_true]
  tauto

theorem mem_fieldNames {name : String} :
    name ∈ fieldNames format ↔
      ∃ i ∈ lex format.toList, ∃ chars, i.name? = some chars ∧ String.ofList chars = name := by
  simp only [fieldNames, List.mem_filterMap, Option.map_eq_some_iff]

theorem compile_eq_error {e : Error} (h : compile format registry = .error e) :
    ∃ name ∈ fieldNames format, registry.extractor? name = none ∧ e = .unknownField name := by
  have houtcome := compileInstructions_outcome registry (lex format.toList)
  rw [compile] at h
  cases hpieces : (lex format.toList).mapM (compileInstruction registry) with
  | ok pieces =>
    rw [hpieces] at h
    cases h
  | error e' =>
    rw [hpieces] at h houtcome
    cases h
    obtain ⟨i, hi, chars, hchars, hnone, he⟩ := houtcome
    exact ⟨_, mem_fieldNames.2 ⟨i, hi, chars, hchars, rfl⟩, hnone, he⟩

theorem compile_of_known (h : ∀ name ∈ fieldNames format, registry.extractor? name ≠ none) :
    ∃ t, compile format registry = .ok t := by
  cases hcompile : compile format registry with
  | ok t => exact ⟨t, rfl⟩
  | error e =>
    obtain ⟨name, hname, hnone, -⟩ := compile_eq_error hcompile
    exact absurd hnone (h name hname)

/-- Before the first unknown name every instruction compiles, and that name is the error. -/
theorem compile_of_unknown {known rest : List String} {name : String}
    (hnames : fieldNames format = known ++ name :: rest)
    (hknown : ∀ other ∈ known, registry.extractor? other ≠ none)
    (hunknown : registry.extractor? name = none) :
    compile format registry = .error (.unknownField name) := by
  obtain ⟨front, back, hsplit, hfront, hback⟩ := List.filterMap_eq_append_iff.1 hnames
  obtain ⟨plain, i, after, rfl, hplain, hi, -⟩ := List.filterMap_eq_cons_iff.1 hback
  obtain ⟨chars, hchars, rfl⟩ := Option.map_eq_some_iff.1 hi
  have hbefore : ∀ j ∈ front ++ plain, ∀ other, j.name? = some other →
      registry.extractor? (String.ofList other) ≠ none := by
    intro j hj other hother
    rcases List.mem_append.1 hj with hj | hj
    · refine hknown _ ?_
      rw [← hfront]
      exact List.mem_filterMap.2 ⟨j, hj, by rw [hother]; rfl⟩
    · have hnone := hplain j hj
      rw [hother] at hnone
      cases hnone
  have hread : ∃ pieces, (front ++ plain).mapM (compileInstruction registry) = .ok pieces := by
    have houtcome := compileInstructions_outcome registry (front ++ plain)
    cases hpieces : (front ++ plain).mapM (compileInstruction registry) with
    | ok pieces => exact ⟨pieces, rfl⟩
    | error e =>
      rw [hpieces] at houtcome
      obtain ⟨j, hj, other, hother, hnone, -⟩ := houtcome
      exact absurd hnone (hbefore j hj other hother)
  have hstop : compileInstruction registry i = .error (.unknownField (String.ofList chars)) := by
    have houtcome := compileInstruction_outcome registry i
    cases hpiece : compileInstruction registry i with
    | ok piece =>
      rw [hpiece] at houtcome
      obtain ⟨extract, hextract⟩ := houtcome chars hchars
      rw [hunknown] at hextract
      cases hextract
    | error e =>
      rw [hpiece] at houtcome
      obtain ⟨other, hother, -, rfl⟩ := houtcome
      rw [hchars] at hother
      cases hother
      rfl
  obtain ⟨pieces, hpieces⟩ := hread
  have hlex : lex format.toList = (front ++ plain) ++ i :: after := by
    rw [hsplit, List.append_assoc]
  rw [compile, hlex, List.mapM_append, hpieces, List.mapM_cons, hstop]
  rfl

theorem answers_compile (format : String) (registry : Registry) :
    (Build.ofExcept (compile format registry)).AnswersUnless False := by
  cases hcompile : compile format registry with
  | ok t => exact not_false
  | error e =>
    obtain ⟨name, -, -, rfl⟩ := compile_eq_error hcompile
    exact ⟨not_false, rfl⟩

end Template

/-! ## What building comes to -/

variable {s : Config.LoggerSettings} {regions : List Region} {e : Error}

theorem Template.ofSettings_eq (s : Config.LoggerSettings) (regions : List Region) :
    Template.ofSettings s regions =
      Stamp.zoneOf s.timeZone regions >>= fun zone => Stamp.shown s.timeFormat zone >>= fun stamp =>
        Build.ofExcept (compile s.logFormat (Registry.standard stamp)) := by
  rw [Template.ofSettings, Registry.ofSettings, Stamp.make_eq]
  simp only [bind_assoc, pure_bind]

theorem Template.Registry.answers_ofSettings (s : Config.LoggerSettings) (regions : List Region) :
    (Registry.ofSettings s regions).AnswersUnless (ZoneCuts s.timeZone) :=
  (Stamp.answers_make s.timeFormat s.timeZone regions).bind fun _ => Build.answers_pure _

theorem Template.answers_ofSettings (s : Config.LoggerSettings) (regions : List Region) :
    (Template.ofSettings s regions).AnswersUnless (ZoneCuts s.timeZone) :=
  (Registry.answers_ofSettings s regions).bind fun _ => answers_compile _ _

theorem Pipeline.answers_ofSettings (s : Config.Settings) (regions : List Region) :
    (Pipeline.ofSettings s regions).AnswersUnless (ZoneCuts s.logger.timeZone) :=
  (Template.answers_ofSettings s.logger regions).bind fun _ => Build.answers_pure _

/-- Reading a zone, and building a stamp, a registry or a pipeline from settings, gives a value or
an error of configuration unless an offset is cut inside a character, and then the host crashes.
The error of a zone has its id in the words in which it was given.  Where an offset is reckoned, no
number comes near the limits of a word. -/
theorem building_answers (regions : List Region) :
    (∀ id, (Zone.parse id regions).AnswersUnless (Zone.CutsCharacter (Zone.capitals id)) ∧
        (∀ e, Zone.parse id regions = Build.refuse e → e = .invalidTimeZone (Zone.trimmed id)) ∧
        ∀ o, Zone.parse id regions = .ok (.fixed o) →
          ∃ sign h m, Zone.SpellsOffset (Zone.capitals id) sign h m ∧
            o = sign * (h * 3600 + m * 60) ∧
            ∀ k ∈ Zone.reckoning sign h m, k.natAbs < 86400 ∧ Zone.InWord k) ∧
      (∀ pattern? zone?, (Stamp.make pattern? zone? regions).AnswersUnless (ZoneCuts zone?)) ∧
      (∀ s, (Registry.ofSettings s regions).AnswersUnless (ZoneCuts s.timeZone)) ∧
      ∀ s, (Pipeline.ofSettings s regions).AnswersUnless (ZoneCuts s.logger.timeZone) := by
  refine ⟨fun id => ⟨Zone.answers_parse id regions, fun e he => ?_, fun o ho => ?_⟩,
    fun pattern? zone? => Stamp.answers_make pattern? zone? regions,
    fun s => Registry.answers_ofSettings s regions, fun s => Pipeline.answers_ofSettings s regions⟩
  · rcases Zone.parse_eq_error_iff.1 he with ⟨hcrash, -⟩ | ⟨hrefused, -⟩
    · cases hcrash
    · cases hrefused
      rfl
  · obtain ⟨sign, h, m, hspells, hhours, hminutes, rfl⟩ := Zone.parse_eq_fixed_iff.1 ho
    exact ⟨sign, h, m, hspells, rfl,
      Zone.inWord_of_mem_reckoning hspells.sign_eq hhours hminutes⟩

/-- An id that is refused, and one whose offset is reckoned. -/
theorem building_answers_ids :
    Zone.parse " +19:00" = Build.refuse (.invalidTimeZone "+19:00") ∧
      .invalidTimeZone "+19:00" = Error.invalidTimeZone (Zone.trimmed " +19:00") ∧
      Zone.parse "gmt-0930" = .ok (.fixed (-34200)) ∧
      ∃ sign h m, Zone.SpellsOffset (Zone.capitals "gmt-0930") sign h m ∧
        -34200 = sign * (h * 3600 + m * 60) ∧
        ∀ k ∈ Zone.reckoning sign h m, k.natAbs < 86400 ∧ Zone.InWord k := by
  have hrefused : Zone.parse " +19:00" = Build.refuse (.invalidTimeZone "+19:00") := by
    decide +kernel
  have hfixed : Zone.parse "gmt-0930" = .ok (.fixed (-34200)) := by decide +kernel
  exact ⟨hrefused, ((building_answers Region.all).1 _).2.1 _ hrefused, hfixed,
    ((building_answers Region.all).1 _).2.2 _ hfixed⟩

/-- A sign and one character of three bytes crash the host, also where no pattern uses the zone. -/
theorem building_crashes :
    Zone.parse "+€" = Build.crash .offsetCutInsideCharacter ∧
      Stamp.make none (some "+€") = Build.crash .offsetCutInsideCharacter := by
  decide +kernel

/-! ## The first fault -/

/-- Settings of a log in which nothing is wrong. -/
structure Sound (s : Config.LoggerSettings) (regions : List Region) : Prop where
  zone : ZoneSound s.timeZone regions
  pattern : PatternSound s.timeFormat
  fields : ∀ name ∈ fieldNames s.logFormat, name ∈ standardNames

/-- The error is that of the first setting that is at fault: the zone before the pattern, the
pattern before the fields, and of the fields the leftmost. -/
inductive FirstFault (s : Config.LoggerSettings) (regions : List Region) : Error → Prop
  | zone {id : String} (hid : s.timeZone = some id) (hzone : ¬ Zone.Resolves id regions) :
    FirstFault s regions (.invalidTimeZone (Zone.trimmed id))
  | pattern {p : String} (hzone : ZoneSound s.timeZone regions) (hp : s.timeFormat = some p)
      (hpattern : ¬ Pattern.IsPattern p) :
    FirstFault s regions (.invalidTimeFormat p (Stamp.patternFault p))
  | field {known rest : List String} {name : String} (hzone : ZoneSound s.timeZone regions)
      (hpattern : PatternSound s.timeFormat)
      (hnames : fieldNames s.logFormat = known ++ name :: rest)
      (hknown : ∀ other ∈ known, other ∈ standardNames) (hname : name ∉ standardNames) :
    FirstFault s regions (.unknownField name)

theorem FirstFault.isConfiguration (h : FirstFault s regions e) : e.isConfiguration = true := by
  cases h <;> rfl

/-- What is set by default is sound. -/
theorem sound_default (regions : List Region) : Sound {} regions where
  zone := nofun
  pattern := nofun
  fields := by decide +kernel

theorem sound_or_firstFault (s : Config.LoggerSettings) (regions : List Region) :
    Sound s regions ∨ ∃ e, FirstFault s regions e := by
  by_cases hzone : ZoneSound s.timeZone regions
  case neg =>
    unfold ZoneSound at hzone
    push Not at hzone
    obtain ⟨id, hid, hbad⟩ := hzone
    exact Or.inr ⟨_, .zone hid hbad⟩
  by_cases hpattern : PatternSound s.timeFormat
  case neg =>
    unfold PatternSound at hpattern
    push Not at hpattern
    obtain ⟨p, hp, hbad⟩ := hpattern
    exact Or.inr ⟨_, .pattern hzone hp hbad⟩
  cases hfind : (fieldNames s.logFormat).find? (· ∉ standardNames) with
  | none => exact Or.inl ⟨hzone, hpattern, by simpa using hfind⟩
  | some name =>
    obtain ⟨hname, known, rest, hnames, hknown⟩ := List.find?_eq_some_iff_append.1 hfind
    exact Or.inr ⟨_, .field hzone hpattern hnames (by simpa using hknown) (by simpa using hname)⟩

theorem Template.ofSettings_of_sound (hcut : ¬ ZoneCuts s.timeZone) (h : Sound s regions) :
    ∃ t, Template.ofSettings s regions = .ok t := by
  obtain ⟨zone, hzone⟩ := Stamp.zoneOf_of_sound hcut h.zone
  obtain ⟨stamp, hstamp⟩ := Stamp.shown_of_sound h.pattern zone
  obtain ⟨t, ht⟩ : ∃ t, compile s.logFormat (Registry.standard stamp) = .ok t :=
    compile_of_known fun name hname hnone =>
      Registry.extractor?_standard_eq_none_iff.1 hnone (h.fields name hname)
  refine ⟨t, ?_⟩
  rw [ofSettings_eq, hzone, Build.ok_bind, hstamp, Build.ok_bind, ht]
  rfl

theorem Template.ofSettings_of_firstFault (hcut : ¬ ZoneCuts s.timeZone)
    (h : FirstFault s regions e) : Template.ofSettings s regions = Build.refuse e := by
  rw [ofSettings_eq]
  cases h with
  | zone hid hzone =>
    rw [hid] at hcut ⊢
    rw [Stamp.zoneOf_of_not_resolves hcut hzone]
    rfl
  | pattern hzone hp hpattern =>
    obtain ⟨zone, hzone⟩ := Stamp.zoneOf_of_sound hcut hzone
    rw [hzone, Build.ok_bind, hp, Stamp.shown_of_not_isPattern hpattern]
    rfl
  | field hzone hpattern hnames hknown hname =>
    obtain ⟨zone, hzone⟩ := Stamp.zoneOf_of_sound hcut hzone
    obtain ⟨stamp, hstamp⟩ := Stamp.shown_of_sound hpattern zone
    have hcompile : compile s.logFormat (Registry.standard stamp) = .error (.unknownField _) :=
      compile_of_unknown hnames
        (fun other hother hnone =>
          Registry.extractor?_standard_eq_none_iff.1 hnone (hknown other hother))
        (Registry.extractor?_standard_eq_none_iff.2 hname)
    rw [hzone, Build.ok_bind, hstamp, Build.ok_bind, hcompile]
    rfl

/-- Where the zone does not crash the host, a template is built exactly from sound settings, and the
error of others is that of the first fault. -/
theorem Template.ofSettings_outcome (s : Config.LoggerSettings) (regions : List Region)
    (hreturns : ∀ id, s.timeZone = some id → ∀ c, Zone.parse id regions ≠ Build.crash c) :
    ((∃ t, Template.ofSettings s regions = .ok t) ↔ Sound s regions) ∧
      (∀ f, Template.ofSettings s regions = .error f ↔
        ∃ e, f = .refused e ∧ FirstFault s regions e) ∧
      ∀ e, FirstFault s regions e → e.isConfiguration = true := by
  have hcut : ¬ ZoneCuts s.timeZone := not_zoneCuts hreturns
  refine ⟨⟨?_, Template.ofSettings_of_sound hcut⟩, fun f => ⟨fun hf => ?_, ?_⟩,
    fun e => FirstFault.isConfiguration⟩
  · rintro ⟨t, ht⟩
    refine (sound_or_firstFault s regions).resolve_right ?_
    rintro ⟨e, hfault⟩
    rw [Template.ofSettings_of_firstFault hcut hfault] at ht
    cases ht
  · rcases sound_or_firstFault s regions with hsound | ⟨e, hfault⟩
    · obtain ⟨t, ht⟩ := Template.ofSettings_of_sound hcut hsound
      rw [ht] at hf
      cases hf
    · rw [Template.ofSettings_of_firstFault hcut hfault] at hf
      exact ⟨e, (Except.error.inj hf).symm, hfault⟩
  · rintro ⟨e, rfl, hfault⟩
    exact Template.ofSettings_of_firstFault hcut hfault

namespace Unregistered

/-- Of the three fields the second, in a block, is the leftmost that no one registered. -/
def settings : Config.LoggerSettings where
  logFormat := String.ofList (Instruction.writtenAll
    [.field "USER".toList, .conditional [' '] "NOPE".toList [], .field "WHO".toList])
  timeFormat := some "%Y"
  timeZone := some "UTC+1"

end Unregistered

theorem Template.ofSettings_outcome_unregistered :
    (∀ id, Unregistered.settings.timeZone = some id → ∀ c,
        Zone.parse id Region.all ≠ Build.crash c) ∧
      Template.ofSettings Unregistered.settings = Build.refuse (.unknownField "NOPE") ∧
      FirstFault Unregistered.settings Region.all (.unknownField "NOPE") ∧
      (Error.unknownField "NOPE").isConfiguration = true ∧
      ∃ t, Template.ofSettings {} = .ok t := by
  have hparse : Zone.parse "UTC+1" = .ok (.fixed 3600) := by decide +kernel
  have hreturns : ∀ id, Unregistered.settings.timeZone = some id → ∀ c,
      Zone.parse id Region.all ≠ Build.crash c := by
    rintro id ⟨⟩ c
    rw [hparse]
    nofun
  have hfault : FirstFault Unregistered.settings Region.all (.unknownField "NOPE") := by
    have hnames : fieldNames Unregistered.settings.logFormat = ["USER"] ++ "NOPE" :: ["WHO"] := by
      decide +kernel
    refine .field ?_ ?_ hnames (by decide) (by decide)
    · rintro id ⟨⟩
      exact Or.inr (Or.inl ⟨1, 1, 0, ⟨['1'], ⟨"UTC", by decide, '+', by decide, by decide⟩,
        .alone (by decide) (by decide)⟩, by decide, by decide⟩)
    · rintro p ⟨⟩
      exact ⟨by decide, [.quantity .year .zeros], Pattern.items?_eq_some_iff.1 (by decide +kernel)⟩
  have houtcome := ofSettings_outcome Unregistered.settings Region.all hreturns
  have hdefault := ofSettings_outcome {} Region.all nofun
  exact ⟨hreturns, (houtcome.2.1 _).2 ⟨_, rfl, hfault⟩, hfault, houtcome.2.2 _ hfault,
    hdefault.1.2 (sound_default Region.all)⟩

end AuditTrail
