import AuditTrail.Proofs.Files.Writing
import AuditTrail.Whitelist.Document
import Mathlib.Data.List.Induction

/-!
# What a stored whitelist permits

Two keys of an object may be spellings of one resource.  The entries of a resource are not put
together: the last of them is taken, and what only the others list is not permitted
(`last_entry_counts`).  So an entry that is added to a document can take an exemption away
(`exemption_lost`).
-/

namespace AuditTrail

/-! ## Lists of permissions -/

theorem mem_iff_of_mapM_eq_ok {ε α β : Type} {f : α → Except ε β} {l : List α} {results : List β}
    {b : β} (h : l.mapM f = .ok results) : b ∈ results ↔ ∃ a ∈ l, f a = .ok b := by
  induction l generalizing results with
  | nil =>
    cases h
    simp
  | cons a l ih =>
    rw [List.mapM_cons, bind_eq_ok_iff] at h
    obtain ⟨first, hfirst, h⟩ := h
    obtain ⟨rest, hrest, h⟩ := bind_eq_ok_iff.1 h
    cases h
    rw [List.mem_cons, ih hrest]
    simp [hfirst, eq_comm]

namespace Permission

theorem ofName?_eq_some_iff {text : String} {p : Permission} :
    ofName? text = some p ↔ text = p.name := by
  constructor
  · intro h
    have hname := List.find?_some (p := fun q : Permission => q.name == text) h
    exact (beq_iff_eq.1 hname).symm
  · rintro rfl
    exact ofName?_name p

theorem named_eq_ok_iff {text : String} {p : Permission} :
    ofJson.named text = .ok p ↔ text = p.name := by
  rw [← ofName?_eq_some_iff, ofJson.named]
  cases ofName? text <;> simp

theorem ofJson_eq_ok_iff {item : Json} {p : Permission} :
    ofJson item = .ok p ↔ item = .string p.name ∨ item = .object [(p.name, .null)] := by
  constructor
  · intro h
    rw [ofJson.eq_def] at h
    split at h
    · rename_i text
      exact .inl (congrArg Json.string (named_eq_ok_iff.1 h))
    · rename_i text value
      obtain ⟨q, hq, h⟩ := bind_eq_ok_iff.1 h
      split at h
      · cases h
        exact .inr (congrArg (fun text => Json.object [(text, .null)]) (named_eq_ok_iff.1 hq))
      · cases h
    · cases h
    · cases h
  · rintro (rfl | rfl)
    · exact named_eq_ok_iff.2 rfl
    · rw [ofJson, bind_eq_ok_iff]
      exact ⟨p, named_eq_ok_iff.2 rfl, rfl⟩

end Permission

namespace PermissionSet

/-- The value is a list that holds the permission, by its name or as the key of an object. -/
def Lists (value : Json) (p : Permission) : Prop :=
  ∃ items item, value = .array items ∧ item ∈ items ∧
    (item = .string p.name ∨ item = .object [(p.name, .null)])

theorem mem_iff_lists {value : Json} {set : PermissionSet} {p : Permission}
    (h : ofJson value = .ok set) : p ∈ set ↔ Lists value p := by
  rw [ofJson.eq_def] at h
  split at h
  · rename_i items
    obtain ⟨ps, hps, h⟩ := bind_eq_ok_iff.1 h
    cases h
    rw [mem_ofList, mem_iff_of_mapM_eq_ok hps]
    constructor
    · rintro ⟨item, hitem, hp⟩
      exact ⟨items, item, rfl, hitem, Permission.ofJson_eq_ok_iff.1 hp⟩
    · rintro ⟨items', item, hvalue, hitem, hp⟩
      cases hvalue
      exact ⟨item, hitem, Permission.ofJson_eq_ok_iff.2 hp⟩
  · cases h

end PermissionSet

namespace Whitelist

open PermissionSet (Lists)

/-! ## Entries -/

/-- The key of the member is a spelling of the resource. -/
def IsFor (m : String × Json) (r : Resource) : Prop := Resource.parse? m.1 = some r

instance (m : String × Json) (r : Resource) : Decidable (IsFor m r) :=
  inferInstanceAs (Decidable (Resource.parse? m.1 = some r))

def lastFor? (members : List (String × Json)) (r : Resource) : Option (String × Json) :=
  members.reverse.find? fun m => decide (IsFor m r)

variable {members before after : List (String × Json)} {m : String × Json} {v w : Whitelist}
  {q r : Resource} {p : Permission}

theorem lastFor?_append (front back : List (String × Json)) (r : Resource) :
    lastFor? (front ++ back) r = (lastFor? back r).or (lastFor? front r) := by
  rw [lastFor?, List.reverse_append, List.find?_append]
  rfl

theorem lastFor?_singleton (m : String × Json) (r : Resource) :
    lastFor? [m] r = if IsFor m r then some m else none := by
  rw [lastFor?, List.reverse_singleton, List.find?_cons]
  by_cases hm : IsFor m r <;> simp [hm]

theorem lastFor?_eq_none_iff : lastFor? members r = none ↔ ∀ m ∈ members, ¬ IsFor m r := by
  simp [lastFor?]

theorem mem_of_lastFor? (h : lastFor? members r = some m) : m ∈ members ∧ IsFor m r := by
  have hfor := List.find?_some (p := fun m => decide (IsFor m r)) h
  exact ⟨List.mem_reverse.1 (List.mem_of_find?_eq_some h), of_decide_eq_true hfor⟩

theorem addMember_eq_ok_iff :
    v.addMember m = .ok w ↔
      ∃ r set, IsFor m r ∧ PermissionSet.ofJson m.2 = .ok set ∧ ⟨v.entries.insert r set⟩ = w := by
  rw [addMember]
  cases hr : Resource.parse? m.1 with
  | none => simp [IsFor, hr]
  | some r =>
    constructor
    · intro h
      obtain ⟨set, hset, h⟩ := bind_eq_ok_iff.1 h
      cases h
      exact ⟨r, set, hr, hset, rfl⟩
    · rintro ⟨r', set, hr', hset, rfl⟩
      cases hr.symm.trans hr'
      exact bind_eq_ok_iff.2 ⟨set, hset, rfl⟩

/-- The whitelist holds what the last entry for a resource is read as, and nothing where there is
no entry. -/
theorem map_lastFor? (h : ofJson (.object members) = .ok w) (r : Resource) :
    (lastFor? members r).map (fun m => PermissionSet.ofJson m.2) =
      (w.permissions? r).map .ok := by
  -- from the back, since the last entry is the first that the search meets
  induction members using List.reverseRecOn generalizing w with
  | nil =>
    cases h
    rw [permissions?_empty]
    rfl
  | append_singleton members m ih =>
    rw [ofJson, List.foldlM_append] at h
    obtain ⟨v, hv, h⟩ := bind_eq_ok_iff.1 h
    rw [List.foldlM_cons] at h
    simp only [List.foldlM_nil, bind_pure, addMember_eq_ok_iff] at h
    obtain ⟨q, set, hq, hset, rfl⟩ := h
    rw [lastFor?_append, lastFor?_singleton, permissions?, Std.ExtTreeMap.getElem?_insert]
    by_cases hqr : q = r
    · subst hqr
      simp [hq, hset]
    · have hm : ¬ IsFor m r := fun hr => hqr (Option.some.inj (hq.symm.trans hr))
      rw [if_neg hm, if_neg (by simpa using hqr), Option.none_or]
      exact ih hv

theorem permits_iff_lastFor (h : ofJson (.object members) = .ok w) :
    w.permits r p = true ↔ ∃ m, lastFor? members r = some m ∧ Lists m.2 p := by
  have hlast := map_lastFor? h r
  rw [permits_iff]
  cases hm : lastFor? members r with
  | none =>
    rw [hm] at hlast
    have hnone := Option.map_eq_none_iff.1 hlast.symm
    simp [hnone]
  | some m =>
    rw [hm] at hlast
    obtain ⟨set, hset, hread⟩ := Option.map_eq_some_iff.1 hlast.symm
    simp [hset, PermissionSet.mem_iff_lists hread.symm]

theorem permissions?_congr {others : List (String × Json)}
    (hw : ofJson (.object members) = .ok w) (hv : ofJson (.object others) = .ok v)
    (h : lastFor? members r = lastFor? others r) : w.permissions? r = v.permissions? r := by
  have hmap : (w.permissions? r).map (Except.ok (ε := DocumentFault)) =
      (v.permissions? r).map .ok := by
    rw [← map_lastFor? hw r, ← map_lastFor? hv r, h]
  exact Option.map_injective (fun _ _ => Except.ok.inj) hmap

/-! ## Added entries -/

/-- An entry for one resource does not come between the entries for another. -/
theorem lastFor?_added_of_ne (hm : IsFor m r) (hq : q ≠ r) :
    lastFor? (before ++ m :: after) q = lastFor? (before ++ after) q := by
  have hfor : ¬ IsFor m q := fun h => hq (Option.some.inj (h.symm.trans hm))
  rw [List.append_cons, lastFor?_append, lastFor?_append, lastFor?_append, lastFor?_singleton,
    if_neg hfor, Option.none_or]

/-- An entry after it overrules it. -/
theorem lastFor?_added_of_some (hlast : lastFor? after r ≠ none) :
    lastFor? (before ++ m :: after) r = lastFor? (before ++ after) r := by
  obtain ⟨last, hlast⟩ := Option.ne_none_iff_exists'.1 hlast
  rw [List.append_cons, lastFor?_append, hlast, Option.some_or, lastFor?_append, hlast,
    Option.some_or]

/-- Without one, it overrules those before it. -/
theorem lastFor?_added_of_none (hm : IsFor m r) (hlast : lastFor? after r = none) :
    lastFor? (before ++ m :: after) r = some m := by
  rw [List.append_cons, lastFor?_append, hlast, Option.none_or, lastFor?_append,
    lastFor?_singleton, if_pos hm, Option.some_or]

/-- The last entry of each resource is the one that counts among those of an object. -/
structure LastCounts (members : List (String × Json)) (w : Whitelist) : Prop where
  permits : ∀ r p, w.permits r p = true ↔ ∃ m, lastFor? members r = some m ∧ Lists m.2 p
  /-- All that is listed for a resource is permitted exactly if its last entry lists all of it. -/
  union : ∀ r, (∀ p, w.permits r p = true ↔ ∃ m ∈ members, IsFor m r ∧ Lists m.2 p) ↔
    ∀ last, lastFor? members r = some last → ∀ m ∈ members, IsFor m r → ∀ p, Lists m.2 p →
      Lists last.2 p
  /-- An entry takes no exemption away exactly if it is overruled itself or lists again what was
  permitted on its resource.  Other resources are as they were without it. -/
  added : ∀ before m after v r, members = before ++ m :: after →
    ofJson (.object (before ++ after)) = .ok v → IsFor m r →
      ((∀ q p, v.permits q p = true → w.permits q p = true) ↔
          (∃ m' ∈ after, IsFor m' r) ∨ ∀ p, v.permits r p = true → Lists m.2 p) ∧
        ∀ q, q ≠ r → w.permissions? q = v.permissions? q

theorem permits_union_iff (h : ofJson (.object members) = .ok w) :
    (∀ p, w.permits r p = true ↔ ∃ m ∈ members, IsFor m r ∧ Lists m.2 p) ↔
      ∀ last, lastFor? members r = some last → ∀ m ∈ members, IsFor m r → ∀ p, Lists m.2 p →
        Lists last.2 p := by
  constructor
  · intro hunion last hlast m hm hfor p hp
    obtain ⟨last', hlast', hp'⟩ := (permits_iff_lastFor h).1 ((hunion p).2 ⟨m, hm, hfor, hp⟩)
    cases hlast.symm.trans hlast'
    exact hp'
  · intro hlists p
    rw [permits_iff_lastFor h]
    constructor
    · rintro ⟨last, hlast, hp⟩
      obtain ⟨hmem, hfor⟩ := mem_of_lastFor? hlast
      exact ⟨last, hmem, hfor, hp⟩
    · rintro ⟨m, hm, hfor, hp⟩
      cases hlast : lastFor? members r with
      | none => exact absurd hfor (lastFor?_eq_none_iff.1 hlast m hm)
      | some last => exact ⟨last, rfl, hlists last hlast m hm hfor p hp⟩

theorem keeps_added_iff (hw : ofJson (.object (before ++ m :: after)) = .ok w)
    (hv : ofJson (.object (before ++ after)) = .ok v) (hm : IsFor m r) :
    (∀ q p, v.permits q p = true → w.permits q p = true) ↔
      (∃ m' ∈ after, IsFor m' r) ∨ ∀ p, v.permits r p = true → Lists m.2 p := by
  have hothers (q : Resource) (hq : q ≠ r) (p : Permission) : w.permits q p = v.permits q p :=
    permits_congr (permissions?_congr hw hv (lastFor?_added_of_ne hm hq)) p
  -- only the resource of the entry is left, and what counts there is whether an entry follows
  by_cases hlast : lastFor? after r = none
  · have hnone : ¬ ∃ m' ∈ after, IsFor m' r := by
      rintro ⟨m', hm', hfor⟩
      exact lastFor?_eq_none_iff.1 hlast m' hm' hfor
    have hpermits (p : Permission) : w.permits r p = true ↔ Lists m.2 p := by
      rw [permits_iff_lastFor hw, lastFor?_added_of_none hm hlast]
      simp
    rw [or_iff_right hnone]
    constructor
    · exact fun hkeeps p hp => (hpermits p).1 (hkeeps r p hp)
    · intro hlists q p hp
      by_cases hq : q = r
      · subst hq
        exact (hpermits p).2 (hlists p hp)
      · rwa [hothers q hq]
  · have hlater : ∃ m' ∈ after, IsFor m' r := by
      obtain ⟨last, hlast⟩ := Option.ne_none_iff_exists'.1 hlast
      exact ⟨last, mem_of_lastFor? hlast⟩
    refine iff_of_true (fun q p hp => ?_) (.inl hlater)
    by_cases hq : q = r
    · subst hq
      rwa [permits_congr (permissions?_congr hw hv (lastFor?_added_of_some hlast))]
    · rwa [hothers q hq]

/-- Whatever object is read, with repeated keys or without, of the entries for one resource the last
one is taken. -/
theorem last_entry_counts (h : ofJson (.object members) = .ok w) : LastCounts members w where
  permits _ _ := permits_iff_lastFor h
  union _ := permits_union_iff h
  added before m after v r hmembers hv hm := by
    subst hmembers
    exact ⟨keeps_added_iff h hv hm, fun q hq =>
      permissions?_congr h hv (lastFor?_added_of_ne hm hq)⟩

namespace Respelled

def keyspace : Resource := .keyspace "ks"

def selecting : String × Json := ("data/ks", .array [.string "SELECT"])

def modifying : String × Json := ("data//ks/", .array [.string "MODIFY"])

def both : String × Json :=
  ("/data/ks", .array [.string "MODIFY", .object [("SELECT", .null)]])

theorem isFor_both : IsFor both keyspace := by decide +kernel

end Respelled

open Respelled in
/-- The third entry lists again what the first two are read as, and adds to it. -/
theorem last_entry_counts_widened :
    ∃ v w, ofJson (.object [selecting, modifying]) = .ok v ∧
      ofJson (.object [selecting, modifying, both]) = .ok w ∧
      LastCounts [selecting, modifying, both] w ∧ w.permits keyspace .select = true ∧
      ∀ q p, v.permits q p = true → w.permits q p = true := by
  have hread : ofJson (.object [selecting, modifying, both]) =
      .ok ((∅ : Whitelist).grant keyspace [.select, .modify]) := rfl
  have hlast := last_entry_counts hread
  have hselect : Lists both.2 .select :=
    ⟨_, _, rfl, List.mem_cons_of_mem _ List.mem_cons_self, .inr rfl⟩
  have hagain (p : Permission)
      (hp : ((∅ : Whitelist).grant keyspace [.modify]).permits keyspace p) : Lists both.2 p := by
    rcases permits_grant_iff.1 hp with hp | ⟨-, hp⟩
    · cases (permits_empty keyspace p).symm.trans hp
    · rw [List.mem_singleton.1 hp]
      exact ⟨_, _, rfl, List.mem_cons_self, .inl rfl⟩
  exact ⟨_, _, rfl, hread, hlast, (hlast.permits _ _).2 ⟨both, rfl, hselect⟩,
    (hlast.added [selecting, modifying] both [] _ keyspace rfl rfl isFor_both).1.2 (.inr hagain)⟩

open Respelled in
/-- Two entries with keys that are apart.  Each is read, and only the second counts. -/
theorem exemption_lost :
    selecting.1 ≠ modifying.1 ∧ IsFor selecting keyspace ∧ Lists selecting.2 .select ∧
      ∃ v w, ofJson (.object [selecting]) = .ok v ∧ v.permits keyspace .select = true ∧
        ofJson (.object [selecting, modifying]) = .ok w ∧ w.permits keyspace .select = false :=
  ⟨by decide, by decide +kernel, ⟨_, _, rfl, List.mem_cons_self, .inl rfl⟩,
    (∅ : Whitelist).grant keyspace [.select], (∅ : Whitelist).grant keyspace [.modify], rfl,
    by decide +kernel, rfl, by decide +kernel⟩

end Whitelist
end AuditTrail
