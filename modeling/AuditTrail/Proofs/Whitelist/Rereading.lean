import AuditTrail.Proofs.Resource.Normal

/-!
# Whitelists that are written and read

Every whitelist of resources that can be made is read back.  What is read has the normal resource in
the place of each (`Whitelist.reread`), so it is the whitelist that was written exactly if the
resources of that were normal (`Whitelist.reread_eq_self_iff`).  The same goes for tables.
-/

namespace AuditTrail

open Resource (HasSegment Made)

/-! ## Properties of all resources -/

namespace Whitelist

variable {P Q : Resource → Prop} {w : Whitelist} {r : Resource}

/-- Each resource of the whitelist has the property. -/
def All (P : Resource → Prop) (w : Whitelist) : Prop :=
  ∀ r set, w.permissions? r = some set → P r

theorem All.mono (h : w.All P) (himp : ∀ r, P r → Q r) : w.All Q :=
  fun r set hr => himp r (h r set hr)

theorem all_empty : All P ∅ := by
  intro r set h
  cases (permissions?_empty r).symm.trans h

theorem All.insert (h : w.All P) (hr : P r) (set : PermissionSet) :
    All P ⟨w.entries.insert r set⟩ := by
  intro q kept hq
  rw [permissions?, Std.ExtTreeMap.getElem?_insert] at hq
  split at hq
  · rename_i hrq
    rw [← Std.LawfulEqOrd.eq_of_compare hrq]
    exact hr
  · exact h q kept hq

theorem All.grant (h : w.All P) (hr : P r) (ps : List Permission) : (w.grant r ps).All P :=
  h.insert hr _

end Whitelist

namespace WhitelistTable

variable {P Q : Resource → Prop} {t : WhitelistTable} {role : Role} {w : Whitelist}

def All (P : Resource → Prop) (t : WhitelistTable) : Prop :=
  ∀ (role : Role) (w : Whitelist), t[role]? = some w → w.All P

theorem All.mono (h : All P t) (himp : ∀ r, P r → Q r) : All Q t :=
  fun role w hw => (h role w hw).mono himp

theorem all_empty : All P (∅ : WhitelistTable) := by
  intro role w h
  simp at h

theorem All.getD (h : All P t) (role : Role) : (t.getD role ∅).All P := by
  rw [Std.ExtTreeMap.getD_eq_getD_getElem?]
  cases hw : t[role]? with
  | none => exact Whitelist.all_empty
  | some w => exact h role w hw

theorem All.insert (h : All P t) (hw : w.All P) : All P (t.insert role w) := by
  intro other v hv
  rw [Std.ExtTreeMap.getElem?_insert] at hv
  split at hv
  · cases hv
    exact hw
  · exact h other v hv

theorem All.erase (h : All P t) : All P (t.erase role) := by
  intro other v hv
  rw [Std.ExtTreeMap.getElem?_erase] at hv
  split at hv
  · cases hv
  · exact h other v hv

end WhitelistTable

/-! ## What is read is normal -/

theorem foldlM_keeps {ε α β : Type} {K : β → Prop} {add : β → α → Except ε β} {l : List α}
    (hadd : ∀ acc a acc', K acc → add acc a = .ok acc' → K acc') {start result : β}
    (hstart : K start) (h : l.foldlM add start = .ok result) : K result := by
  induction l generalizing start with
  | nil =>
    cases h
    exact hstart
  | cons a l ih =>
    rw [List.foldlM_cons] at h
    cases hfirst : add start a with
    | error e =>
      rw [hfirst] at h
      cases h
    | ok acc =>
      rw [hfirst] at h
      exact ih (hadd start a acc hstart hfirst) h

/-- A fold that succeeds has taken every item. -/
theorem exists_eq_ok_of_foldlM {ε α β : Type} {add : β → α → Except ε β} {l : List α}
    {start result : β} (h : l.foldlM add start = .ok result) {a : α} (ha : a ∈ l) :
    ∃ acc acc', add acc a = .ok acc' := by
  induction l generalizing start with
  | nil => cases ha
  | cons b l ih =>
    rw [List.foldlM_cons] at h
    cases hfirst : add start b with
    | error e =>
      rw [hfirst] at h
      cases h
    | ok acc =>
      rw [hfirst] at h
      rcases List.mem_cons.1 ha with rfl | ha
      · exact ⟨start, acc, hfirst⟩
      · exact ih h ha

theorem Whitelist.isNormal_of_ofJson {json : Json} {w : Whitelist} (h : ofJson json = .ok w) :
    w.IsNormal := by
  rw [ofJson.eq_def] at h
  split at h
  · rename_i members
    refine foldlM_keeps (K := All Resource.IsNormal) (fun v member v' hv hadd => ?_) all_empty h
    rw [addMember] at hadd
    split at hadd
    · cases hadd
    · rename_i r hr
      cases hset : PermissionSet.ofJson member.2 with
      | error fault =>
        rw [hset] at hadd
        cases hadd
      | ok set =>
        rw [hset] at hadd
        cases hadd
        exact hv.insert ⟨member.1, hr⟩ set
  · cases h

theorem WhitelistTable.isNormal_of_ofJson {json : Json} {t : WhitelistTable}
    (h : ofJson json = .ok t) : IsNormal t := by
  rw [ofJson.eq_def] at h
  split at h
  · rename_i members
    refine foldlM_keeps (K := All Resource.IsNormal) (fun v member v' hv hadd => ?_) all_empty h
    rw [addMember] at hadd
    cases hw : Whitelist.ofJson member.2 with
    | error fault =>
      rw [hw] at hadd
      cases hadd
    | ok w =>
      rw [hw] at hadd
      cases hadd
      exact hv.insert (Whitelist.isNormal_of_ofJson hw)
  · cases h

theorem WhitelistTable.isNormal_of_ofText {text : String} {t : WhitelistTable}
    (h : ofText text = .ok t) : IsNormal t := by
  rw [ofText] at h
  cases hjson : Json.parse text with
  | error fault =>
    rw [hjson] at h
    cases h
  | ok json =>
    rw [hjson] at h
    exact isNormal_of_ofJson h

/-! ## Whitelists -/

namespace Whitelist

variable {w : Whitelist}

theorem IsNormal.made (h : w.IsNormal) : w.All Made :=
  All.mono h fun _ ⟨_, hr⟩ => Made.found hr

/-- The whitelist with its resources made normal.  Of two that become one the later counts, which is
the one with the greater path, since entries are written in the order of their paths.  A document
with its entries in another order would resolve the two the other way. -/
def reread (w : Whitelist) : Whitelist :=
  w.entries.toList.foldl (fun acc p => ⟨acc.entries.insert p.1.normal p.2⟩) ∅

theorem All.hasSegment (h : w.All Made) : w.All HasSegment := h.mono fun _ hr => hr.hasSegment

theorem ofJson_toJson_eq_reread (h : w.All HasSegment) : ofJson w.toJson = .ok w.reread := by
  have hadd : ∀ p ∈ w.entries.toList, ∀ acc : Whitelist,
      acc.addMember (p.1.path, p.2.toJson) = .ok ⟨acc.entries.insert p.1.normal p.2⟩ := by
    intro p hp acc
    have hsegment := h p.1 p.2 (Std.ExtTreeMap.mem_toList_iff_getElem?_eq_some.1 hp)
    simp only [addMember, hsegment.parse?_path, PermissionSet.ofJson_toJson]
    rfl
  rw [toJson, ofJson, foldlM_map_ok hadd]
  rfl

/-- A single resource without a segment keeps the whole whitelist from being read. -/
theorem exists_ofJson_toJson_iff : (∃ v, ofJson w.toJson = .ok v) ↔ w.All HasSegment := by
  constructor
  · rintro ⟨v, hv⟩ r set hset
    have hmember : (r.path, set.toJson) ∈ w.entries.toList.map fun entry =>
        (entry.1.path, entry.2.toJson) :=
      List.mem_map.2 ⟨(r, set), Std.ExtTreeMap.mem_toList_iff_getElem?_eq_some.2 hset, rfl⟩
    obtain ⟨acc, acc', hadd⟩ := exists_eq_ok_of_foldlM hv hmember
    rw [addMember] at hadd
    split at hadd
    · cases hadd
    · rename_i q hq
      exact Resource.hasSegment_of_parse? hq
  · intro h
    exact ⟨_, ofJson_toJson_eq_reread h⟩

theorem isNormal_reread (h : w.All Made) : w.reread.IsNormal :=
  isNormal_of_ofJson (ofJson_toJson_eq_reread h.hasSegment)

theorem IsNormal.reread_eq (h : w.IsNormal) : w.reread = w := by
  have hread := ofJson_toJson h
  rw [ofJson_toJson_eq_reread h.made.hasSegment, Except.ok.injEq] at hread
  exact hread

theorem reread_eq_self_iff (h : w.All Made) : w.reread = w ↔ w.IsNormal := by
  constructor
  · intro heq
    rw [← heq]
    exact isNormal_reread h
  · exact IsNormal.reread_eq

/-- The JSON text of a whitelist is read as the whitelist with normal resources. -/
theorem ofText_pretty (h : w.All Made) : ofText w.toJson.pretty = .ok w.reread := by
  rw [ofText, Json.parse_pretty (w.plain_toJson 125)]
  exact ofJson_toJson_eq_reread h.hasSegment

end Whitelist

/-! ## Tables -/

namespace WhitelistTable

variable {t : WhitelistTable}

theorem IsNormal.made (h : IsNormal t) : All Made t :=
  fun role w hw => (h role w hw).made

def reread (t : WhitelistTable) : WhitelistTable := t.map fun _ w => w.reread

theorem getD_reread (t : WhitelistTable) (role : Role) :
    t.reread.getD role ∅ = (t.getD role ∅).reread := by
  rw [reread, Std.ExtTreeMap.getD_map, Std.ExtTreeMap.getD_eq_getD_getElem?]
  cases t[role]? with
  | none => exact (Whitelist.IsNormal.reread_eq Whitelist.all_empty).symm
  | some w => rfl

theorem All.hasSegment (h : All Made t) : All HasSegment t := h.mono fun _ hr => hr.hasSegment

theorem ofText_toText_eq_reread (h : All HasSegment t) : ofText (toText t) = .ok t.reread := by
  have hadd : ∀ p ∈ t.toList, ∀ acc : WhitelistTable,
      addMember acc (p.1.name, p.2.toJson) = .ok (acc.insert p.1 p.2.reread) := by
    intro p hp acc
    have hsegment := h p.1 p.2 (Std.ExtTreeMap.mem_toList_iff_getElem?_eq_some.1 hp)
    rw [addMember, Whitelist.ofJson_toJson_eq_reread hsegment]
    rfl
  rw [ofText, toText, Json.parse_pretty (plain_toJson t 124)]
  show ofJson (toJson t) = _
  rw [toJson, ofJson, foldlM_map_ok hadd, ← foldl_insert_toList t.reread, reread,
    Std.ExtTreeMap.toList_map, List.foldl_map]

/-- A single resource without a segment keeps the whole table from being read. -/
theorem exists_ofText_toText_iff : (∃ v, ofText (toText t) = .ok v) ↔ All HasSegment t := by
  constructor
  · rintro ⟨v, hv⟩ role w hw
    rw [ofText, toText, Json.parse_pretty (plain_toJson t 124)] at hv
    have hmember : (role.name, w.toJson) ∈ t.toList.map fun entry =>
        (entry.1.name, entry.2.toJson) :=
      List.mem_map.2 ⟨(role, w), Std.ExtTreeMap.mem_toList_iff_getElem?_eq_some.2 hw, rfl⟩
    obtain ⟨acc, acc', hadd⟩ := exists_eq_ok_of_foldlM hv hmember
    refine Whitelist.exists_ofJson_toJson_iff.1 ?_
    rw [addMember] at hadd
    cases hread : Whitelist.ofJson w.toJson with
    | error fault =>
      rw [hread] at hadd
      cases hadd
    | ok v => exact ⟨v, rfl⟩
  · intro h
    exact ⟨_, ofText_toText_eq_reread h⟩

theorem IsNormal.reread_eq (h : IsNormal t) : t.reread = t := by
  have hread := ofText_toText h
  rw [ofText_toText_eq_reread h.made.hasSegment, Except.ok.injEq] at hread
  exact hread

end WhitelistTable
end AuditTrail
