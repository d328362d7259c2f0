import AuditTrail.Proofs.Json.RoundTrip
import AuditTrail.Whitelist.Document

/-!
# Stored whitelists are read back

The document of a table of whitelists is read as the same table, provided that its resources are
written as a reader would write them (`Resource.IsNormal`).  Roles may have any name, and a set of
permissions and a whitelist may be empty.
-/

namespace AuditTrail

/-! ## Resources -/

namespace Resource

/-- The resource is what the reader makes of some path. -/
def IsNormal (r : Resource) : Prop := ∃ path, parse? path = some r

theorem separator_not_mem_of_mem_splitOn {path segment : List Char}
    (h : segment ∈ path.splitOn separator) : separator ∉ segment := by
  induction path generalizing segment with
  | nil =>
    rw [List.splitOn_nil, List.mem_singleton] at h
    simp [h]
  | cons c cs ih =>
    rw [List.splitOn_cons_eq_if_modifyHead] at h
    split at h
    · rcases List.mem_cons.1 h with rfl | h
      · exact List.not_mem_nil
      · exact ih h
    · rename_i hc
      cases hcs : cs.splitOn separator with
      | nil => exact absurd hcs (List.splitOn_ne_nil separator cs)
      | cons first rest =>
        rw [hcs, List.modifyHead_cons] at h
        rcases List.mem_cons.1 h with rfl | h
        · rw [List.mem_cons, not_or]
          refine ⟨fun hsep => hc (beq_iff_eq.2 hsep.symm), ih ?_⟩
          rw [hcs]
          exact List.mem_cons_self
        · exact ih (by rw [hcs]; exact List.mem_cons_of_mem first h)

theorem segments_intercalate {path : List Char} (hne : segments path ≠ []) :
    segments ([separator].intercalate (segments path)) = segments path := by
  have hfree : ∀ segment ∈ segments path, separator ∉ segment := fun segment h =>
    separator_not_mem_of_mem_splitOn (List.mem_filter.1 h).1
  rw [segments, List.splitOn_intercalate separator hfree hne, segments, List.filter_filter]
  simp

theorem IsNormal.parse?_path {r : Resource} (h : r.IsNormal) : parse? r.path = some r := by
  obtain ⟨path, hpath⟩ := h
  rw [parse?] at hpath
  split at hpath
  · cases hpath
  · rename_i first rest hsegments
    rw [Option.some.injEq, ← hsegments] at hpath
    have hne : segments path.toList ≠ [] := by
      rw [hsegments]
      exact List.cons_ne_nil first rest
    have hagain : segments r.path.toList = segments path.toList := by
      rw [← hpath]
      simp only [ofChars, String.toList_ofList]
      exact segments_intercalate hne
    rw [parse?, hagain, ← hpath]
    simp only [hsegments]

end Resource

/-! ## Maps -/

section Maps

variable {κ β : Type} [DecidableEq κ] [Ord κ] [Std.TransOrd κ] [Std.LawfulEqOrd κ]

/-- Putting the entries of a map into an empty one, in their order, gives the map. -/
theorem foldl_insert_toList (m : Std.ExtTreeMap κ β) :
    m.toList.foldl (fun acc p => acc.insert p.1 p.2) ∅ = m := by
  refine Std.ExtTreeMap.ext_getElem? fun k => ?_
  rw [← Std.ExtTreeMap.insertMany_list_eq_foldl]
  cases hk : m[k]? with
  | some v =>
    exact Std.ExtTreeMap.getElem?_insertMany_list_of_mem Std.ReflCmp.compare_self
      Std.ExtTreeMap.distinct_keys_toList (Std.ExtTreeMap.mem_toList_iff_getElem?_eq_some.2 hk)
  | none =>
    rw [Std.ExtTreeMap.getElem?_insertMany_list_of_contains_eq_false]
    · simp
    · rw [Std.ExtTreeMap.map_fst_toList_eq_keys, List.contains_eq_mem, decide_eq_false_iff_not,
        Std.ExtTreeMap.mem_keys, Std.ExtTreeMap.mem_iff_isSome_getElem?, hk]
      simp

end Maps

theorem foldlM_map_ok {ε α β γ : Type} {add : β → γ → Except ε β} {put : β → α → β} {f : α → γ}
    {l : List α} (h : ∀ a ∈ l, ∀ acc, add acc (f a) = .ok (put acc a)) (acc : β) :
    (l.map f).foldlM add acc = .ok (l.foldl put acc) := by
  induction l generalizing acc with
  | nil => rfl
  | cons a l ih =>
    rw [List.forall_mem_cons] at h
    rw [List.map_cons, List.foldlM_cons, h.1 acc, List.foldl_cons]
    exact ih h.2 (put acc a)

/-! ## Documents -/

theorem Permission.ofJson_name (p : Permission) : Permission.ofJson (.string p.name) = .ok p := by
  rw [ofJson, ofJson.named, ofName?_name]

theorem PermissionSet.ofJson_toJson (s : PermissionSet) : ofJson s.toJson = .ok s := by
  have hitems : (s.toList.map fun p => Json.string p.name).mapM Permission.ofJson =
      .ok s.toList := by
    induction s.toList with
    | nil => rfl
    | cons p ps ih =>
      rw [List.map_cons, List.mapM_cons, Permission.ofJson_name, ih]
      rfl
  rw [toJson, ofJson, hitems]
  show Except.ok (ofList s.toList) = _
  exact congrArg Except.ok (ext fun p => by rw [mem_ofList, mem_toList])

theorem PermissionSet.plain_toJson (s : PermissionSet) (depth : Nat) :
    Json.Plain (depth + 1) s.toJson := by
  refine .array fun item hitem => ?_
  obtain ⟨p, -, rfl⟩ := List.mem_map.1 hitem
  exact .string p.name

namespace Whitelist

/-- All resources of the whitelist are normal. -/
def IsNormal (w : Whitelist) : Prop := ∀ r set, w.permissions? r = some set → r.IsNormal

theorem addMember_toJson {w : Whitelist} {r : Resource} (h : r.IsNormal) (set : PermissionSet) :
    w.addMember (r.path, set.toJson) = .ok ⟨w.entries.insert r set⟩ := by
  simp only [addMember, h.parse?_path, PermissionSet.ofJson_toJson]
  rfl

theorem ofJson_toJson {w : Whitelist} (h : w.IsNormal) : ofJson w.toJson = .ok w := by
  have hadd : ∀ p ∈ w.entries.toList, ∀ acc : Whitelist,
      acc.addMember (p.1.path, p.2.toJson) = .ok ⟨acc.entries.insert p.1 p.2⟩ := by
    intro p hp acc
    refine addMember_toJson (h p.1 p.2 ?_) p.2
    exact Std.ExtTreeMap.mem_toList_iff_getElem?_eq_some.1 hp
  have hentries : ∀ (l : List (Resource × PermissionSet)) (acc : Whitelist),
      (l.foldl (fun acc p => (⟨acc.entries.insert p.1 p.2⟩ : Whitelist)) acc).entries =
        l.foldl (fun acc p => acc.insert p.1 p.2) acc.entries := by
    intro l acc
    induction l generalizing acc with
    | nil => rfl
    | cons p l ih => exact ih _
  rw [toJson, ofJson, foldlM_map_ok hadd]
  refine congrArg Except.ok (congrArg mk ((hentries _ empty).trans ?_))
  exact foldl_insert_toList w.entries

theorem plain_toJson (w : Whitelist) (depth : Nat) : Json.Plain (depth + 2) w.toJson := by
  refine .object fun member hmember => ?_
  obtain ⟨p, -, rfl⟩ := List.mem_map.1 hmember
  exact p.2.plain_toJson depth

end Whitelist

namespace WhitelistTable

def IsNormal (t : WhitelistTable) : Prop :=
  ∀ (role : Role) (w : Whitelist), t[role]? = some w → w.IsNormal

theorem ofJson_toJson {t : WhitelistTable} (h : IsNormal t) : ofJson (toJson t) = .ok t := by
  have hadd : ∀ p ∈ t.toList, ∀ acc : WhitelistTable,
      addMember acc (p.1.name, p.2.toJson) = .ok (acc.insert p.1 p.2) := by
    intro p hp acc
    have hw := h p.1 p.2 (Std.ExtTreeMap.mem_toList_iff_getElem?_eq_some.1 hp)
    rw [addMember, Whitelist.ofJson_toJson hw]
    rfl
  rw [toJson, ofJson, foldlM_map_ok hadd, foldl_insert_toList]

theorem plain_toJson (t : WhitelistTable) (depth : Nat) : Json.Plain (depth + 3) (toJson t) := by
  refine .object fun member hmember => ?_
  obtain ⟨p, -, rfl⟩ := List.mem_map.1 hmember
  exact p.2.plain_toJson depth

/-- The document of a table is read as that table. -/
theorem ofText_toText {t : WhitelistTable} (h : IsNormal t) : ofText (toText t) = .ok t := by
  rw [ofText, toText, Json.parse_pretty (plain_toJson t 124)]
  exact ofJson_toJson h

theorem isAllBlank_toText (t : WhitelistTable) : Text.isAllBlank (toText t) = false := by
  obtain ⟨more, hmore⟩ : ∃ more, (toText t).toList = '\x7b' :: more :=
    Json.exists_pretty_object_eq_cons _
  rw [Text.isAllBlank, hmore]
  rfl

end WhitelistTable
end AuditTrail
