/-!
# First occurrence of a marker

`cut? mark s` splits `s` around the first place where `mark` begins.  The text before, the marker
and the text after make up `s` again, and no earlier place of `s` begins with the marker.
-/

namespace AuditTrail.Text

def cut? (mark : List Char) : List Char → Option (List Char × List Char)
  | [] => if mark.isEmpty then some ([], []) else none
  | c :: cs =>
    if mark.isPrefixOf (c :: cs) then some ([], (c :: cs).drop mark.length)
    else (cut? mark cs).map fun (before, after) => (c :: before, after)

theorem eq_append_of_isPrefixOf {mark s : List Char} (h : mark.isPrefixOf s = true) :
    s = mark ++ s.drop mark.length := by
  obtain ⟨t, rfl⟩ := List.isPrefixOf_iff_prefix.1 h
  simp

theorem append_of_cut? {mark s before after : List Char} (h : cut? mark s = some (before, after)) :
    s = before ++ mark ++ after := by
  induction s generalizing before with
  | nil =>
    rw [cut?] at h
    split at h
    · rename_i hm
      cases h
      simp_all
    · cases h
  | cons c cs ih =>
    rw [cut?] at h
    split at h
    · rename_i hm
      cases h
      simpa using eq_append_of_isPrefixOf hm
    · obtain ⟨⟨b, a⟩, hcut, heq⟩ := Option.map_eq_some_iff.1 h
      cases heq
      rw [ih hcut]
      simp

/-- The text after the marker is shorter than the text searched by at least the marker. -/
theorem length_after_of_cut? {mark s before after : List Char}
    (h : cut? mark s = some (before, after)) :
    after.length + mark.length ≤ s.length := by
  rw [append_of_cut? h]
  simp
  omega

end AuditTrail.Text
