import Mathlib.Data.List.Infix
import AuditTrail.Text.Digits

/-!
# Decimal numerals

A numeral is a text of decimal digits, at least one.  `number? 10` reads exactly the numerals, each
as the number that positional notation makes of it.  Zeros in front do not count, so a number has
numerals of any length from that of its usual one on.
-/

namespace AuditTrail.Text

structure Numeral (digits : List Char) (n : Nat) : Prop where
  ne_nil : digits ≠ []
  isDigit : ∀ c ∈ digits, c.isDigit = true
  value : Nat.ofDigitChars 10 digits 0 = n

variable {digits : List Char} {n : Nat}

theorem digit?_ten (c : Char) :
    digit? 10 c = if c.isDigit = true then some (c.toNat - '0'.toNat) else none := by
  have hzero : '0'.toNat = 48 := rfl
  have hnine : '9'.toNat = 57 := rfl
  have hsmall : 'a'.toNat = 97 := rfl
  have hcapital : 'A'.toNat = 65 := rfl
  have hle (a b : Char) : a ≤ b ↔ a.toNat ≤ b.toNat := Iff.rfl
  have hdigit : c.isDigit = true ↔ '0' ≤ c ∧ c ≤ '9' := by
    simp only [Char.isDigit, Bool.and_eq_true, decide_eq_true_eq]
    exact Iff.rfl
  unfold digit?
  simp only [hdigit]
  split
  · rename_i hrange
    rw [hle, hle] at hrange
    rw [Option.filter_some, if_pos (by simp; omega)]
  · split
    · rw [Option.filter_some, if_neg (by simp)]
    · split
      · rw [Option.filter_some, if_neg (by simp)]
      · rfl

theorem foldlM_digits_eq_some_iff (init : Nat) :
    digits.foldlM (fun n c => (digit? 10 c).map (n * 10 + ·)) init = some n ↔
      (∀ c ∈ digits, c.isDigit = true) ∧ Nat.ofDigitChars 10 digits init = n := by
  induction digits generalizing init with
  | nil => simp
  | cons c cs ih =>
    rw [List.foldlM_cons, digit?_ten, List.forall_mem_cons, Nat.ofDigitChars_cons]
    by_cases hc : c.isDigit = true
    · rw [if_pos hc]
      simp only [Option.map_some, Option.bind_eq_bind, Option.bind_some, ih, hc, true_and]
      rw [Nat.mul_comm]
    · simp [hc]

theorem number?_eq_some_iff : number? 10 digits = some n ↔ Numeral digits n := by
  unfold number?
  constructor
  · intro h
    split at h
    · cases h
    · rename_i hempty
      obtain ⟨hdigits, hvalue⟩ := (foldlM_digits_eq_some_iff 0).1 h
      exact ⟨by simpa using hempty, hdigits, hvalue⟩
  · intro h
    rw [if_neg (by simpa using h.ne_nil)]
    exact (foldlM_digits_eq_some_iff 0).2 ⟨h.isDigit, h.value⟩

instance : Decidable (Numeral digits n) := decidable_of_iff _ number?_eq_some_iff

theorem Numeral.unique {m : Nat} (h : Numeral digits n) (h' : Numeral digits m) : n = m :=
  h.value.symm.trans h'.value

theorem Numeral.not_mem (h : Numeral digits n) {c : Char} (hc : c.isDigit = false) :
    c ∉ digits := by
  intro hmem
  rw [h.isDigit c hmem] at hc
  cases hc

theorem numeral_toDigits (n : Nat) : Numeral (Nat.toDigits 10 n) n where
  ne_nil := Nat.toDigits_ne_nil
  isDigit c hc := Nat.isDigit_of_mem_toDigits (by decide) (by decide) hc
  value := Nat.ofDigitChars_toDigits (by decide) (by decide)

/-- Only zero itself begins with a zero. -/
theorem exists_toDigits (n : Nat) :
    ∃ k < 10, ∃ ds, Nat.toDigits 10 n = Nat.digitChar k :: ds ∧ (k = 0 → n = 0) := by
  induction n using Nat.strongRecOn with
  | ind n ih =>
    by_cases hn : n < 10
    · exact ⟨n, hn, [], Nat.toDigits_of_lt_base hn, id⟩
    · obtain ⟨k, hk, ds, hds, hzero⟩ := ih (n / 10) (by omega)
      rw [Nat.toDigits_of_base_le (by decide) (by omega), hds]
      refine ⟨k, hk, ds ++ [(n % 10).digitChar], rfl, fun h => ?_⟩
      have := hzero h
      omega

theorem Numeral.exists_last (h : Numeral digits n) :
    ∃ front c, digits = front ++ [c] ∧ c.isDigit = true := by
  obtain ⟨front, c, rfl⟩ := (List.eq_nil_or_concat' digits).resolve_left h.ne_nil
  exact ⟨front, c, rfl, h.isDigit c (by simp)⟩

theorem toUpper_of_isDigit {c : Char} (hc : c.isDigit = true) : c.toUpper = c := by
  have hlow : ¬ ('a'.val ≤ c.val ∧ c.val ≤ 'z'.val) := by
    simp only [Char.isDigit, Bool.and_eq_true, decide_eq_true_eq] at hc
    exact fun h => absurd (UInt32.le_trans h.1 hc.2) (by decide)
  exact dif_neg hlow

theorem Numeral.map_toUpper (h : Numeral digits n) : digits.map Char.toUpper = digits :=
  (List.map_congr_left fun c hc => toUpper_of_isDigit (h.isDigit c hc)).trans (List.map_id _)

end AuditTrail.Text
