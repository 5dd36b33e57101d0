import Interpolation.Decimal
import Interpolation.Text

/-! What is written for an integer or a decimal is read as the number that was written. The digits
of a number are those of the standard library; here is what becomes of them between signs, a point
and an exponent. -/

namespace Interpolation

def IsDigits (text : List Char) : Prop :=
  ∀ c ∈ text, c.isDigit = true

theorem isDigits_toDigits (n : Nat) : IsDigits (Nat.toDigits 10 n) :=
  fun _ hc => Nat.isDigit_of_mem_toDigits (by omega) (by omega) hc

theorem IsDigits.append {s t : List Char} (hs : IsDigits s) (ht : IsDigits t) :
    IsDigits (s ++ t) := by
  intro c hc
  rcases List.mem_append.mp hc with hc | hc
  · exact hs c hc
  · exact ht c hc

theorem isDigits_zeros (n : Nat) : IsDigits (List.replicate n '0') := by
  intro c hc
  rw [List.eq_of_mem_replicate hc]
  rfl

theorem ne_of_isDigit {c d : Char} (hc : c.isDigit = true) (hd : d.isDigit = false) : c ≠ d := by
  rintro rfl
  exact Bool.noConfusion (hc.symm.trans hd)

theorem takeWhile_isDigit {digits : List Char} (h : IsDigits digits) (rest : List Char)
    (hrest : rest.head?.any Char.isDigit = false) :
    (digits ++ rest).takeWhile Char.isDigit = digits := by
  rw [List.takeWhile_append_of_pos h]
  cases rest with
  | nil => simp
  | cons c rest =>
    have hc : c.isDigit = false := hrest
    simp [hc]

theorem dropWhile_isDigit {digits : List Char} (h : IsDigits digits) (rest : List Char)
    (hrest : rest.head?.any Char.isDigit = false) :
    (digits ++ rest).dropWhile Char.isDigit = rest := by
  rw [List.dropWhile_append_of_pos h]
  cases rest with
  | nil => rfl
  | cons c rest =>
    have hc : c.isDigit = false := hrest
    simp [hc]

theorem Text.digitValue?_of_isDigit {c : Char} (h : c.isDigit = true) :
    Text.digitValue? 10 c = some (c.toNat - '0'.toNat) := by
  have hrange : '0' ≤ c ∧ c ≤ '9' := by
    simpa [Char.isDigit, Char.le_def] using h
  have hle : c.toNat ≤ 57 := hrange.2
  have hvalue : c.toNat - '0'.toNat < 10 := by
    have hzero : '0'.toNat = 48 := rfl
    omega
  unfold Text.digitValue?
  rw [if_pos hrange, Option.filter_some, if_pos (decide_eq_true hvalue)]

theorem Text.foldlM_digitValue? {digits : List Char} (h : IsDigits digits) (n : Nat) :
    digits.foldlM (fun n c => (Text.digitValue? 10 c).map (10 * n + ·)) n =
      some (Nat.ofDigitChars 10 digits n) := by
  induction digits generalizing n with
  | nil => rfl
  | cons c rest ih =>
    have hc := Text.digitValue?_of_isDigit (h c List.mem_cons_self)
    rw [List.foldlM_cons, hc, Nat.ofDigitChars_cons]
    exact ih (fun d hd => h d (List.mem_cons_of_mem c hd)) _

theorem Text.ofDigits?_ten {digits : List Char} (h : IsDigits digits) :
    Text.ofDigits? 10 digits = some (Nat.ofDigitChars 10 digits 0) :=
  Text.foldlM_digitValue? h 0

theorem head?_toDigits {n : Nat} (h : 10 ≤ n) : (Nat.toDigits 10 n).head? ≠ some '0' := by
  induction n using Nat.strongRecOn with
  | ind n ih =>
    rw [Nat.toDigits_of_base_le (by omega) h, List.head?_append]
    by_cases hten : 10 ≤ n / 10
    · have hhead := ih (n / 10) (by omega) hten
      cases hfirst : (Nat.toDigits 10 (n / 10)).head? with
      | none => exact absurd (List.head?_eq_none_iff.mp hfirst) Nat.toDigits_ne_nil
      | some c =>
        rw [hfirst] at hhead
        exact hhead
    · rw [Nat.toDigits_of_lt_base (by omega)]
      have hdigit : ∀ d, d < 10 → 1 ≤ d → Nat.digitChar d ≠ '0' := by decide
      simpa using hdigit (n / 10) (by omega) (by omega)

namespace Decimal

theorem splitSign_of_ne {c : Char} (hplus : c ≠ '+') (hminus : c ≠ '-') (rest : List Char) :
    splitSign (c :: rest) = (false, c :: rest) := by
  rw [splitSign]
  · rintro rest heq
    exact hplus (List.cons.inj heq).1
  · rintro rest heq
    exact hminus (List.cons.inj heq).1

theorem splitSign_of_isDigits {digits : List Char} (h : IsDigits digits) (rest : List Char)
    (hne : digits ≠ []) : splitSign (digits ++ rest) = (false, digits ++ rest) := by
  obtain ⟨c, tail, rfl⟩ := List.exists_cons_of_ne_nil hne
  have hc := h c List.mem_cons_self
  exact splitSign_of_ne (ne_of_isDigit hc rfl) (ne_of_isDigit hc rfl) (tail ++ rest)

theorem isDigits_iff {text : List Char} : isDigits text = true ↔ text ≠ [] ∧ IsDigits text := by
  simp [isDigits, IsDigits]

theorem toList_toString (n : Int) : (toString n).toList =
    (if n < 0 then ['-'] else []) ++ Nat.toDigits 10 n.natAbs := by
  cases n with
  | ofNat n =>
    have h : ¬ (Int.ofNat n < 0) := Int.not_lt.mpr (Int.natCast_nonneg n)
    rw [if_neg h]
    exact Nat.toList_repr
  | negSucc n =>
    rw [if_pos (Int.negSucc_lt_zero n)]
    have h : (toString (Int.negSucc n)).toList = '-' :: (Nat.repr (n + 1)).toList := by
      simp [toString, Int.repr]
    rw [h, Nat.toList_repr]
    rfl

theorem splitSign_toString (n : Int) :
    splitSign (toString n).toList = (decide (n < 0), Nat.toDigits 10 n.natAbs) := by
  rw [toList_toString]
  by_cases h : n < 0
  · simp [h, splitSign]
  · have hsign := splitSign_of_isDigits (isDigits_toDigits n.natAbs) [] Nat.toDigits_ne_nil
    rw [List.append_nil] at hsign
    simpa [h] using hsign

theorem integer?_toString (n : Int) : integer? (toString n).toList = some n := by
  have hdigits : isDigits (Nat.toDigits 10 n.natAbs) = true :=
    isDigits_iff.mpr ⟨Nat.toDigits_ne_nil, isDigits_toDigits _⟩
  unfold integer?
  rw [splitSign_toString]
  simp only [hdigits, if_true, Nat.ofDigitChars_ten_toDigits, decide_eq_true_eq]
  by_cases h : n < 0
  · rw [if_pos h]
    have : -(n.natAbs : Int) = n := by omega
    rw [this]
  · rw [if_neg h]
    have : (n.natAbs : Int) = n := by omega
    rw [this]

end Decimal

end Interpolation
