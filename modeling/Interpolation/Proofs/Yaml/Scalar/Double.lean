import Interpolation.Proofs.Yaml.Gap

/-! Every text is read as it was written between double quotes. Escapes leave only spaces to be
gaps. -/

namespace Interpolation

namespace Text

theorem digitValue?_hex : ∀ d < 16, digitValue? 16 (Nat.digitChar d).toUpper = some d := by
  decide

theorem ofDigits?_append {base : Nat} {s t : List Char} {n : Nat} (h : ofDigits? base s = some n) :
    ofDigits? base (s ++ t) =
      t.foldlM (fun n c => (digitValue? base c).map (base * n + ·)) n := by
  unfold ofDigits? at h ⊢
  rw [List.foldlM_append, h]
  rfl

theorem ofDigits?_hex (count n : Nat) (h : n < Nat.pow 16 count) :
    ofDigits? 16 ((toDigits 16 count n).map Char.toUpper) = some n := by
  induction count generalizing n with
  | zero =>
    have hzero : n = 0 := by simpa using h
    rw [hzero]
    rfl
  | succ count ih =>
    have hpow : Nat.pow 16 (count + 1) = 16 * Nat.pow 16 count := Nat.mul_comm _ 16
    have hquotient : n / 16 < Nat.pow 16 count := Nat.div_lt_of_lt_mul (hpow ▸ h)
    have hdigit := digitValue?_hex (n % 16) (Nat.mod_lt n (by omega))
    have hsum : 16 * (n / 16) + n % 16 = n := Nat.div_add_mod n 16
    rw [toDigits, List.map_append, List.map_singleton, ofDigits?_append (ih (n / 16) hquotient)]
    simp only [List.foldlM_cons, List.foldlM_nil, hdigit, Option.map_some, hsum]
    rfl

end Text

namespace Yaml.Double

variable {gap : Gap} {c : Char} {rest : List Char}

theorem read?_of_gap (h : (isBlank c || isBreak c) = true) :
    read? gap (c :: rest) = read? (gap.push c) rest := by
  rw [read?.eq_def]
  dsimp only
  rw [if_pos h]

theorem read?_of_letter (hblank : isBlank c = false) (hbreak : isBreak c = false)
    (hstart : gap.atLineStart = false) (hquote : c ≠ '"') (hescape : c ≠ '\\') :
    read? gap (c :: rest) = (read? .empty rest).map fun (content, rest) =>
      (gap.text ++ c :: content, rest) := by
  rw [read?.eq_def]
  simp only [hblank, hbreak, hstart, hquote, hescape, Bool.or_self, Bool.false_and,
    Bool.false_eq_true, if_false]

theorem read?_quote (hstart : gap.atLineStart = false) :
    read? gap ('"' :: rest) = some (gap.text, rest) := by
  rw [read?.eq_def]
  simp only [hstart, Bool.false_and, Bool.false_eq_true, if_false, if_true]
  rfl

theorem read?_of_unescape {d : Char} (hstart : gap.atLineStart = false) (h : unescape? d = some c)
    (hhex : d ≠ 'x' ∧ d ≠ 'u' ∧ d ≠ 'U') (hbreak : isBreak d = false) :
    read? gap ('\\' :: d :: rest) = (read? .empty rest).map fun (content, rest) =>
      (gap.text ++ c :: content, rest) := by
  obtain ⟨hx, hu, hU⟩ := hhex
  rw [read?.eq_def]
  simp only [hstart, Bool.false_and, Bool.false_eq_true, if_false, if_true]
  rw [if_neg (by decide), if_neg (by decide)]
  split
  · rename_i heq
    cases heq
  · rename_i heq
    exact absurd (List.cons.inj heq).1 hx
  · rename_i heq
    exact absurd (List.cons.inj heq).1 hu
  · rename_i heq
    exact absurd (List.cons.inj heq).1 hU
  · rename_i heq
    obtain ⟨rfl, rfl⟩ := List.cons.inj heq
    simp only [hbreak, h, Bool.false_eq_true, if_false]
    rfl

theorem read?_x {a b : Char} (hstart : gap.atLineStart = false) (h : ofHex? [a, b] = some c) :
    read? gap ('\\' :: 'x' :: a :: b :: rest) = (read? .empty rest).map fun (content, rest) =>
      (gap.text ++ c :: content, rest) := by
  rw [read?.eq_def]
  simp only [hstart, Bool.false_and, Bool.false_eq_true, if_false, if_true, h]
  rfl

theorem read?_u {a b d e : Char} (hstart : gap.atLineStart = false)
    (h : ofHex? [a, b, d, e] = some c) :
    read? gap ('\\' :: 'u' :: a :: b :: d :: e :: rest) =
      (read? .empty rest).map fun (content, rest) =>
      (gap.text ++ c :: content, rest) := by
  rw [read?.eq_def]
  simp only [hstart, Bool.false_and, Bool.false_eq_true, if_false, if_true, h]
  rfl

theorem read?_U {a b d e i j k l : Char} (hstart : gap.atLineStart = false)
    (h : ofHex? [a, b, d, e, i, j, k, l] = some c) :
    read? gap ('\\' :: 'U' :: a :: b :: d :: e :: i :: j :: k :: l :: rest) =
      (read? .empty rest).map fun (content, rest) => (gap.text ++ c :: content, rest) := by
  rw [read?.eq_def]
  simp only [hstart, Bool.false_and, Bool.false_eq_true, if_false, if_true, h]
  rfl

theorem ofHex?_hexDigits {count : Nat} (h : c.toNat < Nat.pow 16 count) :
    ofHex? (hexDigits count c.toNat) = some c := by
  have hvalid : c.toNat < 0xd800 ∨ (0xdfff < c.toNat ∧ c.toNat < 0x110000) := c.valid
  unfold ofHex? hexDigits
  rw [Text.ofDigits?_hex count c.toNat h]
  simp only [bind, Option.bind_some, if_pos hvalid, Char.ofNat_toNat]

theorem read?_hex (hstart : gap.atLineStart = false) (c : Char) (rest : List Char) :
    read? gap ((if c.toNat ≤ 0xff then '\\' :: 'x' :: hexDigits 2 c.toNat
      else if c.toNat ≤ 0xffff then '\\' :: 'u' :: hexDigits 4 c.toNat
      else '\\' :: 'U' :: hexDigits 8 c.toNat) ++ rest) =
      (read? .empty rest).map fun (content, rest) => (gap.text ++ c :: content, rest) := by
  have hvalid : c.toNat < 0xd800 ∨ (0xdfff < c.toNat ∧ c.toNat < 0x110000) := c.valid
  split
  · exact read?_x hstart (@ofHex?_hexDigits c 2 (show c.toNat < 0x100 by omega))
  · split
    · exact read?_u hstart (@ofHex?_hexDigits c 4 (show c.toNat < 0x10000 by omega))
    · exact read?_U hstart (@ofHex?_hexDigits c 8 (show c.toNat < 0x100000000 by omega))

theorem read?_escape (hstart : gap.atLineStart = false) (c : Char) (rest : List Char) :
    read? gap (escape c ++ rest) =
      (read? .empty rest).map fun (content, rest) => (gap.text ++ c :: content, rest) := by
  unfold escape
  split
  all_goals first
    | exact read?_of_unescape hstart rfl (by decide) rfl
    | exact read?_hex hstart _ rest

theorem writeChar_cases (c : Char) : writeChar c = escape c ∨ (writeChar c = [c] ∧
    isPrintable c = true ∧ isBreak c = false ∧ c ≠ '"' ∧ c ≠ '\\') := by
  unfold writeChar
  split
  · exact Or.inl rfl
  · rename_i hplain
    obtain ⟨⟨⟨hprintable, hbreak⟩, hquote⟩, hescape⟩ :
        ((isPrintable c = true ∧ isBreak c = false) ∧ c ≠ '"') ∧ c ≠ '\\' := by
      simpa using hplain
    exact Or.inr ⟨rfl, hprintable, hbreak, hquote, hescape⟩

theorem read?_flatMap (blanks text rest : List Char) :
    read? (.within blanks) (text.flatMap writeChar ++ '"' :: rest) =
      some (blanks ++ text, rest) := by
  induction text generalizing blanks with
  | nil =>
    rw [List.append_nil]
    exact read?_quote Gap.atLineStart_within
  | cons c text ih =>
    have hrec := ih []
    rw [Gap.within_nil] at hrec
    rw [List.flatMap_cons, List.append_assoc]
    rcases writeChar_cases c with hwrite | ⟨hwrite, hprintable, hbreak, hquote, hescape⟩
    · rw [hwrite, read?_escape Gap.atLineStart_within, hrec]
      rfl
    · rw [hwrite, List.singleton_append]
      by_cases hspace : c = ' '
      · rw [hspace, read?_of_gap rfl, Gap.push_within rfl, ih, List.append_assoc]
        rfl
      · have hblank := isBlank_eq_false hprintable hspace
        rw [read?_of_letter hblank hbreak Gap.atLineStart_within hquote hescape, hrec]
        rfl

theorem read?_write (text rest : List Char) :
    read? .empty ((write text ++ rest).drop 1) = some (text, rest) := by
  have h := read?_flatMap [] text rest
  unfold write
  simp only [List.cons_append, List.append_assoc, List.drop_one, List.tail_cons, List.nil_append]
  exact h

end Yaml.Double

end Interpolation
