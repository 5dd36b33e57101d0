import Interpolation.Json
import Interpolation.Proofs.Decimal.Numeral
import Mathlib.Data.List.Chain

/-! The text of a list of JSON tokens is cut into these tokens again. A number or a truth value has
no end of its own: it ends where the next token begins, which must not be another such word. -/

namespace Interpolation

theorem Text.digitValue?_digitChar : ∀ d < 16, digitValue? 16 (Nat.digitChar d) = some d := by
  decide

namespace Json

namespace Token

/-- Whether a token has a text of its own: its number is natural, and its characters are known. -/
def isWritten : Token → Bool
  | number natural? => natural?.isSome
  | text content? => content?.isSome
  | _ => true

/-- A word ends only where something else begins. -/
def isWord : Token → Bool
  | null => true
  | boolean _ => true
  | number _ => true
  | _ => false

end Token

theorem escape_cases (c : Char) :
    (∃ d, escape c = ['\\', d] ∧ d ≠ 'u' ∧ unescape? d = some c) ∨
    (escape c = '\\' :: 'u' :: Text.toDigits 16 4 c.toNat ∧ c.toNat < 0x20) ∨
    (escape c = [c] ∧ c ≠ '"' ∧ c ≠ '\\' ∧ ¬ c.toNat < 0x20) := by
  unfold escape
  split
  · exact .inl ⟨'"', rfl, by decide, rfl⟩
  · exact .inl ⟨'\\', rfl, by decide, rfl⟩
  · exact .inl ⟨'b', rfl, by decide, rfl⟩
  · exact .inl ⟨'f', rfl, by decide, rfl⟩
  · exact .inl ⟨'n', rfl, by decide, rfl⟩
  · exact .inl ⟨'r', rfl, by decide, rfl⟩
  · exact .inl ⟨'t', rfl, by decide, rfl⟩
  · rename_i hquote hslash _ _ _ _ _
    split
    · exact .inr (.inl ⟨rfl, ‹_›⟩)
    · exact .inr (.inr ⟨rfl, hquote, hslash, ‹_›⟩)

theorem decode?_unit {code : Nat} (h : code < 0xd800) (rest : List Piece) :
    decode? (.unit code :: rest) = (decode? rest).map (Char.ofNat code :: ·) := by
  have hsurrogate : ¬ (0xd800 ≤ code ∧ code < 0xe000) := by omega
  cases rest with
  | nil => simp [decode?, hsurrogate]
  | cons piece rest =>
    cases piece with
    | character c => simp [decode?, hsurrogate]
    | unit low =>
      have hhigh : ¬ (0xd800 ≤ code ∧ code < 0xdc00) := by omega
      have hlow : ¬ (0xdc00 ≤ code ∧ code < 0xe000) := by omega
      simp [decode?, hhigh, hlow]

theorem run_hex {tokens : List Token} {pieces : List Piece} {n : Nat} (h : n < 0x10000) :
    (Text.toDigits 16 4 n).foldlM Cutting.step ⟨tokens, .hex pieces 0 0⟩ =
      some ⟨tokens, .text (.unit n :: pieces)⟩ := by
  have hdigit : ∀ m, Text.digitValue? 16 (Nat.digitChar (m % 16)) = some (m % 16) :=
    fun m => Text.digitValue?_digitChar (m % 16) (Nat.mod_lt m (by omega))
  have hvalue : 16 * (16 * (16 * (n / 16 / 16 / 16 % 16) + n / 16 / 16 % 16) + n / 16 % 16) +
      n % 16 = n := by
    omega
  simp [Text.toDigits, Cutting.step, Cutting.accept, Mode.nextHex, hdigit, hvalue]

theorem exists_run_escape (tokens : List Token) (pieces : List Piece) (c : Char) :
    ∃ piece, (escape c).foldlM Cutting.step ⟨tokens, .text pieces⟩ =
        some ⟨tokens, .text (piece :: pieces)⟩ ∧
      ∀ rest, decode? (piece :: rest) = (decode? rest).map (c :: ·) := by
  rcases escape_cases c with ⟨d, hescape, hd, hread⟩ | ⟨hescape, hc⟩ | ⟨hescape, hquote, hslash, hc⟩
  · refine ⟨.character c, ?_, fun rest => by rw [decode?]⟩
    rw [hescape]
    simp [Cutting.step, Cutting.accept, Mode.nextText, Mode.nextEscape, hd, hread]
  · refine ⟨.unit c.toNat, ?_, fun rest => ?_⟩
    · rw [hescape]
      exact @run_hex tokens pieces c.toNat (by omega)
    · rw [decode?_unit (by omega), Char.ofNat_toNat]
  · refine ⟨.character c, ?_, fun rest => by rw [decode?]⟩
    rw [hescape]
    simp [Cutting.step, Cutting.accept, Mode.nextText, hquote, hslash, hc]

theorem exists_run_escapes (tokens : List Token) (pieces : List Piece) (content : List Char) :
    ∃ read, (content.flatMap escape).foldlM Cutting.step ⟨tokens, .text pieces⟩ =
        some ⟨tokens, .text (read.reverse ++ pieces)⟩ ∧ decode? read = some content := by
  induction content generalizing pieces with
  | nil => exact ⟨[], rfl, rfl⟩
  | cons c content ih =>
    obtain ⟨piece, hpiece, hdecode⟩ := exists_run_escape tokens pieces c
    obtain ⟨read, hread, hcontent⟩ := ih (piece :: pieces)
    refine ⟨piece :: read, ?_, ?_⟩
    · rw [List.flatMap_cons, List.foldlM_append, hpiece, List.reverse_cons, List.append_assoc]
      exact hread
    · rw [hdecode, hcontent]
      rfl

theorem run_text (tokens : List Token) (content : String) :
    (printText content).foldlM Cutting.step ⟨tokens, .between⟩ =
      some ⟨.text (some content) :: tokens, .between⟩ := by
  obtain ⟨read, hread, hdecode⟩ := exists_run_escapes tokens [] content.toList
  have hopen : Cutting.step ⟨tokens, .between⟩ '"' = some ⟨tokens, .text []⟩ := rfl
  have hclose : Cutting.step ⟨tokens, .text read.reverse⟩ '"' =
      some ⟨.text ((decode? read.reverse.reverse).map String.ofList) :: tokens, .between⟩ := rfl
  rw [List.reverse_reverse, hdecode, Option.map_some, String.ofList_toList] at hclose
  rw [List.append_nil] at hread
  unfold printText
  rw [List.cons_append, List.foldlM_cons, hopen]
  simp only [bind, Option.bind_some, List.foldlM_append, hread, List.foldlM_cons, hclose,
    List.foldlM_nil, pure]

theorem endsWord_of_isDigit {c : Char} (h : c.isDigit = true) : Cutting.endsWord c = false := by
  have hspace : isSpace c = false := by
    simp [isSpace, ne_of_isDigit h]
  have hquote : c ≠ '"' := ne_of_isDigit h rfl
  have hpunctuation : Token.ofPunctuation? c = none := by
    unfold Token.ofPunctuation?
    split <;> first | rfl | exact absurd h (by decide)
  simp [Cutting.endsWord, hspace, hquote, hpunctuation]

theorem endsWord_eq_false {letters : List Char} (h : letters.any Cutting.endsWord = false) :
    ∀ c ∈ letters, Cutting.endsWord c = false := by
  simpa using h

theorem run_letters {letters : List Char} (h : ∀ c ∈ letters, Cutting.endsWord c = false)
    (tokens : List Token) (front : List Char) :
    letters.foldlM Cutting.step ⟨tokens, .word front⟩ =
      some ⟨tokens, .word (letters.reverse ++ front)⟩ := by
  induction letters generalizing front with
  | nil => rfl
  | cons c letters ih =>
    have hstep : Cutting.step ⟨tokens, .word front⟩ c = some ⟨tokens, .word (c :: front)⟩ := by
      simp [Cutting.step, h c List.mem_cons_self]
    rw [List.foldlM_cons, hstep, List.reverse_cons, List.append_assoc]
    exact ih (fun d hd => h d (List.mem_cons_of_mem c hd)) (c :: front)

theorem run_word {letters : List Char} (h : ∀ c ∈ letters, Cutting.endsWord c = false)
    (hne : letters ≠ []) (tokens : List Token) :
    letters.foldlM Cutting.step ⟨tokens, .between⟩ = some ⟨tokens, .word letters.reverse⟩ := by
  obtain ⟨c, rest, rfl⟩ := List.exists_cons_of_ne_nil hne
  have hc := h c List.mem_cons_self
  have hstep : Cutting.step ⟨tokens, .between⟩ c = some ⟨tokens, .word [c]⟩ := by
    simp only [Cutting.endsWord, Bool.or_eq_false_iff, beq_eq_false_iff_ne] at hc
    obtain ⟨⟨hspace, hquote⟩, hpunctuation⟩ := hc
    have hnone := Option.isSome_eq_false_iff.mp hpunctuation
    rw [Option.isNone_iff_eq_none] at hnone
    simp [Cutting.step, Cutting.accept, Mode.nextBetween, hspace, hquote, hnone]
  rw [List.foldlM_cons, hstep, List.reverse_cons]
  exact run_letters (fun d hd => h d (List.mem_cons_of_mem c hd)) tokens [c]

theorem ofNumber?_toDigits (n : Nat) :
    Token.ofNumber? (Nat.toDigits 10 n) = some (.number (some n)) := by
  have hdigits := isDigits_toDigits n
  have hwhole := takeWhile_isDigit hdigits [] rfl
  have hrest := dropWhile_isDigit hdigits [] rfl
  have hempty : (Nat.toDigits 10 n).isEmpty = false :=
    List.isEmpty_eq_false_iff.mpr Nat.toDigits_ne_nil
  have hpadded : ((Nat.toDigits 10 n).head? == some '0' &&
      decide (1 < (Nat.toDigits 10 n).length)) = false := by
    by_cases h : n < 10
    · rw [Nat.toDigits_of_lt_base h]
      simp
    · rw [beq_eq_false_iff_ne.mpr (head?_toDigits (Nat.not_lt.mp h)), Bool.false_and]
  rw [List.append_nil] at hwhole hrest
  unfold Token.ofNumber?
  simp [hwhole, hrest, hempty, hpadded]

theorem ofWord?_toDigits (n : Nat) :
    Token.ofWord? (Nat.toDigits 10 n) = some (.number (some n)) := by
  have hfirst : ∀ {c rest}, Nat.toDigits 10 n = c :: rest → c.isDigit = true :=
    fun heq => isDigits_toDigits n _ (heq ▸ List.mem_cons_self)
  unfold Token.ofWord?
  split
  · exact absurd (hfirst ‹_›) (by decide)
  · exact absurd (hfirst ‹_›) (by decide)
  · exact absurd (hfirst ‹_›) (by decide)
  · exact absurd (hfirst ‹_›) (by decide)
  · exact ofNumber?_toDigits n

namespace Token

theorem print_of_isWord {token : Token} (hword : token.isWord = true)
    (hwritten : token.isWritten = true) :
    token.print ≠ [] ∧ (∀ c ∈ token.print, Cutting.endsWord c = false) ∧
      ofWord? token.print = some token := by
  cases token with
  | null => exact ⟨by decide, endsWord_eq_false (by decide), rfl⟩
  | boolean b =>
    cases b with
    | false => exact ⟨by decide, endsWord_eq_false (by decide), rfl⟩
    | true => exact ⟨by decide, endsWord_eq_false (by decide), rfl⟩
  | number natural? =>
    obtain ⟨n, rfl⟩ := Option.isSome_iff_exists.mp hwritten
    exact ⟨Nat.toDigits_ne_nil, fun c hc => endsWord_of_isDigit (isDigits_toDigits n c hc),
      ofWord?_toDigits n⟩
  | text content? => cases hword
  | openObject => cases hword
  | closeObject => cases hword
  | openArray => cases hword
  | closeArray => cases hword
  | colon => cases hword
  | comma => cases hword

end Token

namespace Cutting

/-- All of these tokens have been read, the newest first, and the last one perhaps without its
end. -/
def Holds (cutting : Cutting) (tokens : List Token) : Prop :=
  cutting.endWord? = some ⟨tokens, .between⟩

theorem holds_between (tokens : List Token) : Holds ⟨tokens, .between⟩ tokens := rfl

/-- What ends a word is read as if the word had ended before. -/
theorem Holds.step {cutting : Cutting} {tokens : List Token} (h : cutting.Holds tokens) {c : Char}
    (hc : endsWord c = true) : cutting.step c = Cutting.step ⟨tokens, .between⟩ c := by
  obtain ⟨read, mode⟩ := cutting
  cases mode with
  | between =>
    obtain rfl : read = tokens := congrArg Cutting.tokens (Option.some.inj h)
    rfl
  | word letters =>
    have hend : endWord? ⟨read, .word letters⟩ = some ⟨tokens, .between⟩ := h
    simp only [Cutting.step, hc, if_true, hend]
    rfl
  | text pieces => cases congrArg Cutting.mode (Option.some.inj h)
  | escape pieces => cases congrArg Cutting.mode (Option.some.inj h)
  | hex pieces count value => cases congrArg Cutting.mode (Option.some.inj h)

theorem Holds.run {cutting : Cutting} {tokens : List Token} (h : cutting.Holds tokens) {c : Char}
    (hc : endsWord c = true) (rest : List Char) :
    (c :: rest).foldlM Cutting.step cutting =
      (c :: rest).foldlM Cutting.step ⟨tokens, .between⟩ := by
  rw [List.foldlM_cons, List.foldlM_cons, h.step hc]

theorem Holds.exists_run_token {cutting : Cutting} {tokens : List Token} (h : cutting.Holds tokens)
    {token : Token} (hwritten : token.isWritten = true)
    (hmode : token.isWord = true → cutting.mode = .between) :
    ∃ next, token.print.foldlM Cutting.step cutting = some next ∧ next.Holds (token :: tokens) ∧
      (token.isWord = false → next.mode = .between) := by
  -- A word leaves the cutting inside it; every other token ends by its own last character.
  cases hword : token.isWord with
  | true =>
    obtain ⟨hne, hletters, hread⟩ := Token.print_of_isWord hword hwritten
    obtain ⟨read, mode⟩ := cutting
    obtain rfl : mode = .between := hmode hword
    obtain rfl : read = tokens := congrArg Cutting.tokens (Option.some.inj h)
    refine ⟨_, run_word hletters hne read, ?_, fun hnot => Bool.noConfusion hnot⟩
    simp [Holds, endWord?, hread]
  | false =>
    refine ⟨⟨token :: tokens, .between⟩, ?_, holds_between _, fun _ => rfl⟩
    cases token with
    | text content? =>
      obtain ⟨content, rfl⟩ := Option.isSome_iff_exists.mp hwritten
      exact (h.run rfl _).trans (run_text tokens content)
    | openObject => exact h.run rfl []
    | closeObject => exact h.run rfl []
    | openArray => exact h.run rfl []
    | closeArray => exact h.run rfl []
    | colon => exact h.run rfl []
    | comma => exact h.run rfl []
    | null => cases hword
    | boolean b => cases hword
    | number natural? => cases hword

end Cutting

def Separated (tokens : List Token) : Prop :=
  tokens.IsChain fun token next => token.isWord = true → next.isWord = false

theorem Cutting.Holds.exists_run {tokens : List Token}
    (hwritten : ∀ token ∈ tokens, token.isWritten) (hseparated : Separated tokens)
    {cutting : Cutting} {read : List Token} (h : cutting.Holds read)
    (hmode : ∀ token ∈ tokens.head?, token.isWord = true → cutting.mode = .between) :
    ∃ result, (tokens.flatMap Token.print).foldlM Cutting.step cutting = some result ∧
      result.Holds (tokens.reverse ++ read) := by
  induction tokens generalizing cutting read with
  | nil => exact ⟨cutting, rfl, h⟩
  | cons token tokens ih =>
    obtain ⟨next, hnext, hholds, hbetween⟩ :=
      h.exists_run_token (hwritten token List.mem_cons_self) (hmode token rfl)
    obtain ⟨hhead, htail⟩ := List.isChain_cons.mp hseparated
    have hmode' : ∀ other ∈ tokens.head?, other.isWord = true → next.mode = .between := by
      intro other hother hword
      apply hbetween
      cases htoken : token.isWord with
      | false => rfl
      | true => exact Bool.noConfusion (hword.symm.trans (hhead other hother htoken))
    obtain ⟨result, hresult, hread⟩ :=
      ih (fun other hother => hwritten other (List.mem_cons_of_mem token hother)) htail hholds
        hmode'
    refine ⟨result, ?_, ?_⟩
    · rw [List.flatMap_cons, List.foldlM_append, hnext]
      exact hresult
    · rw [List.reverse_cons, List.append_assoc]
      exact hread

theorem tokens?_flatMap_print {tokens : List Token} (hwritten : ∀ token ∈ tokens, token.isWritten)
    (hseparated : Separated tokens) : tokens? (tokens.flatMap Token.print) = some tokens := by
  obtain ⟨result, hresult, hholds⟩ :=
    (Cutting.holds_between []).exists_run hwritten hseparated fun _ _ _ => rfl
  have hend : result.endWord? = some ⟨tokens.reverse ++ [], .between⟩ := hholds
  unfold tokens? Cutting.finish
  have hstart : Cutting.start = ⟨[], .between⟩ := rfl
  rw [hstart, hresult]
  simp [hend]

end Json

end Interpolation
