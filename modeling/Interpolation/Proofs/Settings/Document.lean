import Interpolation.Proofs.Settings.Scalar
import Interpolation.Proofs.Yaml.Node
import Interpolation.Settings.Writer

/-! What is written for settings is read as one mapping of at most three entries, in which the
values are a mapping of their own. However a scalar is written, the lines behind it are read as if
they stood alone. -/

namespace Interpolation.Settings

open Yaml

def entry (value : String × Scalar) : Yaml.Entry :=
  ⟨Yaml.Scalar.style value.1, value.1.toList, value.2.style, value.2.content⟩

/-- The lines of one value behind their indentation, up to a text on the line behind them. -/
def entryBody (value : String × Scalar) (column : Nat) (text : List Char) : List Char :=
  if Yaml.Scalar.isSimpleKey value.1 then
    Yaml.Scalar.write 4 value.1 ++ ':' :: Scan.valueText (scalarText 4 value.2) column text
  else '?' :: Scan.valueText (Yaml.Scalar.write 4 value.1) 2
    (':' :: Scan.valueText (scalarText 4 value.2) column text)

/-- The lines of some values behind the first indentation, up to a text at the start of a line. -/
def entriesBody (value : String × Scalar) (text : List Char) : List (String × Scalar) → List Char
  | [] => entryBody value 0 text
  | next :: values => entryBody value 2 (entriesBody next text values)

def fieldText (key : List Char) (scalar text : List Char) : List Char :=
  key ++ ':' :: Scan.valueText scalar 0 text

def strictText (strict : Bool) : List Char :=
  fieldText "strict".toList (truthText strict) []

def valuesBody (values : List (String × Scalar)) (text : List Char) : List Char :=
  match values with
  | [] => text
  | value :: values =>
    "values".toList ++ ':' :: '\n' :: (List.replicate 2 ' ' ++ entriesBody value text values)

theorem endLine_eq (text : List Char) : endLine text = text ++ Block.lineEnd text := by
  unfold endLine Block.lineEnd
  split
  · exact (List.append_nil text).symm
  · rfl

theorem endLine_append (front : List Char) {written : List Char} (h : written ≠ []) :
    endLine (front ++ written) = front ++ (written ++ Block.lineEnd written) := by
  rw [endLine_eq, List.append_assoc]
  unfold Block.lineEnd
  rw [List.getLast?_append_of_ne_nil front h]

theorem scalarText_ne_nil (column : Nat) (scalar : Scalar) : scalarText (column + 2) scalar ≠ [] :=
  (spells_scalarText column scalar).ne_nil

theorem entryText_eq (value : String × Scalar) (column : Nat) (text : List Char) :
    entryText value.1 value.2 ++ (List.replicate column ' ' ++ text) =
      ' ' :: ' ' :: entryBody value column text := by
  have hscalar := scalarText_ne_nil 2 value.2
  have hname := (spells_write 2 value.1).ne_nil
  unfold entryText entryBody Scan.valueText
  split
  · have hend := endLine_append (' ' :: ' ' :: Yaml.Scalar.write 4 value.1 ++ [':', ' ']) hscalar
    simp only [List.append_assoc, List.cons_append, List.nil_append] at hend ⊢
    rw [hend]
    simp only [List.append_assoc, List.cons_append]
  · have hmark : "  ? ".toList = [' ', ' ', '?', ' '] := rfl
    have hcolon : "  :".toList = [' ', ' ', ':'] := rfl
    have hkey := endLine_append [' ', ' ', '?', ' '] hname
    have hend := endLine_append ([' ', ' ', '?', ' '] ++ (Yaml.Scalar.write 4 value.1 ++
      Block.lineEnd (Yaml.Scalar.write 4 value.1)) ++ [' ', ' ', ':', ' ']) hscalar
    rw [hmark, hcolon, hkey]
    simp only [List.append_assoc, List.cons_append, List.nil_append] at hend ⊢
    rw [hend]
    simp only [List.append_assoc, List.cons_append, List.replicate_succ, List.replicate_zero,
      List.nil_append]

theorem entriesText_eq (value : String × Scalar) (text : List Char)
    (values : List (String × Scalar)) :
    (value :: values).flatMap (fun (name, value) => entryText name value) ++ text =
      ' ' :: ' ' :: entriesBody value text values := by
  induction values generalizing value with
  | nil =>
    have h := entryText_eq value 0 text
    rw [List.flatMap_cons, List.flatMap_nil, List.append_nil]
    exact h
  | cons next values ih =>
    have h := entryText_eq value 2 (entriesBody next text values)
    rw [List.flatMap_cons, List.append_assoc, ih]
    exact h

theorem valuesText_eq (values : NameMap Scalar) (text : List Char) :
    valuesText values ++ text = valuesBody values.entries text := by
  unfold valuesText valuesBody NameMap.isEmpty
  cases values.entries with
  | nil => rfl
  | cons value values =>
    have h := entriesText_eq value text values
    dsimp only [List.isEmpty]
    rw [if_neg Bool.false_ne_true, List.append_assoc, h]
    rfl

theorem strictText_eq (strict : Bool) :
    strictText strict = "strict: ".toList ++ (truthText strict ++ ['\n']) := by
  cases strict with
  | false => rfl
  | true => rfl

theorem toList_toYaml (settings : Settings) : settings.toYaml.toList =
    fieldText "default".toList (scalarText 2 settings.default)
      (valuesBody settings.values.entries (strictText settings.strict)) := by
  have hend := endLine_append "default: ".toList (scalarText_ne_nil 0 settings.default)
  have hvalues := valuesText_eq settings.values (strictText settings.strict)
  unfold toYaml
  rw [String.toList_ofList, hend, ← hvalues, strictText_eq]
  simp only [List.append_assoc]
  rfl

theorem shown_valueText {written text : List Char} (column : Nat) (hwritten : Shown written)
    (htext : Shown text) : Shown (Scan.valueText written column text) := by
  have hend : Shown (Block.lineEnd written) := by
    unfold Block.lineEnd
    split
    · exact Shown.nil
    · exact Shown.nil.cons rfl
  exact (hwritten.append (hend.append ((Shown.spaces column).append htext))).cons rfl

theorem shown_entryBody (value : String × Scalar) (column : Nat) {text : List Char}
    (h : Shown text) :
    Shown (entryBody value column text) := by
  have hvalue := (shown_valueText column (shown_scalarText 4 value.2) h).cons (c := ':') rfl
  unfold entryBody
  split
  · exact (Yaml.Scalar.shown_write 4 value.1).append hvalue
  · exact (shown_valueText 2 (Yaml.Scalar.shown_write 4 value.1) hvalue).cons rfl

theorem shown_entriesBody {text : List Char} (h : Shown text) (value : String × Scalar)
    (values : List (String × Scalar)) : Shown (entriesBody value text values) := by
  induction values generalizing value with
  | nil => exact shown_entryBody value 0 h
  | cons next values ih => exact shown_entryBody value 2 (ih next)

theorem shown_fieldText {key scalar text : List Char} (hkey : Shown key) (hscalar : Shown scalar)
    (htext : Shown text) : Shown (fieldText key scalar text) :=
  hkey.append ((shown_valueText 0 hscalar htext).cons rfl)

theorem shown_valuesBody {text : List Char} (h : Shown text) (values : List (String × Scalar)) :
    Shown (valuesBody values text) := by
  have hkey : Plain.Standing "values".toList := by decide
  cases values with
  | nil => exact h
  | cons value values =>
    have hbody := shown_entriesBody h value values
    exact Shown.append hkey.printable ((((Shown.spaces 2).append hbody).cons rfl).cons rfl)

theorem shown_toYaml (settings : Settings) : Shown settings.toYaml.toList := by
  have hdefault : Plain.Standing "default".toList := by decide
  have hstrict : Plain.Standing "strict".toList := by decide
  have hlast : Shown (strictText settings.strict) :=
    shown_fieldText hstrict.printable (standing_truthText settings.strict).printable Shown.nil
  rw [toList_toYaml]
  exact shown_fieldText hdefault.printable (shown_scalarText 2 settings.default)
    (shown_valuesBody hlast settings.values.entries)

theorem write_of_isName {name : String} (h : isName name = true) :
    (∀ c ∈ Yaml.Scalar.write 4 name, isBreak c = false) ∧
      (Yaml.Scalar.isSimpleKey name = true → (Yaml.Scalar.write 4 name).length ≤ 1024) := by
  obtain ⟨honeLine, hlength⟩ := Yaml.write_of_safe 4 (isSafeText_of_isName h)
  refine ⟨honeLine, ?_⟩
  intro hsimple
  have hsize : name.utf8ByteSize ≤ 128 := by
    simp only [Yaml.Scalar.isSimpleKey, Bool.and_eq_true, decide_eq_true_eq] at hsimple
    exact hsimple.2
  have hcount := length_le_utf8ByteSize name.toList
  rw [String.ofList_toList] at hcount
  omega

theorem beginsToken_entryBody (value : String × Scalar) (column : Nat) (text : List Char) :
    BeginsToken (entryBody value column text) := by
  unfold entryBody
  split
  · exact (spells_write 2 value.1).beginsToken _
  · exact beginsToken_cons rfl rfl rfl _

theorem beginsToken_entriesBody (value : String × Scalar) (text : List Char)
    (values : List (String × Scalar)) : BeginsToken (entriesBody value text values) := by
  cases values with
  | nil => exact beginsToken_entryBody value 0 text
  | cons next values => exact beginsToken_entryBody value 2 _

open Scan

variable {scan : Scan} {tokens : List Token} {indents outer : List Nat} {text : List Char}

theorem exists_entryBody {value : String × Scalar} {column : Nat}
    (harrives : scan.Arrives 2 (entryBody value column text) tokens indents)
    (hname : isName value.1 = true) (hindents : indents.head?.all (· ≤ 2))
    (hopening : opening 2 indents = 2 :: outer) (htext : BeginsToken text) (hcolumn : column ≤ 2) :
    ∃ next, scan.Leads next ∧ next.Arrives column text
      (ends column (2 :: outer) ++ ((entry value).tokens.reverse ++ (opened 2 indents ++ tokens)))
      (remaining column (2 :: outer)) := by
  obtain ⟨honeLine, hshort⟩ := write_of_isName hname
  have hkey : Spells 2 (Yaml.Scalar.write 4 value.1) (entry value).keyStyle (entry value).key :=
    spells_write 2 value.1
  have hvalue : Spells 2 (scalarText 4 value.2) (entry value).valueStyle (entry value).value :=
    spells_scalarText 2 value.2
  unfold entryBody at harrives
  split at harrives
  · rename_i hsimple
    exact exists_entry harrives hkey honeLine (hshort hsimple) hindents hopening
      (hkey.lead? (by omega) _) hvalue htext hcolumn
  · exact exists_marked_entry harrives (by omega) hkey hopening hvalue htext hcolumn

theorem exists_entriesBody {value : String × Scalar} {values : List (String × Scalar)}
    (harrives : scan.Arrives 2 (entriesBody value text values) tokens indents)
    (hnames : ∀ v ∈ value :: values, isName v.1 = true) (hindents : indents.head?.all (· ≤ 2))
    (hopening : opening 2 indents = [2, 0]) (htext : BeginsToken text) :
    ∃ next, scan.Leads next ∧ next.Arrives 0 text
      (.blockEnd :: (((value :: values).map entry).flatMap Entry.tokens).reverse ++
        (opened 2 indents ++ tokens)) [0] := by
  induction values generalizing value scan tokens indents with
  | nil =>
    exact exists_entryBody harrives (hnames value List.mem_cons_self) hindents hopening htext
      (Nat.zero_le 2)
  | cons following values ih =>
    obtain ⟨middle, hfirst, hmiddle⟩ := exists_entryBody harrives (hnames value List.mem_cons_self)
      hindents hopening (beginsToken_entriesBody following text values) (Nat.le_refl 2)
    obtain ⟨next, hsecond, hnext⟩ := ih hmiddle
      (fun v hv => hnames v (List.mem_cons_of_mem value hv)) rfl rfl
    refine ⟨next, hfirst.trans hsecond, ?_⟩
    -- Only the first entry starts the mapping, and only the last one ends it.
    have hopened : opened 2 (remaining 2 [2, 0]) = [] := rfl
    have hends : ends 2 [2, 0] = [] := rfl
    have htokens : ((value :: following :: values).map entry).flatMap Entry.tokens =
        (entry value).tokens ++ ((following :: values).map entry).flatMap Entry.tokens := by
      rw [List.map_cons, List.flatMap_cons]
    rw [hopened, hends, List.nil_append, List.nil_append] at hnext
    rw [htokens, List.reverse_append, List.cons_append, List.append_assoc]
    exact hnext

def field (key : List Char) (scalar : Scalar) : Entry :=
  ⟨.plain, key, scalar.style, scalar.content⟩

theorem exists_field {key : List Char} {scalar : Scalar}
    (harrives : scan.Arrives 0 (fieldText key (scalarText 2 scalar) text) tokens indents)
    (hkey : Plain.Standing key) (hshort : key.length ≤ 1024)
    (hlead : ∀ tail, lead? false 0 (key ++ tail) = some .plain)
    (hindents : indents.head?.all (· ≤ 0)) (hopening : opening 0 indents = [0])
    (htext : BeginsToken text) : ∃ next, scan.Leads next ∧ next.Arrives 0 text
      ((field key scalar).tokens.reverse ++ (opened 0 indents ++ tokens)) [0] := by
  have hspells : Spells 0 key (field key scalar).keyStyle (field key scalar).key := .plain hkey
  have hvalue :
      Spells 0 (scalarText 2 scalar) (field key scalar).valueStyle (field key scalar).value :=
    spells_scalarText 0 scalar
  exact exists_entry harrives hspells hkey.oneLine hshort hindents hopening (hlead _) hvalue htext
    (Nat.le_refl 0)

theorem lead?_default (tail : List Char) :
    lead? false 0 ("default".toList ++ tail) = some .plain := rfl

theorem lead?_values (tail : List Char) :
    lead? false 0 ("values".toList ++ tail) = some .plain := rfl

theorem lead?_strict (tail : List Char) :
    lead? false 0 ("strict".toList ++ tail) = some .plain := rfl

theorem reads_of_end (harrives : scan.Arrives 0 [] tokens [0]) :
    scan.Reads (tokens.reverse ++ [.blockEnd]) := by
  obtain ⟨mark, -, -, happroach⟩ := harrives
  have hleave : (inBlock [] mark tokens [0] none true).leave? =
      some (inBlock [] mark (.blockEnd :: tokens) [] none false) := rfl
  have hreads := reads_of_leave? happroach rfl hleave
  have htokens : (inBlock [] mark (.blockEnd :: tokens) [] none false).tokens.reverse =
      tokens.reverse ++ [.blockEnd] := List.reverse_cons
  rwa [htokens] at hreads

def valuesTokens : List (String × Scalar) → List Token
  | [] => []
  | value :: values => [.key, .scalar .plain "values", .value, .blockMappingStart] ++
    (((value :: values).map entry).flatMap Entry.tokens ++ [.blockEnd])

theorem exists_values {values : List (String × Scalar)}
    (harrives : scan.Arrives 0 (valuesBody values text) tokens [0])
    (hnames : ∀ v ∈ values, isName v.1 = true) (htext : BeginsToken text) :
    ∃ next, scan.Leads next ∧
      next.Arrives 0 text ((valuesTokens values).reverse ++ tokens) [0] := by
  cases values with
  | nil => exact ⟨scan, fun _ hreads => hreads, harrives⟩
  | cons value values =>
    have hkey : Plain.Standing "values".toList := by decide
    have hspells : Spells 0 "values".toList .plain "values".toList := .plain hkey
    obtain ⟨mark, -, hfirst⟩ := exists_key harrives hspells hkey.oneLine (by decide) rfl rfl
      (lead?_values _)
    have hline := @arrives_of_line mark false
      (.value :: .scalar .plain "values" :: .key :: tokens) [0] none 2
        (entriesBody value text values) (beginsToken_entriesBody value text values) (by simp)
    obtain ⟨next, hsecond, hnext⟩ := exists_entriesBody hline hnames rfl rfl htext
    refine ⟨next, hfirst.trans hsecond, ?_⟩
    have htokens : (valuesTokens (value :: values)).reverse ++ tokens =
        .blockEnd :: (((value :: values).map entry).flatMap Entry.tokens).reverse ++
          ([.blockMappingStart] ++ .value :: .scalar .plain "values" :: .key :: tokens) := by
      unfold valuesTokens
      simp only [List.reverse_append, List.reverse_cons, List.reverse_nil, List.append_assoc,
        List.cons_append, List.nil_append]
    rw [htokens]
    exact hnext

def fieldTokens (settings : Settings) : List Token :=
  (field "default".toList settings.default).tokens ++ (valuesTokens settings.values.entries ++
    ((field "strict".toList (.boolean settings.strict)).tokens ++ [.blockEnd]))

theorem beginsToken_valuesBody (values : List (String × Scalar)) (h : BeginsToken text) :
    BeginsToken (valuesBody values text) := by
  cases values with
  | nil => exact h
  | cons value values => exact beginsToken_cons rfl rfl rfl _

theorem tokens?_toYaml {settings : Settings}
    (h : ∀ name ∈ settings.values.names, isName name = true) :
    tokens? settings.toYaml = some (.blockMappingStart :: fieldTokens settings) := by
  have hnames : ∀ v ∈ settings.values.entries, isName v.1 = true :=
    fun v hv => h v.1 (List.mem_map_of_mem hv)
  have hend : BeginsToken [] := rfl
  have hbegins : BeginsToken (strictText settings.strict) := beginsToken_cons rfl rfl rfl _
  have hstart : (inBlock settings.toYaml.toList .start [] [] none true).Arrives 0
      settings.toYaml.toList [] [] := by
    apply arrives_of_start rfl
    · rw [toList_toYaml]
      exact beginsToken_cons rfl rfl rfl _
    · intro candidate hcandidate
      cases hcandidate
  rw [toList_toYaml] at hstart
  -- From each key of the settings the scanner comes to the next, and from the last one to the end.
  obtain ⟨first, hfirst, harrives⟩ :=
    exists_field hstart (by decide) (by decide) lead?_default rfl rfl
    (beginsToken_valuesBody settings.values.entries hbegins)
  obtain ⟨second, hsecond, harrives⟩ := exists_values harrives hnames hbegins
  obtain ⟨third, hthird, harrives⟩ := @exists_field second _ [0] [] "strict".toList
    (.boolean settings.strict) harrives (by decide) (by decide) lead?_strict rfl rfl hend
  have hreads := hfirst _ (hsecond _ (hthird _ (reads_of_end harrives)))
  have htokens : ((field "strict".toList (.boolean settings.strict)).tokens.reverse ++
      ((valuesTokens settings.values.entries).reverse ++
        ((field "default".toList settings.default).tokens.reverse ++
          [Token.blockMappingStart]))).reverse ++
          [.blockEnd] = .blockMappingStart :: fieldTokens settings := by
    unfold fieldTokens
    simp only [List.reverse_append, List.reverse_reverse, List.reverse_cons, List.reverse_nil,
      List.append_assoc, List.cons_append, List.nil_append]
  unfold tokens?
  rw [source?_of_shown (shown_toYaml settings), toList_toYaml, ← htokens]
  exact hreads _ (Nat.lt_succ_self _)

end Interpolation.Settings
