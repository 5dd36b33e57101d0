import Interpolation.Proofs.Name
import Interpolation.Proofs.Settings.Document

/-! Settings survive being written and read. The mapping that is read from what is written has the
keys of the settings, each once, and the names of the values as they were. So the settings come
back, except that a NaN comes back as the one NaN that can be written. -/

namespace Interpolation

namespace Settings

open Yaml

def valuesNodes : List (String × Scalar) → List (Node × Node)
  | [] => []
  | value :: values => [(.scalar none none .plain "values",
      .mapping none (((value :: values).map entry).map Entry.nodes))]

def fieldNodes (settings : Settings) : List (Node × Node) :=
  (field "default".toList settings.default).nodes :: (valuesNodes settings.values.entries ++
    [(field "strict".toList (.boolean settings.strict)).nodes])

theorem readBlockEntries?_values {handles : Handles} {rest : List Token}
    {entries : List (Node × Node)} {least fuel : Nat} (values : List (String × Scalar))
    (hrest : ∀ fuel, least ≤ fuel → Node.readBlockEntries? handles fuel rest = some (entries, []))
    (hfuel : values.length + least + 5 ≤ fuel) :
    Node.readBlockEntries? handles fuel (valuesTokens values ++ rest) =
      some (valuesNodes values ++ entries, []) := by
  cases values with
  | nil => exact hrest fuel (by omega)
  | cons value values =>
    obtain ⟨fuel, rfl⟩ := Nat.exists_eq_add_of_le' (show 3 ≤ fuel by omega)
    have hlength : ((value :: values).map entry).length + 2 ≤ fuel := by
      rw [List.length_map]
      omega
    have hinner := @Node.readBlockEntries?_entries handles fuel rest
      ((value :: values).map entry) hlength
    have hcons := @Node.readBlockEntries?_cons handles fuel rest .plain "values" _ _
      (Node.readOr?_mapping rfl hinner)
    rw [hrest (fuel + 2) (by omega)] at hcons
    have htokens : valuesTokens (value :: values) ++ rest =
        .key :: .scalar .plain "values" :: .value :: .blockMappingStart ::
          (((value :: values).map entry).flatMap Entry.tokens ++ .blockEnd :: rest) := by
      unfold valuesTokens
      simp only [List.append_assoc, List.cons_append, List.nil_append]
    rw [htokens, hcons]
    rfl

theorem length_valuesTokens (values : List (String × Scalar)) :
    values.length ≤ (valuesTokens values).length := by
  cases values with
  | nil => exact Nat.le_refl _
  | cons value values =>
    have h := length_le_flatMap_tokens ((value :: values).map entry)
    rw [List.length_map] at h
    unfold valuesTokens
    rw [List.length_append, List.length_append]
    omega

theorem readBlockEntries?_fieldTokens (handles : Handles) {settings : Settings} {fuel : Nat}
    (hfuel : (fieldTokens settings).length + 4 ≤ fuel) :
    Node.readBlockEntries? handles fuel (fieldTokens settings) =
      some (fieldNodes settings, []) := by
  have hlength := length_valuesTokens settings.values.entries
  have htotal : (fieldTokens settings).length =
      (valuesTokens settings.values.entries).length + 9 := by
    unfold fieldTokens
    simp only [List.length_append]
    have hfour : ∀ key scalar, (field key scalar).tokens.length = 4 := fun _ _ => rfl
    rw [hfour, hfour, List.length_singleton]
    omega
  obtain ⟨fuel, rfl⟩ := Nat.exists_eq_add_of_le' (show 3 ≤ fuel by omega)
  have hlast : ∀ fuel, 3 ≤ fuel → Node.readBlockEntries? handles fuel
      ((field "strict".toList (.boolean settings.strict)).tokens ++ [.blockEnd]) =
        some ([(field "strict".toList (.boolean settings.strict)).nodes], []) :=
    fun fuel h => @Node.readBlockEntries?_entries handles fuel []
      [field "strict".toList (.boolean settings.strict)] h
  have hvalues := readBlockEntries?_values settings.values.entries hlast
    (show settings.values.entries.length + 3 + 5 ≤ fuel + 2 by omega)
  unfold fieldTokens
  rw [Node.readBlockEntries?_scalar, hvalues]
  rfl

theorem document?_toYaml {settings : Settings}
    (h : ∀ name ∈ settings.values.names, isName name = true) :
    document? settings.toYaml = some (.mapping none (fieldNodes settings)) := by
  have hentries := @readBlockEntries?_fieldTokens .standard settings
    (3 * (fieldTokens settings).length + 5) (by omega)
  unfold document?
  rw [tokens?_toYaml h]
  exact Node.ofTokens?_mapping hentries

def canonical (settings : Settings) : Settings :=
  ⟨settings.default.canonical, settings.values.map Scalar.canonical, settings.strict⟩

theorem scalar?_content (document : Node) (scalar : Scalar) :
    scalar? document (.scalar none none scalar.style (String.ofList scalar.content)) =
      some scalar.canonical :=
  ofScalar?_content scalar

theorem mapM_entries (document : Node) (values : List (String × Scalar)) :
    ((values.map entry).map Entry.nodes).mapM
        (fun (key, value) => do return (← key? document key, ← scalar? document value)) =
      some (values.map fun value => (value.1, value.2.canonical)) := by
  induction values with
  | nil => rfl
  | cons value values ih =>
    have hkey : key? document (entry value).nodes.1 = some value.1 :=
      congrArg some String.ofList_toList
    have hvalue : scalar? document (entry value).nodes.2 = some value.2.canonical :=
      scalar?_content document value.2
    rw [List.map_cons, List.map_cons, List.mapM_cons, ih]
    simp only [hkey, hvalue, bind, Option.bind_some, pure]
    rfl

theorem values?_nodes (document : Node) (values : List (String × Scalar)) :
    values? document (.mapping none ((values.map entry).map Entry.nodes)) =
      some (.ofList (values.map fun value => (value.1, value.2.canonical))) := by
  have hentries := mapM_entries document values
  exact congrArg (Option.bind · fun entries => some (NameMap.ofList entries)) hentries

theorem strict?_node (document : Node) (strict : Bool) :
    strict? document (field "strict".toList (.boolean strict)).nodes.2 = some strict := by
  cases strict with
  | false => rfl
  | true => rfl

def fields (default strict : Node) : List (String × Scalar) → List (String × Node)
  | [] => [("default", default), ("strict", strict)]
  | value :: values => [("default", default),
      ("values", .mapping none (((value :: values).map entry).map Entry.nodes)), ("strict", strict)]

theorem mapM_fieldNodes (document : Node) (settings : Settings) :
    (fieldNodes settings).mapM (fun (key, value) => return (← key? document key, value)) =
      some (fields (field "default".toList settings.default).nodes.2
        (field "strict".toList (.boolean settings.strict)).nodes.2 settings.values.entries) := by
  unfold fieldNodes
  cases settings.values.entries with
  | nil => rfl
  | cons value values => rfl

theorem field?_default (default strict : Node) (values : List (String × Scalar)) :
    field? (fields default strict values) "default" = some (some default) := by
  cases values with
  | nil => rfl
  | cons value values => rfl

theorem field?_strict (default strict : Node) (values : List (String × Scalar)) :
    field? (fields default strict values) "strict" = some (some strict) := by
  cases values with
  | nil => rfl
  | cons value values => rfl

theorem ofDocument?_fieldNodes (settings : Settings) :
    ofDocument? (.mapping none (fieldNodes settings)) = some settings.canonical := by
  have hfields := mapM_fieldNodes (.mapping none (fieldNodes settings)) settings
  have hdefault : scalar? (.mapping none (fieldNodes settings))
      (field "default".toList settings.default).nodes.2 = some settings.default.canonical :=
    scalar?_content _ settings.default
  have hstrict := strict?_node (.mapping none (fieldNodes settings)) settings.strict
  have hvalues := values?_nodes (.mapping none (fieldNodes settings)) settings.values.entries
  have hsame : NameMap.ofList (settings.values.entries.map fun value =>
      (value.1, value.2.canonical)) = settings.values.map Scalar.canonical :=
    NameMap.ofList_entries (settings.values.map Scalar.canonical)
  unfold ofDocument? canonical
  dsimp only
  rw [hfields, ← hsame]
  simp only [bind, Option.bind_some, field?_default, field?_strict, hdefault, hstrict]
  -- Without values their key is left out, and the reader takes the empty map instead.
  cases hentries : settings.values.entries with
  | nil => rfl
  | cons value values =>
    have hfield (default strict : Node) :
        field? (fields default strict (value :: values)) "values" =
          some (some (.mapping none (((value :: values).map entry).map Entry.nodes))) := rfl
    rw [hentries] at hvalues
    simp only [Option.bind_some, hfield, hvalues]
    rfl

theorem checkNames_of_isName {settings : Settings}
    (h : ∀ name ∈ settings.values.names, isName name = true) :
    settings.checkNames = .ok settings := by
  have hfind : settings.values.names.find? (!isName ·) = none := by
    rw [List.find?_eq_none]
    intro name hname
    simp [h name hname]
  unfold checkNames
  rw [hfind]

theorem ofYaml_eq_canonical {settings : Settings}
    (h : ∀ name ∈ settings.values.names, isName name = true) :
    ofYaml settings.toYaml = .ok settings.canonical := by
  have hnames : ∀ name ∈ settings.canonical.values.names, isName name = true := by
    intro name hname
    apply h
    rwa [← NameMap.names_map Scalar.canonical settings.values]
  unfold ofYaml
  rw [document?_toYaml h, Option.bind_some, ofDocument?_fieldNodes]
  exact checkNames_of_isName hnames

end Settings

namespace Scalar

/-- The same kind and the same payload, floats bit for bit; of a NaN only that it is one. -/
def Same : Scalar → Scalar → Prop
  | boolean a, boolean b => a = b
  | integer a, integer b => a = b
  | float x, float y => x.bits = y.bits ∨ (x.isNaN = true ∧ y.isNaN = true)
  | text a, text b => a = b
  | _, _ => False

theorem same_canonical (scalar : Scalar) : scalar.Same scalar.canonical := by
  cases scalar with
  | boolean b => exact rfl
  | integer n => exact rfl
  | text content => exact rfl
  | float x =>
    unfold canonical Same
    dsimp only
    by_cases hnan : x.isNaN = true
    · rw [if_pos hnan]
      exact Or.inr ⟨hnan, Binary64.isNaN_nan⟩
    · rw [if_neg hnan]
      exact Or.inl rfl

end Scalar

namespace Settings

/-- Settings with valid names come back from what is written: the strictness, the names, the default
and the value of each name, and with no value another name gets one. -/
theorem ofYaml_toYaml {settings : Settings}
    (h : ∀ name ∈ settings.values.names, isName name = true) :
    ∃ reread, ofYaml settings.toYaml = .ok reread ∧ reread.strict = settings.strict ∧
      reread.values.names = settings.values.names ∧ settings.default.Same reread.default ∧
      ∀ name, Option.Rel Scalar.Same (settings.values.get? name) (reread.values.get? name) := by
  refine ⟨settings.canonical, ofYaml_eq_canonical h, rfl, NameMap.names_map _ _,
    Scalar.same_canonical settings.default, ?_⟩
  intro name
  have hget : settings.canonical.values.get? name =
      (settings.values.get? name).map Scalar.canonical :=
    NameMap.get?_map Scalar.canonical settings.values name
  rw [hget]
  cases settings.values.get? name with
  | none => exact Option.Rel.none
  | some value => exact Option.Rel.some (Scalar.same_canonical value)

/-- Text that means something else wherever it is not quoted. -/
def reserved : Settings :=
  ⟨.text "~", .ofList [("no", .text "a: b\n  # c\n\n"), ("1", .text "-.inf"),
    ("zero", .float (.ofMagnitude true 0))], false⟩

theorem ofYaml_toYaml_reserved : (∀ name ∈ reserved.values.names, isName name = true) ∧
    ∃ reread, ofYaml reserved.toYaml = .ok reread ∧ reread.strict = reserved.strict ∧
      reread.values.names = reserved.values.names ∧ reserved.default.Same reread.default ∧
      ∀ name, Option.Rel Scalar.Same (reserved.values.get? name) (reread.values.get? name) :=
  ⟨by decide +kernel, ofYaml_toYaml (by decide +kernel)⟩

end Settings

end Interpolation
