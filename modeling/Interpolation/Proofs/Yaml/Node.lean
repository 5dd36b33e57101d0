import Interpolation.Proofs.Yaml.Key
import Interpolation.Yaml.Node

/-! Mappings of scalars, and one mapping inside another, are read from their tokens with any fuel
that reaches down to the scalars. -/

namespace Interpolation.Yaml

def Entry.nodes (entry : Entry) : Node × Node :=
  (.scalar none none entry.keyStyle (String.ofList entry.key),
    .scalar none none entry.valueStyle (String.ofList entry.value))

theorem length_le_flatMap_tokens (entries : List Entry) :
    entries.length ≤ (entries.flatMap Entry.tokens).length := by
  induction entries with
  | nil => exact Nat.le_refl _
  | cons entry entries ih =>
    have hfour : entry.tokens.length = 4 := rfl
    rw [List.flatMap_cons, List.length_append, List.length_cons]
    omega

namespace Node

variable {handles : Handles} {ends : Token → Bool} {fuel : Nat} {rest : List Token}

theorem read?_scalar (place : Place) (style : Style) (content : String) :
    read? handles place (fuel + 1) (.scalar style content :: rest) =
      some (scalar none none style content, rest) := by
  cases place with
  | flow => rfl
  | block => rfl
  | entry => rfl

theorem readOr?_scalar {style : Style} {content : String} (place : Place)
    (hends : ends (.scalar style content) = false) :
    readOr? handles place ends (fuel + 2) (.scalar style content :: rest) =
      some (scalar none none style content, rest) := by
  rw [readOr?, List.head?_cons, Option.any_some, hends, if_neg Bool.false_ne_true, read?_scalar]

theorem readOr?_mapping {tokens : List Token} {entries : List (Node × Node)}
    (hends : ends .blockMappingStart = false)
    (h : readBlockEntries? handles fuel tokens = some (entries, rest)) :
    readOr? handles .entry ends (fuel + 2) (.blockMappingStart :: tokens) =
      some (mapping none entries, rest) := by
  have hread : read? handles .entry (fuel + 1) (.blockMappingStart :: tokens) =
      (readBlockEntries? handles fuel tokens).map fun read => (mapping none read.1, read.2) := rfl
  rw [readOr?, List.head?_cons, Option.any_some, hends, if_neg Bool.false_ne_true, hread, h]
  rfl

theorem readBlockEntries?_cons {keyStyle : Style} {key : String} {tokens : List Token}
    {value : Node}
    (h : readOr? handles .entry endsBlockEntry (fuel + 2) tokens = some (value, rest)) :
    readBlockEntries? handles (fuel + 3) (.key :: .scalar keyStyle key :: .value :: tokens) =
      (readBlockEntries? handles (fuel + 2) rest).map fun read =>
        ((scalar none none keyStyle key, value) :: read.1, read.2) := by
  rw [readBlockEntries?, readOr?_scalar .entry rfl]
  simp only [bind, Option.bind_some, h]
  cases readBlockEntries? handles (fuel + 2) rest with
  | none => rfl
  | some read => rfl

theorem readBlockEntries?_scalar (entry : Entry) :
    readBlockEntries? handles (fuel + 3) (entry.tokens ++ rest) =
      (readBlockEntries? handles (fuel + 2) rest).map fun read => (entry.nodes :: read.1, read.2) :=
  readBlockEntries?_cons (readOr?_scalar .entry rfl)

theorem readBlockEntries?_end (handles : Handles) (fuel : Nat) (rest : List Token) :
    readBlockEntries? handles (fuel + 1) (.blockEnd :: rest) = some ([], rest) := by
  rw [readBlockEntries?]
  exact Nat.succ_ne_zero fuel

theorem readBlockEntries?_entries (entries : List Entry) (hfuel : entries.length + 2 ≤ fuel) :
    readBlockEntries? handles fuel (entries.flatMap Entry.tokens ++ .blockEnd :: rest) =
      some (entries.map Entry.nodes, rest) := by
  induction entries generalizing fuel with
  | nil =>
    obtain ⟨fuel, rfl⟩ := Nat.exists_eq_add_of_le' (show 1 ≤ fuel by omega)
    exact readBlockEntries?_end handles fuel rest
  | cons entry entries ih =>
    rw [List.length_cons] at hfuel
    obtain ⟨fuel, rfl⟩ := Nat.exists_eq_add_of_le' (show 3 ≤ fuel by omega)
    rw [List.flatMap_cons, List.append_assoc, readBlockEntries?_scalar, ih (by omega)]
    rfl

theorem ofTokens?_mapping {tokens : List Token} {entries : List (Node × Node)}
    (h : readBlockEntries? .standard (3 * tokens.length + 5) tokens = some (entries, [])) :
    ofTokens? (.blockMappingStart :: tokens) = some (mapping none entries) := by
  have hfuel : Node.fuel (.blockMappingStart :: tokens) = 3 * tokens.length + 6 := by
    unfold Node.fuel
    rw [List.length_cons]
    omega
  have hread : read? .standard .block (3 * tokens.length + 6) (.blockMappingStart :: tokens) =
      (readBlockEntries? .standard (3 * tokens.length + 5) tokens).map fun read =>
        (mapping none read.1, read.2) := rfl
  have hprologue : readPrologue? ⟨false, []⟩ (.blockMappingStart :: tokens) =
      some (⟨false, []⟩, .blockMappingStart :: tokens) := rfl
  rw [h] at hread
  unfold ofTokens?
  rw [hprologue]
  simp only [bind, Option.bind_some, hfuel, hread]
  rfl

end Node

end Interpolation.Yaml
