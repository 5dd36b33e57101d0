import Interpolation.Template
import Interpolation.Template.Reader
import Interpolation.Text

/-! The texts of templates: the words a text may be cut into and the item each of them spells, the
text that a template is printed as, and the text without the blanks inside its placeholders. The
grammar leaves it open where a word ends; that a text can be cut in at most one way is a theorem,
not a rule. -/

namespace Interpolation.Template

def Reference.spelling : Reference → List Char
  | named name => '$' :: name.toList
  | default => ['.']

def doubleBrace (c : Char) : List Char :=
  if c = '{' ∨ c = '}' then [c, c] else [c]

def Part.print : Part → List Char
  | literal text => text.toList.flatMap doubleBrace
  | placeholder p => '{' :: p.reference.spelling ++ ['}']

def print (template : Template) : String :=
  String.ofList (template.parts.flatMap Part.print)

def Reference.IsSpellable (reference : Reference) : Prop :=
  ∀ name, reference = named name → isName name

inductive Word
  | openingBrace
  | closingBrace
  | character (c : Char)
  | placeholder (before : List Char) (reference : Reference) (after : List Char)
deriving DecidableEq

namespace Word

def text : Word → List Char
  | openingBrace => ['{', '{']
  | closingBrace => ['}', '}']
  | character c => [c]
  | placeholder before reference after => '{' :: before ++ reference.spelling ++ after ++ ['}']

def item (here : Position) : Word → Item
  | openingBrace => .character '{'
  | closingBrace => .character '}'
  | character c => .character c
  | placeholder _ reference _ => .placeholder ⟨reference, here⟩

def name? : Word → Option String
  | placeholder _ reference _ => reference.name?
  | _ => none

inductive IsValid : Word → Prop
  | openingBrace : IsValid openingBrace
  | closingBrace : IsValid closingBrace
  | character {c : Char} (hopen : c ≠ '{') (hclose : c ≠ '}') : IsValid (character c)
  | placeholder {before after : List Char} {reference : Reference}
    (hbefore : ∀ c ∈ before, Text.isBlank c) (hreference : reference.IsSpellable)
    (hafter : ∀ c ∈ after, Text.isBlank c) : IsValid (placeholder before reference after)

def items (here : Position) : List Word → List Item
  | [] => []
  | word :: words => word.item here :: items (here.after word.text) words

end Word

inductive Derives : List Word → List Char → Prop
  | nil : Derives [] []
  | cons {word words rest} (head : word.IsValid) (tail : Derives words rest) :
    Derives (word :: words) (word.text ++ rest)

/-- Neither an empty literal nor two literals side by side. -/
inductive IsJoined : List Part → Prop
  | nil : IsJoined []
  | literal {text : String} (hne : text ≠ "") : IsJoined [.literal text]
  | placeholder {p : Placeholder} {parts} (tail : IsJoined parts) :
    IsJoined (.placeholder p :: parts)
  | literalPlaceholder {text : String} {p : Placeholder} {parts} (hne : text ≠ "")
    (tail : IsJoined parts) : IsJoined (.literal text :: .placeholder p :: parts)

def Part.items : Part → List Item
  | literal text => text.toList.map .character
  | placeholder p => [.placeholder p]

mutual

/-- Outside of placeholders nothing is deleted. A doubled brace begins no placeholder. -/
def tighten : List Char → List Char
  | [] => []
  | [c] => [c]
  | c :: d :: rest =>
    if c = '{' ∧ d = '{' then c :: d :: tighten rest
    else if c = '{' then c :: tightenInside (d :: rest)
    else c :: tighten (d :: rest)

def tightenInside : List Char → List Char
  | [] => []
  | c :: rest =>
    if c = '}' then c :: tighten rest
    else if Text.isBlank c then tightenInside rest
    else c :: tightenInside rest

end

end Interpolation.Template
