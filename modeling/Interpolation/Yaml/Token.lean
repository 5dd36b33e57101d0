import Interpolation.Text
import Interpolation.Yaml.Character

/-! The tokens of YAML make indentation and keys without a mark explicit: every block collection has
a start and an end, and every key of a mapping is announced. Anchors and aliases carry a number in
place of their name. A tag is a sequence of octets, written in full between angles, or as a handle
and a suffix, where the handle stands for a leading part that a directive declares. Percent signs
escape the octets of UTF-8; whether the characters they make up exist is not checked. -/

namespace Interpolation.Yaml

abbrev Octets := List UInt8

def octetsOf (text : List Char) : Octets :=
  (String.ofList text).toUTF8.toList

def word (text : List Char) : List Char × List Char :=
  (text.takeWhile isWordChar, text.dropWhile isWordChar)

namespace Tag

/-- A handle, the empty one for a tag that is complete, and a suffix. -/
structure Shorthand where
  handle : List Char
  suffix : Octets
deriving DecidableEq

def isUriChar (verbatim : Bool) (c : Char) : Bool :=
  isWordChar c || ";/?:@&=+$.!~*'()".toList.contains c || (verbatim && ",[]".toList.contains c)

def width? (octet : Nat) : Option Nat :=
  if octet < 0x80 then some 1
  else if octet < 0xc0 then none
  else if octet < 0xe0 then some 2
  else if octet < 0xf0 then some 3
  else if octet < 0xf8 then some 4
  else none

/-- Reads octets, with as many further octets of a character still to come. -/
def uri? (verbatim : Bool) (pending : Nat) : List Char → Option (Octets × List Char)
  | '%' :: a :: b :: rest => do
    let octet ← Text.ofDigits? 16 [a, b]
    let pending ← if pending = 0 then (width? octet).map (· - 1)
      else if 0x80 ≤ octet ∧ octet < 0xc0 then some (pending - 1) else none
    (uri? verbatim pending rest).map fun (octets, rest) => (UInt8.ofNat octet :: octets, rest)
  | c :: rest =>
    if pending = 0 then
      if c = '%' then none
      else if isUriChar verbatim c then
        (uri? verbatim 0 rest).map fun (octets, rest) => (UInt8.ofNat c.toNat :: octets, rest)
      else some ([], c :: rest)
    else none
  | [] => if pending = 0 then some ([], []) else none

/-- What stands behind an escaped zero is lost. -/
def cut (octets : Octets) : Octets :=
  octets.takeWhile (· != 0)

def handle? : List Char → Option (List Char × List Char)
  | '!' :: rest =>
    let (name, rest) := word rest
    match rest with
    | '!' :: rest => some ('!' :: name ++ ['!'], rest)
    | rest => some ('!' :: name, rest)
  | _ => none

def isHandle (text : List Char) : Bool :=
  1 < text.length && text.getLast? == some '!'

def shorthand? (text : List Char) : Option (Shorthand × List Char) :=
  match text with
  | '!' :: '<' :: rest => do
    let (octets, rest) ← uri? true 0 rest
    match rest with
    | '>' :: rest => if octets.isEmpty then none else some (⟨[], cut octets⟩, rest)
    | _ => none
  | text => do
    let (handle, rest) ← handle? text
    let (octets, rest) ← uri? false 0 rest
    if isHandle handle then
      if octets.isEmpty then none else some (⟨handle, cut octets⟩, rest)
    else
      let suffix := cut (octetsOf (handle.drop 1) ++ octets)
      some (if suffix.isEmpty then ⟨[], octetsOf ['!']⟩ else ⟨['!'], suffix⟩, rest)

/-- A tag ends with its word; between brackets a comma may follow. -/
def read? (flow : Bool) (text : List Char) : Option (Shorthand × List Char) := do
  let (shorthand, rest) ← shorthand? text
  if (flow && rest.head? == some ',') || endsWord rest then some (shorthand, rest) else none

end Tag

/-- The name of an anchor or alias. Some indicators may follow it without a blank. -/
def anchorName? (text : List Char) : Option (List Char × List Char) :=
  let (name, rest) := word text
  let ends := endsWord rest || rest.head?.any ("?:,]\x7d%@`".toList.contains ·)
  if name.isEmpty || !ends then none else some (name, rest)

inductive Directive
  | version (major minor : Nat)
  | tag (handle : List Char) (leading : Octets)
deriving DecidableEq

namespace Directive

def number? (text : List Char) : Option (Nat × List Char) :=
  let digits := text.takeWhile Char.isDigit
  if digits.isEmpty || 9 < digits.length then none
  else some (Nat.ofDigitChars 10 digits 0, text.dropWhile Char.isDigit)

def version? (text : List Char) : Option (Directive × List Char) := do
  let (major, rest) ← number? (text.dropWhile isBlank)
  match rest with
  | '.' :: rest => (number? rest).map fun (minor, rest) => (version major minor, rest)
  | _ => none

def tag? (text : List Char) : Option (Directive × List Char) := do
  let (handle, rest) ← Tag.handle? (text.dropWhile isBlank)
  if handle != ['!'] && !Tag.isHandle handle then none
  else if !rest.head?.any isBlank then none
  else
    let (octets, rest) ← Tag.uri? true 0 (rest.dropWhile isBlank)
    if octets.isEmpty || !endsWord rest then none else some (tag handle (Tag.cut octets), rest)

def read? (text : List Char) : Option (Directive × List Char) := do
  let (name, rest) := word text
  if !endsWord rest then none
  else
    let (directive, rest) ←
      if name = "YAML".toList then version? rest
      else if name = "TAG".toList then tag? rest
      else none
    some (directive, rest)

end Directive

inductive Style
  | plain
  | single
  | double
  | literal
  | folded
deriving DecidableEq

inductive Token
  | directive (directive : Directive)
  | documentStart
  | documentEnd
  | blockSequenceStart
  | blockMappingStart
  | blockEnd
  | flowSequenceStart
  | flowSequenceEnd
  | flowMappingStart
  | flowMappingEnd
  | blockEntry
  | flowEntry
  | key
  | value
  | aliasOf (anchor : Nat)
  | anchor (anchor : Nat)
  | tag (shorthand : Tag.Shorthand)
  | scalar (style : Style) (content : String)
deriving DecidableEq

inductive Lead
  | finish
  | directive
  | documentMark (token : Token)
  | flowStart (token : Token)
  | flowEnd (token : Token)
  | flowEntry
  | blockEntry
  | key
  | value
  | aliasName
  | anchorName
  | tag
  | block (folded : Bool)
  | quoted (double : Bool)
  | plain
deriving DecidableEq

/-- Characters that begin no plain scalar, unless what follows makes them part of a word. Among them
is a tab, which is left standing where it would have to indent a key. -/
def isIndicator (c : Char) : Bool :=
  isBlank c || "-?:,[]\x7b\x7d#&*!|>'\"%@`".toList.contains c

def beginsPlain (flow : Bool) (c : Char) (rest : List Char) : Bool :=
  !isIndicator c || (c == '-' && !rest.head?.any isBlank) ||
    (!flow && (c == '?' || c == ':') && !endsWord rest)

def lead? (flow : Bool) (column : Nat) : List Char → Option Lead
  | [] => some .finish
  | c :: rest =>
    if column == 0 && c == '%' then some .directive
    else if column == 0 && isDocumentMark (c :: rest) then
      some (.documentMark (if c == '-' then .documentStart else .documentEnd))
    else match c with
      | '[' => some (.flowStart .flowSequenceStart)
      | '{' => some (.flowStart .flowMappingStart)
      | ']' => some (.flowEnd .flowSequenceEnd)
      | '}' => some (.flowEnd .flowMappingEnd)
      | ',' => some .flowEntry
      | '*' => some .aliasName
      | '&' => some .anchorName
      | '!' => some .tag
      | '\'' => some (.quoted false)
      | '"' => some (.quoted true)
      | c =>
        if c == '-' && endsWord rest then some .blockEntry
        else if c == '?' && (flow || endsWord rest) then some .key
        else if c == ':' && (flow || endsWord rest) then some .value
        else if c == '|' && !flow then some (.block false)
        else if c == '>' && !flow then some (.block true)
        else if beginsPlain flow c rest then some .plain
        else none

end Interpolation.Yaml
