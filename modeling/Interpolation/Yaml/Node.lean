import Interpolation.Yaml.Token
import Interpolation.Yaml.Token.Reader

/-! The tree of a document and how it is read from tokens. An alias stays an alias, so that a node
may refer to one around it. A node without content is an empty plain scalar. Mappings keep their
entries in order, also those with equal keys. A text holds exactly one document; directives may
stand in front of it when it is marked, and behind it nothing but its end mark, as often as one
likes. -/

namespace Interpolation.Yaml

inductive Node
  | aliasOf (anchor : Nat)
  | scalar (anchor? : Option Nat) (tag? : Option Octets) (style : Style) (content : String)
  | sequence (anchor? : Option Nat) (items : List Node)
  | mapping (anchor? : Option Nat) (entries : List (Node × Node))

namespace Node

def empty : Node :=
  scalar none none .plain ""

def anchor? : Node → Option Nat
  | aliasOf _ => none
  | scalar anchor? _ _ _ => anchor?
  | sequence anchor? _ => anchor?
  | mapping anchor? _ => anchor?

mutual

/-- The node with an anchor number, the last one where several have it. -/
def find? (anchor : Nat) : Node → Option Node
  | aliasOf _ => none
  | scalar anchor? tag? style content =>
    if anchor? == some anchor then some (scalar anchor? tag? style content) else none
  | sequence anchor? items =>
    (findInItems? anchor items).or
      (if anchor? == some anchor then some (sequence anchor? items) else none)
  | mapping anchor? entries =>
    (findInEntries? anchor entries).or
      (if anchor? == some anchor then some (mapping anchor? entries) else none)

def findInItems? (anchor : Nat) : List Node → Option Node
  | [] => none
  | item :: rest => (findInItems? anchor rest).or (find? anchor item)

def findInEntries? (anchor : Nat) : List (Node × Node) → Option Node
  | [] => none
  | (key, value) :: rest =>
    (findInEntries? anchor rest).or ((find? anchor value).or (find? anchor key))

end

def resolve (document : Node) : Node → Node
  | aliasOf anchor => (document.find? anchor).getD (aliasOf anchor)
  | node => node

end Node

abbrev Handles := List (List Char × Octets)

def Handles.standard : Handles :=
  [(['!'], octetsOf ['!']), (['!', '!'], octetsOf "tag:yaml.org,2002:".toList)]

def Tag.Shorthand.expand? (handles : Handles) (shorthand : Tag.Shorthand) : Option Octets :=
  if shorthand.handle.isEmpty then some shorthand.suffix
  else (handles.lookup shorthand.handle).map (· ++ shorthand.suffix)

structure Properties where
  anchor? : Option Nat
  tag? : Option Octets

def properties? (handles : Handles) : List Token → Option (Properties × List Token)
  | .anchor a :: .tag t :: rest => (t.expand? handles).map fun tag => (⟨some a, some tag⟩, rest)
  | .tag t :: .anchor a :: rest => (t.expand? handles).map fun tag => (⟨some a, some tag⟩, rest)
  | .anchor a :: rest => some (⟨some a, none⟩, rest)
  | .tag t :: rest => (t.expand? handles).map fun tag => (⟨none, some tag⟩, rest)
  | rest => some (⟨none, none⟩, rest)

namespace Node

inductive Place
  | flow
  | block
  /-- As key or value of a block mapping, where a sequence needs no indentation of its own. -/
  | entry
deriving DecidableEq

def endsBlockEntry : Token → Bool
  | .key => true
  | .value => true
  | .blockEnd => true
  | _ => false

def endsBlockItem : Token → Bool
  | .blockEntry => true
  | .blockEnd => true
  | _ => false

def endsIndentlessItem : Token → Bool
  | .blockEntry => true
  | token => endsBlockEntry token

def endsFlowItem (close : Token) (token : Token) : Bool :=
  token == .flowEntry || token == close

def endsFlowKey (close : Token) (token : Token) : Bool :=
  token == .value || endsFlowItem close token

mutual

def readOr? (handles : Handles) (place : Place) (ends : Token → Bool) :
    (fuel : Nat) → List Token → Option (Node × List Token)
  | 0, _ => none
  | fuel + 1, tokens =>
    if tokens.head?.any ends then some (empty, tokens) else read? handles place fuel tokens

def read? (handles : Handles) (place : Place) :
    (fuel : Nat) → List Token → Option (Node × List Token)
  | 0, _ => none
  | _, .aliasOf anchor :: rest => some (aliasOf anchor, rest)
  | fuel + 1, tokens => do
    let (⟨anchor?, tag?⟩, tokens) ← properties? handles tokens
    match place, tokens with
    | .entry, .blockEntry :: _ =>
      (readIndentless? handles fuel tokens).map fun (items, rest) => (sequence anchor? items, rest)
    | _, .scalar style content :: rest => some (scalar anchor? tag? style content, rest)
    | _, .flowSequenceStart :: rest =>
      (readFlowItems? handles true fuel rest).map fun (items, rest) =>
        (sequence anchor? items, rest)
    | _, .flowMappingStart :: rest =>
      (readFlowEntries? handles true fuel rest).map fun (entries, rest) =>
        (mapping anchor? entries, rest)
    | .flow, _ => emptyWith anchor? tag? tokens
    | _, .blockSequenceStart :: rest =>
      (readBlockItems? handles fuel rest).map fun (items, rest) => (sequence anchor? items, rest)
    | _, .blockMappingStart :: rest =>
      (readBlockEntries? handles fuel rest).map fun (entries, rest) =>
        (mapping anchor? entries, rest)
    | _, _ => emptyWith anchor? tag? tokens

/-- Content may be missing only where there are properties. -/
def emptyWith (anchor? : Option Nat) (tag? : Option Octets) (tokens : List Token) :
    Option (Node × List Token) :=
  if anchor?.isSome || tag?.isSome then some (scalar anchor? tag? .plain "", tokens) else none

def readBlockItems? (handles : Handles) :
    (fuel : Nat) → List Token → Option (List Node × List Token)
  | 0, _ => none
  | _, .blockEnd :: rest => some ([], rest)
  | fuel + 1, .blockEntry :: rest => do
    let (item, rest) ← readOr? handles .block endsBlockItem fuel rest
    let (items, rest) ← readBlockItems? handles fuel rest
    return (item :: items, rest)
  | _, _ => none

/-- A sequence without an indentation of its own ends before the first token that is not its. -/
def readIndentless? (handles : Handles) :
    (fuel : Nat) → List Token → Option (List Node × List Token)
  | 0, _ => none
  | fuel + 1, .blockEntry :: rest => do
    let (item, rest) ← readOr? handles .block endsIndentlessItem fuel rest
    let (items, rest) ← readIndentless? handles fuel rest
    return (item :: items, rest)
  | _, tokens => some ([], tokens)

def readBlockEntries? (handles : Handles) :
    (fuel : Nat) → List Token → Option (List (Node × Node) × List Token)
  | 0, _ => none
  | _, .blockEnd :: rest => some ([], rest)
  | fuel + 1, .key :: rest => do
    let (key, rest) ← readOr? handles .entry endsBlockEntry fuel rest
    let (value, rest) ← match rest with
      | .value :: rest => readOr? handles .entry endsBlockEntry fuel rest
      | rest => some (empty, rest)
    let (entries, rest) ← readBlockEntries? handles fuel rest
    return ((key, value) :: entries, rest)
  | _, _ => none

/-- Items between brackets, separated by commas, of which one may stand behind the last. A marked
key makes an item a mapping of one entry; where the key is empty the token behind the mark is passed
over. -/
def readFlowItems? (handles : Handles) (first : Bool) :
    (fuel : Nat) → List Token → Option (List Node × List Token)
  | 0, _ => none
  | _, .flowSequenceEnd :: rest => some ([], rest)
  | fuel + 1, tokens => do
    let tokens ← if first then some tokens else
      match tokens with
      | .flowEntry :: rest => some rest
      | _ => none
    match tokens with
    | .flowSequenceEnd :: rest => some ([], rest)
    | .key :: rest => do
      let (key, rest) ←
        if rest.head?.any (endsFlowKey .flowSequenceEnd) then some (empty, rest.drop 1)
        else read? handles .flow fuel rest
      let (value, rest) ← match rest with
        | .value :: rest => readOr? handles .flow (endsFlowItem .flowSequenceEnd) fuel rest
        | rest => some (empty, rest)
      let (items, rest) ← readFlowItems? handles false fuel rest
      return (mapping none [(key, value)] :: items, rest)
    | tokens => do
      let (item, rest) ← read? handles .flow fuel tokens
      let (items, rest) ← readFlowItems? handles false fuel rest
      return (item :: items, rest)

/-- Entries between braces, separated by commas. Without a mark a node is a key without a value. -/
def readFlowEntries? (handles : Handles) (first : Bool) :
    (fuel : Nat) → List Token → Option (List (Node × Node) × List Token)
  | 0, _ => none
  | _, .flowMappingEnd :: rest => some ([], rest)
  | fuel + 1, tokens => do
    let tokens ← if first then some tokens else
      match tokens with
      | .flowEntry :: rest => some rest
      | _ => none
    match tokens with
    | .flowMappingEnd :: rest => some ([], rest)
    | .key :: rest => do
      let (key, rest) ← readOr? handles .flow (endsFlowKey .flowMappingEnd) fuel rest
      let (value, rest) ← match rest with
        | .value :: rest => readOr? handles .flow (endsFlowItem .flowMappingEnd) fuel rest
        | rest => some (empty, rest)
      let (entries, rest) ← readFlowEntries? handles false fuel rest
      return ((key, value) :: entries, rest)
    | tokens => do
      let (key, rest) ← read? handles .flow fuel tokens
      let (entries, rest) ← readFlowEntries? handles false fuel rest
      return ((key, empty) :: entries, rest)

end

structure Prologue where
  versioned : Bool
  handles : Handles

/-- A version may be declared once, and each handle once; the versions are 1.1 and 1.2. -/
def Prologue.declare? (prologue : Prologue) : Directive → Option Prologue
  | .version major minor =>
    if !prologue.versioned && major == 1 && (minor == 1 || minor == 2) then
      some { prologue with versioned := true }
    else none
  | .tag handle leading =>
    if (prologue.handles.lookup handle).isSome then none
    else some { prologue with handles := (handle, leading) :: prologue.handles }

def readPrologue? (prologue : Prologue) : List Token → Option (Prologue × List Token)
  | .directive directive :: rest => do
    let prologue ← prologue.declare? directive
    readPrologue? prologue rest
  | tokens => some (prologue, tokens)

def isMissing : List Token → Bool
  | [] => true
  | .directive _ :: _ => true
  | .documentStart :: _ => true
  | .documentEnd :: _ => true
  | _ => false

/-- Enough fuel for any tokens: between two of them the reading goes at most two calls down. -/
def fuel (tokens : List Token) : Nat :=
  3 * tokens.length + 3

def readContent? (handles : Handles) (tokens : List Token) : Option (Node × List Token) :=
  if isMissing tokens then some (empty, tokens) else read? handles .block (fuel tokens) tokens

/-- Declared handles come before the standard ones. -/
def ofTokens? (tokens : List Token) : Option Node := do
  let (prologue, rest) ← readPrologue? ⟨false, []⟩ tokens
  let (node, rest) ← match rest with
    | .documentStart :: rest => readContent? (prologue.handles ++ .standard) rest
    | rest =>
      if prologue.versioned || !prologue.handles.isEmpty || isMissing rest then none
      else read? .standard .block (fuel rest) rest
  if rest.all (· == .documentEnd) then some node else none

end Node

def document? (text : String) : Option Node := do
  let tokens ← tokens? text
  Node.ofTokens? tokens

end Interpolation.Yaml
