import Interpolation.Yaml.Scalar.Block
import Interpolation.Yaml.Scalar.Inline
import Interpolation.Yaml.Token

/-! A key without a mark is recognised only at the colon behind it. So where a key may begin, the
place is remembered as a candidate, one for each level of brackets, and a colon puts the missing
tokens there. A candidate grows stale at the end of its line and after 1024 characters; in a block
mapping, where nothing but a key can stand, that is a fault. -/

namespace Interpolation.Yaml

structure Candidate where
  place : Nat
  required : Bool
  mark : Mark
deriving DecidableEq

structure Scan where
  rest : List Char
  mark : Mark
  /-- The tokens read so far, the newest first. -/
  tokens : List Token
  indents : List Nat
  candidate? : Option Candidate
  outer : List (Option Candidate)
  keyAllowed : Bool
  anchors : List (List Char × Nat)

namespace Scan

def start (source : List Char) : Scan :=
  ⟨source, .start, [], [], none, [], true, []⟩

def inFlow (scan : Scan) : Bool :=
  !scan.outer.isEmpty

def margin (scan : Scan) : Nat :=
  scan.indents.head?.elim 0 (· + 1)

def moveTo (scan : Scan) (rest : List Char) : Scan :=
  { scan with
    rest := rest
    mark := scan.mark.advanceAll (scan.rest.take (scan.rest.length - rest.length)) }

def emit (scan : Scan) (token : Token) : Scan :=
  { scan with tokens := token :: scan.tokens }

def insertAt (place : Nat) (inserted : List Token) (scan : Scan) : Scan :=
  let later := scan.tokens.length - place
  { scan with
    tokens := scan.tokens.take later ++ inserted.reverse ++ scan.tokens.drop later }

/-- Passes over blanks, comments and breaks. A tab may not stand where a key may begin, unless
within brackets; behind a break outside of brackets a key may begin. -/
def skip (flow : Bool) (keyAllowed comment : Bool) (mark : Mark) :
    List Char → Bool × Mark × List Char
  | [] => (keyAllowed, mark, [])
  | c :: rest =>
    if isBreak c then skip flow (keyAllowed || !flow) false (mark.advance c) rest
    else if comment || c == ' ' || (c == '\t' && (flow || !keyAllowed)) then
      skip flow keyAllowed comment (mark.advance c) rest
    else if c == '#' then skip flow keyAllowed true (mark.advance c) rest
    else (keyAllowed, mark, c :: rest)

def isStale (mark : Mark) (candidate : Candidate) : Bool :=
  candidate.mark.line < mark.line || candidate.mark.index + 1024 < mark.index

def refresh? (mark : Mark) : Option Candidate → Option (Option Candidate)
  | none => some none
  | some candidate =>
    if isStale mark candidate then if candidate.required then none else some none
    else some (some candidate)

/-- Closes the block collections that stand further right than the column, unless within
brackets. -/
def unroll (column? : Option Nat) (scan : Scan) : Scan :=
  let closes (n : Nat) : Bool := column?.all (· < n)
  if scan.inFlow then scan
  else { scan with
    tokens := (scan.indents.takeWhile closes).map (fun _ => .blockEnd) ++ scan.tokens
    indents := scan.indents.dropWhile closes }

def approach? (scan : Scan) : Option Scan := do
  let (keyAllowed, mark, rest) := skip scan.inFlow scan.keyAllowed false scan.mark scan.rest
  let candidate? ← refresh? mark scan.candidate?
  let outer ← scan.outer.mapM (refresh? mark)
  return unroll (some mark.column) { scan with rest, mark, keyAllowed, candidate?, outer }

def dropCandidate? (scan : Scan) : Option Scan :=
  if scan.candidate?.any (·.required) then none else some { scan with candidate? := none }

def saveCandidate? (scan : Scan) : Option Scan :=
  if scan.keyAllowed then do
    let required := !scan.inFlow && scan.indents.head? == some scan.mark.column
    let scan ← scan.dropCandidate?
    return { scan with candidate? := some ⟨scan.tokens.length, required, scan.mark⟩ }
  else some scan

def roll (column place : Nat) (token : Token) (scan : Scan) : Scan :=
  if scan.indents.head?.all (· < column) then
    { insertAt place [token] scan with indents := column :: scan.indents }
  else scan

def rollHere? (token : Token) (scan : Scan) : Option Scan :=
  if scan.inFlow then some scan
  else if scan.keyAllowed then some (scan.roll scan.mark.column scan.tokens.length token)
  else none

def single (token : Token) (scan : Scan) : Scan :=
  (scan.moveTo (scan.rest.drop 1)).emit token

def allowKey (allowed : Bool) (scan : Scan) : Scan :=
  { scan with keyAllowed := allowed }

def leave? (scan : Scan) : Option Scan :=
  ((scan.unroll none).dropCandidate?).map (allowKey false)

/-- A colon: of the candidate, if there is one, and otherwise of a key that was marked. -/
def value? (scan : Scan) : Option Scan :=
  match scan.candidate? with
  | some candidate =>
    let scan := scan.insertAt candidate.place [.key]
    let scan := if scan.inFlow then scan
      else scan.roll candidate.mark.column candidate.place .blockMappingStart
    some (single .value { scan with candidate? := none, keyAllowed := false })
  | none => do
    let scan ← scan.rollHere? .blockMappingStart
    return single .value (allowKey (!scan.inFlow) scan)

/-- An anchor takes the count of names known before it as its number, also when its name is known
already. -/
def addAnchor (name : List Char) (scan : Scan) : Scan :=
  let number := (scan.anchors.map (·.1)).eraseDups.length
  { scan with anchors := (name, number) :: scan.anchors }.emit (.anchor number)

def addAlias? (name : List Char) (scan : Scan) : Option Scan :=
  (scan.anchors.lookup name).map fun number => scan.emit (.aliasOf number)

def scalar (style : Style) (content : List Char) (rest : List Char) (scan : Scan) : Scan :=
  (scan.moveTo rest).emit (.scalar style (String.ofList content))

def take? (scan : Scan) : Lead → Option Scan
  | .finish => none
  | .directive => do
    let scan ← scan.leave?
    let (directive, rest) ← Directive.read? (scan.rest.drop 1)
    let rest ← Block.endLine? rest
    return (scan.moveTo rest).emit (.directive directive)
  | .documentMark token => do
    let scan ← scan.leave?
    return (scan.moveTo (scan.rest.drop 3)).emit token
  | .flowStart token => do
    let scan ← scan.saveCandidate?
    return single token
      { scan with outer := scan.candidate? :: scan.outer, candidate? := none, keyAllowed := true }
  | .flowEnd token => do
    let scan ← scan.dropCandidate?
    return single token (match scan.outer with
      | [] => { scan with keyAllowed := false }
      | candidate? :: outer => { scan with candidate?, outer, keyAllowed := false })
  | .flowEntry => do
    let scan ← scan.dropCandidate?
    return single .flowEntry (scan.allowKey true)
  | .blockEntry => do
    let scan ← scan.rollHere? .blockSequenceStart
    let scan ← scan.dropCandidate?
    return single .blockEntry (scan.allowKey true)
  | .key => do
    let scan ← scan.rollHere? .blockMappingStart
    let scan ← scan.dropCandidate?
    return single .key (scan.allowKey (!scan.inFlow))
  | .value => scan.value?
  | .aliasName => do
    let scan ← scan.saveCandidate?
    let (name, rest) ← anchorName? (scan.rest.drop 1)
    ((scan.allowKey false).moveTo rest).addAlias? name
  | .anchorName => do
    let scan ← scan.saveCandidate?
    let (name, rest) ← anchorName? (scan.rest.drop 1)
    return ((scan.allowKey false).moveTo rest).addAnchor name
  | .tag => do
    let scan ← scan.saveCandidate?
    let (shorthand, rest) ← Tag.read? scan.inFlow scan.rest
    return ((scan.allowKey false).moveTo rest).emit (.tag shorthand)
  | .block folded => do
    let scan ← scan.dropCandidate?
    let (content, rest) ← Block.read? folded scan.indents.head? (scan.rest.drop 1)
    return (scan.allowKey true).scalar (if folded then .folded else .literal) content rest
  | .quoted double => do
    let scan ← scan.saveCandidate?
    let (content, rest) ←
      if double then Double.read? .empty (scan.rest.drop 1)
      else Single.read? .empty (scan.rest.drop 1)
    return (scan.allowKey false).scalar (if double then .double else .single) content rest
  | .plain => do
    let scan ← scan.saveCandidate?
    let read ← Plain.read? scan.margin scan.inFlow .empty scan.rest
    return (scan.allowKey read.broken).scalar .plain read.content read.rest

/-- Each token takes at least one character, so the length of the text and one more is enough
fuel. -/
def run? : (fuel : Nat) → Scan → Option (List Token)
  | 0, _ => none
  | fuel + 1, scan => do
    let scan ← scan.approach?
    match ← lead? scan.inFlow scan.mark.column scan.rest with
    | .finish => scan.leave?.map (·.tokens.reverse)
    | lead => (← scan.take? lead).run? fuel

end Scan

def tokens? (text : String) : Option (List Token) := do
  let source ← source? text.toList
  (Scan.start source).run? (source.length + 1)

end Interpolation.Yaml
