import Rollout.Yaml.Block
import Rollout.Yaml.Plain
import Rollout.Yaml.Quoted
import Rollout.Yaml.Tag

namespace Rollout.Yaml

inductive Token where
  | directive (directive : Directive)
  | documentStart
  | documentEnd
  | blockSequenceStart
  | blockMappingStart
  | blockEnd
  | flowSequenceStart
  | flowSequenceEnd
  | flowMappingStart
  | flowMappingEnd
  | blockEntry
  | flowEntry
  | key
  | value
  | alias (name : String)
  | anchor (name : String)
  | tag (name : TagName)
  | scalar (text : List Char) (plain : Bool)
deriving DecidableEq, Repr

-- A place where the key of an entry may have started: how many tokens lie before
-- it, and whether what starts there can only be a key.
structure KeyStart where
  position : Nat
  index : Nat
  line : Nat
  column : Nat
  required : Bool
deriving Repr

-- A key is on one line and not too long.
def KeyStart.isStale (start : KeyStart) (cursor : Cursor) : Bool :=
  start.line < cursor.line || start.index + 1024 < cursor.index

-- The tokens so far and the place after them, with the indentation of the open
-- block collections (negative outside of all), whether a key may start here, and
-- the possible key of each open collection on one line, the innermost first. The
-- last of these belongs to the block around them.
structure Scan where
  tokens : Array Token
  cursor : Cursor
  indent : Int
  outer : List Int
  keyAllowed : Bool
  keyStart : Option KeyStart
  keyStarts : List (Option KeyStart)

namespace Scan

def start (text : List Char) : Scan := ⟨#[], .start text, -1, [], true, none, []⟩

def inFlow (scan : Scan) : Bool := !scan.keyStarts.isEmpty

def push (scan : Scan) (token : Token) : Scan := { scan with tokens := scan.tokens.push token }

-- A token of one character.
def mark (scan : Scan) (token : Token) : Scan :=
  { scan.push token with cursor := scan.cursor.skip 1 }

-- Up to the next token. Line breaks permit keys again, and a tab is no white space
-- where a key may start.
def skipBlanks : Nat → Scan → Scan
  | 0, scan => scan
  | rounds + 1, scan =>
    let cursor := if scan.cursor.column == 0 && scan.cursor.looksAt '\ufeff' then scan.cursor.skip 1
      else scan.cursor
    let cursor := ((cursor.run fun c =>
      c == ' ' || (c == '\t' && (scan.inFlow || !scan.keyAllowed))).2).skipComment
    if cursor.atBreak then
      skipBlanks rounds { scan with
        cursor := (cursor.readBreak).2
        keyAllowed := scan.keyAllowed || !scan.inFlow }
    else { scan with cursor := cursor }

-- The block collections that are indented further than a column end.
def dedent (scan : Scan) (column : Int) : Scan :=
  if scan.inFlow then scan
  else
    let ended := (scan.indent :: scan.outer).takeWhile fun indent => column < indent
    let left := (scan.indent :: scan.outer).drop ended.length
    { scan with
      tokens := scan.tokens ++ Array.replicate ended.length Token.blockEnd
      indent := left.headD (-1)
      outer := left.drop 1 }

-- A block collection starts at a column unless one is open there, with its token
-- at a position.
def indentTo (scan : Scan) (column position : Nat) (token : Token) : Scan :=
  if scan.inFlow || (column : Int) ≤ scan.indent then scan
  else { scan with
    tokens := scan.tokens.insertIdxIfInBounds position token
    indent := column
    outer := scan.indent :: scan.outer }

-- The possible keys that have become too long are given up, none if one of them
-- had to be a key.
def dropStale? (scan : Scan) : Option Scan :=
  let stale := fun start : Option KeyStart => start.filter fun key => key.isStale scan.cursor
  let fresh := fun start : Option KeyStart => start.filter fun key => !key.isStale scan.cursor
  if (scan.keyStart :: scan.keyStarts).any fun start => (stale start).any (·.required) then none
  else some { scan with keyStart := fresh scan.keyStart, keyStarts := scan.keyStarts.map fresh }

def dropKey? (scan : Scan) : Option Scan :=
  if scan.keyStart.any (·.required) then none else some { scan with keyStart := none }

-- The next token may start a key.
def noteKey? (scan : Scan) : Option Scan :=
  if scan.keyAllowed then
    let cursor := scan.cursor
    let required := !scan.inFlow && scan.indent == cursor.column
    (dropKey? scan).map fun scan => { scan with
      keyStart := some ⟨scan.tokens.size, cursor.index, cursor.line, cursor.column, required⟩ }
  else some scan

-- A line that begins or ends a document, or a directive, at the start of a line.
def documentLine? (scan : Scan) (token : Token) (cursor : Cursor) : Option Scan := do
  let scan ← (scan.dedent (-1)).dropKey?
  return { scan.push token with cursor := cursor, keyAllowed := false }

def openFlow? (scan : Scan) (token : Token) : Option Scan := do
  let scan ← scan.noteKey?
  return { scan.mark token with
    keyAllowed := true, keyStart := none, keyStarts := scan.keyStart :: scan.keyStarts }

def closeFlow? (scan : Scan) (token : Token) : Option Scan := do
  let scan ← scan.dropKey?
  return { scan.mark token with
    keyAllowed := false
    keyStart := if scan.inFlow then scan.keyStarts.head?.join else scan.keyStart
    keyStarts := scan.keyStarts.drop 1 }

def flowEntry? (scan : Scan) : Option Scan := do
  let scan ← scan.dropKey?
  return { scan.mark .flowEntry with keyAllowed := true }

-- A mark that stands at the start of an entry of a block collection.
def entryMark? (scan : Scan) (collection token : Token) : Option Scan := do
  guard (scan.inFlow || scan.keyAllowed)
  let scan := scan.indentTo scan.cursor.column scan.tokens.size collection
  let scan ← scan.dropKey?
  return { scan.mark token with keyAllowed := !scan.inFlow || token == .blockEntry }

-- The mark between a key and its value. What was a possible key is one now.
def value? (scan : Scan) : Option Scan :=
  match scan.keyStart with
  | some key =>
    let scan := { scan with
      tokens := scan.tokens.insertIdxIfInBounds key.position .key
      keyStart := none
      keyAllowed := false }
    some ((scan.indentTo key.column key.position .blockMappingStart).mark .value)
  | none =>
    if scan.inFlow then some { scan.mark .value with keyAllowed := false }
    else if scan.keyAllowed then
      let scan := scan.indentTo scan.cursor.column scan.tokens.size .blockMappingStart
      some { scan.mark .value with keyAllowed := true }
    else none

-- A token of several characters which may start a key.
def keyPart? (scan : Scan) (read? : Cursor → Option (Token × Cursor)) : Option Scan := do
  let scan ← scan.noteKey?
  let (token, cursor) ← read? scan.cursor
  return { scan.push token with cursor := cursor, keyAllowed := false }

def block? (scan : Scan) (literal : Bool) : Option Scan := do
  let scan ← scan.dropKey?
  let (text, cursor) ← Yaml.block? literal scan.indent scan.cursor
  return { scan.push (.scalar text false) with cursor := cursor, keyAllowed := true }

def quoted? (scan : Scan) (single : Bool) : Option Scan :=
  scan.keyPart? fun cursor =>
    (Yaml.quoted? single cursor).map fun (text, after) => (.scalar text false, after)

-- A plain scalar. A key may follow it on a later line.
def plain? (scan : Scan) : Option Scan := do
  let scan ← scan.noteKey?
  let (text, cursor, broken) ← Yaml.plain? scan.inFlow (scan.indent + 1) scan.cursor
  return { scan.push (.scalar text true) with cursor := cursor, keyAllowed := broken }

-- Whether a plain scalar can start with this character in front of another.
def startsPlain (inFlow : Bool) (c : Char) (next : Option Char) : Bool :=
  !(isWhite c || isBreak c || "-?:,[]\x7b\x7d#&*!|>'\"%@`".toList.contains c) ||
    (c == '-' && !next.any isWhite) ||
    (!inFlow && (c == '?' || c == ':') && !endsWord next)

-- The next token, in front of a character.
def token? (scan : Scan) (c : Char) : Option Scan :=
  let cursor := scan.cursor
  let alone := endsWord (cursor.peekAt? 1)
  if cursor.column == 0 && c == '%' then
    (directive? cursor).bind fun (directive, after) => scan.documentLine? (.directive directive) after
  else if cursor.atMarker '-' then scan.documentLine? .documentStart (cursor.skip 3)
  else if cursor.atMarker '.' then scan.documentLine? .documentEnd (cursor.skip 3)
  else if c == '[' then scan.openFlow? .flowSequenceStart
  else if c == '\x7b' then scan.openFlow? .flowMappingStart
  else if c == ']' then scan.closeFlow? .flowSequenceEnd
  else if c == '\x7d' then scan.closeFlow? .flowMappingEnd
  else if c == ',' then scan.flowEntry?
  else if c == '-' && alone then scan.entryMark? .blockSequenceStart .blockEntry
  else if c == '?' && (scan.inFlow || alone) then scan.entryMark? .blockMappingStart .key
  else if c == ':' && (scan.inFlow || alone) then scan.value?
  else if c == '*' then
    scan.keyPart? fun cursor => (anchorName? cursor).map fun (name, after) => (.alias name, after)
  else if c == '&' then
    scan.keyPart? fun cursor => (anchorName? cursor).map fun (name, after) => (.anchor name, after)
  else if c == '!' then
    scan.keyPart? fun cursor =>
      (tag? scan.inFlow cursor).map fun (name, after) => (.tag name, after)
  else if (c == '|' || c == '>') && !scan.inFlow then scan.block? (c == '|')
  else if c == '\'' || c == '"' then scan.quoted? (c == '\'')
  else if startsPlain scan.inFlow c (cursor.peekAt? 1) then scan.plain?
  else none

-- All tokens of the text. Each takes at least one character, so that rounds suffice
-- as long as there are more of them than characters.
def tokens? : Nat → Scan → Option (List Token)
  | 0, _ => none
  | rounds + 1, scan =>
    match dropStale? (scan.skipBlanks (scan.cursor.rest.length + 1)) with
    | none => none
    | some scan =>
      let scan := scan.dedent scan.cursor.column
      match scan.cursor.peek? with
      | none => (scan.dedent (-1)).dropKey?.map (·.tokens.toList)
      | some c => (scan.token? c).bind (tokens? rounds)

end Scan

-- The tokens of a text.
def tokens? (text : List Char) : Option (List Token) :=
  if text.all isAllowed then (Scan.start text).tokens? (text.length + 1) else none

end Rollout.Yaml
