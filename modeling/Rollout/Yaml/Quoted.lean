import Rollout.Text.Digits
import Rollout.Yaml.Cursor

namespace Rollout.Yaml

-- What an escape stands for: a character, or that many hexadecimal digits which
-- follow it.
inductive Escape where
  | char (c : Char)
  | code (digits : Nat)

def escapeOf? (c : Char) : Option Escape :=
  match c with
  | '0' => some (.char '\x00')
  | 'a' => some (.char '\x07')
  | 'b' => some (.char '\x08')
  | 't' => some (.char '\t')
  | '\t' => some (.char '\t')
  | 'n' => some (.char '\n')
  | 'v' => some (.char '\x0b')
  | 'f' => some (.char '\x0c')
  | 'r' => some (.char '\r')
  | 'e' => some (.char '\x1b')
  | ' ' => some (.char ' ')
  | '"' => some (.char '"')
  | '/' => some (.char '/')
  | '\\' => some (.char '\\')
  | 'N' => some (.char '\u0085')
  | '_' => some (.char '\u00a0')
  | 'L' => some (.char '\u2028')
  | 'P' => some (.char '\u2029')
  | 'x' => some (.code 2)
  | 'u' => some (.code 4)
  | 'U' => some (.code 8)
  | _ => none

-- The character with a code, unless it is a surrogate or out of range.
def charOfCode? (code : Nat) : Option Char :=
  if (0xD800 ≤ code ∧ code ≤ 0xDFFF) ∨ code > 0x10FFFF then none else some (Char.ofNat code)

-- The character of an escape and the place after it. The cursor is at the backslash.
def readEscape? (cursor : Cursor) : Option (Char × Cursor) := do
  match ← escapeOf? (← cursor.peekAt? 1) with
  | .char c => return (c, cursor.skip 2)
  | .code digits =>
    let written := (cursor.rest.drop 2).take digits
    guard (written.length == digits)
    return (← charOfCode? (← readBase? 16 written), cursor.skip (2 + digits))

-- How the characters of one line of a quoted scalar end.
inductive QuotedStop where
  | quote
  | space
  -- a backslash in front of a line break, which joins the lines
  | joined

-- The characters up to the closing quote or the next white space. Rounds suffice
-- as long as there are as many as characters left.
def quotedWord? (single : Bool) : Nat → List Char → Cursor → Option (List Char × QuotedStop × Cursor)
  | 0, _, _ => none
  | rounds + 1, read, cursor =>
    match cursor.peek? with
    | none => some (read, .space, cursor)
    | some c =>
      if isWhite c || isBreak c then some (read, .space, cursor)
      else if single then
        if c == '\'' then
          if cursor.peekAt? 1 == some '\'' then
            quotedWord? single rounds ('\'' :: read) (cursor.skip 2)
          else some (read, .quote, cursor)
        else quotedWord? single rounds (c :: read) (cursor.skip 1)
      else if c == '"' then some (read, .quote, cursor)
      else if c == '\\' then
        if (cursor.peekAt? 1).any isBreak then
          some (read, .joined, ((cursor.skip 1).readBreak).2)
        else
          match readEscape? cursor with
          | none => none
          | some (c, after) => quotedWord? single rounds (c :: read) after
      else quotedWord? single rounds (c :: read) (cursor.skip 1)

-- White space and line breaks between the words of a quoted scalar. White space that
-- is next to a line break does not count.
def quotedGap (broken : Bool) : Nat → List Char → Breaks → Cursor → Bool × List Char × Breaks × Cursor
  | 0, white, breaks, cursor => (broken, white, breaks, cursor)
  | rounds + 1, white, breaks, cursor =>
    match cursor.peek? with
    | none => (broken, white, breaks, cursor)
    | some c =>
      if isWhite c then
        quotedGap broken rounds (if broken then white else white ++ [c]) breaks (cursor.skip 1)
      else if isBreak c then
        let (text, after) := cursor.readBreak
        if broken then
          quotedGap true rounds white { breaks with others := breaks.others ++ text } after
        else quotedGap true rounds [] { breaks with first := text } after
      else (broken, white, breaks, cursor)

-- The rest of a quoted scalar and the place after its closing quote. `read` holds
-- the characters so far, last first.
def quotedLines? (single : Bool) : Nat → List Char → Cursor → Option (List Char × Cursor)
  | 0, _, _ => none
  | rounds + 1, read, cursor =>
    if cursor.atDocumentMarker || cursor.rest.isEmpty then none
    else
      match quotedWord? single (cursor.rest.length + 1) read cursor with
      | none => none
      | some (read, .quote, cursor) => some (read.reverse, cursor.skip 1)
      | some (read, stop, cursor) =>
        let joined := match stop with
          | .joined => true
          | _ => false
        -- a closing quote right after a joined line ends the scalar
        if cursor.looksAt (if single then '\'' else '"') then some (read.reverse, cursor.skip 1)
        else
          let (broken, white, breaks, cursor) :=
            quotedGap joined cursor.rest.length [] .none cursor
          let gap := if broken then breaks.folded else white
          quotedLines? single rounds (gap.reverse ++ read) cursor

-- A quoted scalar. The cursor is at its opening quote.
def quoted? (single : Bool) (cursor : Cursor) : Option (List Char × Cursor) :=
  quotedLines? single (cursor.rest.length + 1) [] (cursor.skip 1)

end Rollout.Yaml
