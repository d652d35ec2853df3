import Rollout.Text.Digits
import Rollout.Yaml.Cursor

namespace Rollout.Yaml

-- What becomes of the line breaks at the end of a block scalar: none is kept, that
-- of the last line is, or all are.
inductive Chomping where
  | strip
  | clip
  | keep
deriving DecidableEq, Repr

def readChomping (cursor : Cursor) : Option Chomping × Cursor :=
  match cursor.peek? with
  | some '+' => (some .keep, cursor.skip 1)
  | some '-' => (some .strip, cursor.skip 1)
  | _ => (none, cursor)

-- The indentation that a header gives, zero if it leaves it to the text.
def readIncrement? (cursor : Cursor) : Option (Nat × Cursor) :=
  match cursor.peek? with
  | some '0' => none
  | some c => some (if c.isDigit then (digitValue c, cursor.skip 1) else (0, cursor))
  | none => some (0, cursor)

-- The header of a block scalar with the end of its line. Chomping and indentation
-- come in either order.
def blockHeader? (cursor : Cursor) : Option (Chomping × Nat × Cursor) := do
  let (first, cursor) := readChomping cursor
  let (increment, cursor) ← readIncrement? cursor
  let (second, cursor) := if first.isSome then (none, cursor) else readChomping cursor
  let cursor := cursor.skipWhite.skipComment
  guard (endsLine cursor.peek?)
  return ((first.or second).getD .clip, increment, (cursor.readBreak).2)

-- The blank lines in front of a line of text, with its indentation. `widest` is the
-- largest indentation met; an indentation of zero is not known yet. A tab must not
-- stand for indentation.
def blockGap? (indent : Nat) : Nat → Nat → List Char → Cursor → Option (Nat × List Char × Cursor)
  | 0, widest, breaks, cursor => some (widest, breaks, cursor)
  | rounds + 1, widest, breaks, cursor =>
    let spaces := (cursor.rest.takeWhile fun c => c == ' ').length
    let cursor := cursor.skip (if indent == 0 then spaces else min spaces (indent - cursor.column))
    let widest := max widest cursor.column
    if (indent == 0 || cursor.column < indent) && cursor.looksAt '\t' then none
    else if cursor.atBreak then
      let (text, after) := cursor.readBreak
      blockGap? indent rounds widest (breaks ++ text) after
    else some (widest, breaks, cursor)

-- The lines of a block scalar so far: their text, the break after the last of them,
-- the blank lines after that, and whether the last line starts with white space.
structure BlockLines where
  text : List Char
  lineEnd : List Char
  blanks : List Char
  indented : Bool
  cursor : Cursor

-- What stands between the last line and a next one. In a folded scalar two lines
-- that are not indented further are joined.
def BlockLines.gap (literal : Bool) (lines : BlockLines) : List Char :=
  if !literal && lines.lineEnd == ['\n'] && !lines.indented && !(lines.cursor.peek?).any isWhite then
    if lines.blanks.isEmpty then [' '] else lines.blanks
  else lines.lineEnd ++ lines.blanks

def blockLines? (literal : Bool) (indent : Nat) : Nat → BlockLines → Option BlockLines
  | 0, lines => some lines
  | rounds + 1, lines =>
    if lines.cursor.column != indent || lines.cursor.rest.isEmpty then some lines
    else
      let indented := (lines.cursor.peek?).any isWhite
      let (line, cursor) := lines.cursor.run fun c => !isBreak c
      let (lineEnd, cursor) := cursor.readBreak
      match blockGap? indent (cursor.rest.length + 1) 0 [] cursor with
      | none => none
      | some (_, blanks, cursor) =>
        blockLines? literal indent rounds
          ⟨lines.text ++ lines.gap literal ++ line, lineEnd, blanks, indented, cursor⟩

def BlockLines.chomped (chomping : Chomping) (lines : BlockLines) : List Char :=
  match chomping with
  | .strip => lines.text
  | .clip => lines.text ++ lines.lineEnd
  | .keep => lines.text ++ lines.lineEnd ++ lines.blanks

-- A block scalar inside a collection with this indentation, which is negative
-- outside of all. The cursor is at the mark that starts it.
def block? (literal : Bool) (outer : Int) (cursor : Cursor) : Option (List Char × Cursor) := do
  let (chomping, increment, cursor) ← blockHeader? (cursor.skip 1)
  let fixed := if increment == 0 then 0 else (max outer 0).toNat + increment
  let (widest, blanks, cursor) ← blockGap? fixed (cursor.rest.length + 1) 0 [] cursor
  let indent := if fixed == 0 then max widest (max (outer + 1) 1).toNat else fixed
  let lines ← blockLines? literal indent (cursor.rest.length + 1) ⟨[], [], blanks, false, cursor⟩
  return (lines.chomped chomping, lines.cursor)

end Rollout.Yaml
