import Rollout.Yaml.Cursor

namespace Rollout.Yaml

-- The characters that delimit collections on one line.
def isFlowMark (c : Char) : Bool := c == ',' || c == '[' || c == ']' || c == '{' || c == '}'

-- The characters of a plain scalar up to white space or a mark that ends it. A colon
-- right in front of a mark of a flow collection is refused.
def plainWord? (inFlow : Bool) : Nat → List Char → Cursor → Option (List Char × Cursor)
  | 0, read, cursor => some (read.reverse, cursor)
  | rounds + 1, read, cursor =>
    match cursor.peek? with
    | none => some (read.reverse, cursor)
    | some c =>
      let next := cursor.peekAt? 1
      if isWhite c || isBreak c then some (read.reverse, cursor)
      else if inFlow && c == ':' && next.any (fun d => isFlowMark d || d == '?') then none
      else if (c == ':' && endsWord next) || (inFlow && isFlowMark c) then
        some (read.reverse, cursor)
      else plainWord? inFlow rounds (c :: read) (cursor.skip 1)

-- A gap between the words of a plain scalar.
structure PlainGap where
  broken : Bool
  white : List Char
  breaks : Breaks
  cursor : Cursor

-- White space and line breaks after a word. A tab must not stand for indentation.
def plainGap? (indent : Int) : Nat → PlainGap → Option PlainGap
  | 0, gap => some gap
  | rounds + 1, gap =>
    match gap.cursor.peek? with
    | none => some gap
    | some c =>
      if isWhite c then
        if gap.broken && (gap.cursor.column : Int) < indent && c == '\t' then none
        else plainGap? indent rounds { gap with
          white := if gap.broken then gap.white else gap.white ++ [c]
          cursor := gap.cursor.skip 1 }
      else if isBreak c then
        let (text, after) := gap.cursor.readBreak
        let breaks :=
          if gap.broken then { gap.breaks with others := gap.breaks.others ++ text }
          else { gap.breaks with first := text }
        plainGap? indent rounds ⟨true, [], breaks, after⟩
      else some gap

def PlainGap.text (gap : PlainGap) : List Char := if gap.broken then gap.breaks.folded else gap.white

-- The words of a plain scalar, the gaps between them folded, and the gap after the
-- last one. `read` holds the characters so far.
def plainLines? (inFlow : Bool) (indent : Int) :
    Nat → List Char → PlainGap → Option (List Char × PlainGap)
  | 0, read, gap => some (read, gap)
  | rounds + 1, read, gap =>
    if gap.cursor.atDocumentMarker || gap.cursor.looksAt '#' then some (read, gap)
    else
      match plainWord? inFlow gap.cursor.rest.length [] gap.cursor with
      | none => none
      | some (word, cursor) =>
        -- without a word the gap stays open
        let before := if word.isEmpty then gap else ⟨false, [], .none, cursor⟩
        let read := if word.isEmpty then read else read ++ gap.text ++ word
        if !endsWord cursor.peek? || cursor.rest.isEmpty then some (read, { before with cursor := cursor })
        else
          match plainGap? indent cursor.rest.length { before with cursor := cursor } with
          | none => none
          | some gap =>
            if !inFlow && (gap.cursor.column : Int) < indent then some (read, gap)
            else plainLines? inFlow indent rounds read gap

-- A plain scalar, the place after it, and whether that is on a later line. Its
-- further lines are indented at least to `indent`.
def plain? (inFlow : Bool) (indent : Int) (cursor : Cursor) : Option (List Char × Cursor × Bool) :=
  (plainLines? inFlow indent (cursor.rest.length + 1) [] ⟨false, [], .none, cursor⟩).map
    fun (text, gap) => (text, gap.cursor, gap.broken)

end Rollout.Yaml
