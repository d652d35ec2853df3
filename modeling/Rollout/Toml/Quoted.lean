import Rollout.Text.Digits
import Rollout.Toml.Space

namespace Rollout.Toml

-- The character with a code, unless it is a surrogate or out of range.
def scalarValue? (code : Nat) : Option Char :=
  if (0xD800 ≤ code ∧ code ≤ 0xDFFF) ∨ code > 0x10FFFF then none else some (Char.ofNat code)

-- The character of an escape with this many digits, and the text after it.
def codeEscape? (digits : Nat) (text : List Char) : Option (Char × List Char) := do
  let written := text.take digits
  guard (written.length == digits)
  return (← scalarValue? (← readBase? 16 written), text.drop digits)

-- The character of an escape after its backslash, and the text after it.
def escape? : List Char → Option (Char × List Char)
  | 'b' :: rest => some ('\x08', rest)
  | 't' :: rest => some ('\t', rest)
  | 'n' :: rest => some ('\n', rest)
  | 'f' :: rest => some ('\x0c', rest)
  | 'r' :: rest => some ('\r', rest)
  | '"' :: rest => some ('"', rest)
  | '\\' :: rest => some ('\\', rest)
  | 'u' :: rest => codeEscape? 4 rest
  | 'U' :: rest => codeEscape? 8 rest
  | _ => none

-- White space and line breaks after a backslash at the end of a line, with the line
-- break that has to be among them.
def joinedLines? (text : List Char) : Option (List Char) := do
  let blank := fun c : Char => isSpace c || c == '\n'
  let rec skip : Nat → List Char → List Char
    | 0, text => text
    | rounds + 1, text =>
      match text with
      | '\r' :: '\n' :: rest => skip rounds rest
      | c :: rest => if blank c then skip rounds rest else text
      | [] => []
  return skip text.length (← newline? (skipSpace text))

-- A text in double quotes on one line, after its opening quote. `read` holds the
-- characters so far, last first.
def basic? : Nat → List Char → List Char → Option (String × List Char)
  | 0, _, _ => none
  | rounds + 1, read, text =>
    match text with
    | '"' :: rest => some (String.ofList read.reverse, rest)
    | '\\' :: rest =>
      match escape? rest with
      | some (c, rest) => basic? rounds (c :: read) rest
      | none => none
    | c :: rest => if isVisible c then basic? rounds (c :: read) rest else none
    | [] => none

-- A text in single quotes on one line, after its opening quote. It has no escapes.
def literal? (text : List Char) : Option (String × List Char) :=
  let body := text.takeWhile fun c => isVisible c && c != '\''
  match text.drop body.length with
  | '\'' :: rest => some (String.ofList body, rest)
  | _ => none

-- How many of the first five characters of a text are quotes, and what follows.
def countQuotes (quote : Char) (text : List Char) : Nat × List Char :=
  let count := ((text.take 5).takeWhile fun c => c == quote).length
  (count, text.drop count)

-- A text in three quotes, after them. Up to two quotes may stand inside by themselves,
-- also in front of the closing ones. Line breaks count as newlines.
def multiline? (quote : Char) : Nat → List Char → List Char → Option (String × List Char)
  | 0, _, _ => none
  | rounds + 1, read, text =>
    match text with
    | [] => none
    | c :: rest =>
      if c == quote then
        let (count, rest) := countQuotes quote text
        if count < 3 then multiline? quote rounds (List.replicate count quote ++ read) rest
        else some (String.ofList (read.reverse ++ List.replicate (count - 3) quote), rest)
      else if c == '\\' && quote == '"' then
        match escape? rest with
        | some (c, rest) => multiline? quote rounds (c :: read) rest
        | none =>
          match joinedLines? rest with
          | some rest => multiline? quote rounds read rest
          | none => none
      else
        match newline? text with
        | some rest => multiline? quote rounds ('\n' :: read) rest
        | none => if isVisible c then multiline? quote rounds (c :: read) rest else none

-- A text with the quotes around it; a line break right after three quotes does not
-- count.
def quoted? : List Char → Option (String × List Char)
  | '"' :: '"' :: '"' :: rest =>
    multiline? '"' (rest.length + 1) [] ((newline? rest).getD rest)
  | '\'' :: '\'' :: '\'' :: rest =>
    multiline? '\'' (rest.length + 1) [] ((newline? rest).getD rest)
  | '"' :: rest => basic? (rest.length + 1) [] rest
  | '\'' :: rest => literal? rest
  | _ => none

def isBareKeyChar (c : Char) : Bool := c.isAlphanum || c == '-' || c == '_'

-- One part of a key: bare, or in quotes of one line.
def keyPart? (text : List Char) : Option (String × List Char) :=
  match text with
  | '"' :: rest => basic? (rest.length + 1) [] rest
  | '\'' :: rest => literal? rest
  | _ =>
    let name := text.takeWhile isBareKeyChar
    if name.isEmpty then none else some (String.ofList name, text.drop name.length)

-- How deep values may be nested, and how many parts a key may have.
def depthLimit : Nat := 79

-- The parts of a key between points, with white space around them.
def keyParts? : Nat → List Char → Option (List String × List Char)
  | 0, _ => none
  | rounds + 1, text =>
    match keyPart? (skipSpace text) with
    | none => none
    | some (part, rest) =>
      match skipSpace rest with
      | '.' :: rest => (keyParts? rounds rest).map fun (parts, rest) => (part :: parts, rest)
      | rest => some ([part], rest)

def key? (text : List Char) : Option (List String × List Char) :=
  keyParts? depthLimit text

end Rollout.Toml
