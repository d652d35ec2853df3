import Rollout.Yaml.Cursor
import Rollout.Yaml.Scalar

namespace Rollout.Yaml

-- The characters that can be written without an escape.
def isPrintable (c : Char) : Bool :=
  let n := c.toNat
  n == 0x0A || (0x20 ≤ n && n ≤ 0x7E) || (0xA0 ≤ n && n ≤ 0xD7FF) ||
    (0xE000 ≤ n && n ≤ 0xFFFD && n != 0xFEFF) || 0x10000 ≤ n

-- Whether two characters with these properties are next to each other.
def meets (p q : Char → Bool) : List Char → Bool
  | a :: b :: rest => (p a && q b) || meets p q (b :: rest)
  | _ => false

def isSpace (c : Char) : Bool := c == ' '

-- Whether a text has marks inside that mean something in a block: a colon in front
-- of white space or at the end, or a number sign after white space.
def hasInnerMark : List Char → Bool
  | a :: b :: rest =>
    (b == ':' && endsWord rest.head?) || (b == '#' && endsWord (some a)) || hasInnerMark (b :: rest)
  | _ => false

-- Whether a text starts with a mark, or has one inside.
def hasMark (text : List Char) : Bool :=
  match text with
  | [] => false
  | c :: rest =>
    "#,[]\x7b\x7d&*!|>'\"%@`".toList.contains c ||
      ((c == '?' || c == ':' || c == '-') && endsWord rest.head?) ||
      text.take 3 == ['-', '-', '-'] || text.take 3 == ['.', '.', '.'] || hasInnerMark text

def isMultiline (text : List Char) : Bool := text.any isBreak

def isSpecial (text : List Char) : Bool :=
  text.any (fun c => !isPrintable c) || meets isSpace isBreak text

def isEdge (c : Char) : Bool := isSpace c || isBreak c

def canBePlain (text : List Char) : Bool :=
  !(isSpecial text || isMultiline text || hasMark text || text.head?.any isEdge ||
    text.getLast?.any isEdge)

def canBeSingle (text : List Char) : Bool := !(isSpecial text || meets isBreak isSpace text)

def canBeLiteral (text : List Char) : Bool := !(isSpecial text || text.getLast?.any isSpace)

-- Whether a text would be read as something else than itself if it were plain.
def isAmbiguous (text : List Char) : Bool :=
  isZeroPadded text ||
    match plainValue? text with
    | some (.string _) => false
    | _ => true

-- The ways to write a text.
inductive Style where
  | plain
  | single
  | double
  | literal
deriving DecidableEq, Repr

-- The style of a text: literal if it has several lines, plain if that is not
-- misread, and of the quoted ones the first that can hold it. A key on one line
-- has no literal form.
def styleOf (asKey : Bool) (text : List Char) : Style :=
  if asKey && isMultiline text then .double
  else if text.contains '\n' then if !asKey && canBeLiteral text then .literal else .double
  else if !isAmbiguous text && canBePlain text then .plain
  else if canBeSingle text then .single
  else .double

def spaces (n : Nat) : List Char := List.replicate n ' '

-- A text with indentation where a line starts, apart from empty lines.
def indented (indent : Nat) : Bool → List Char → List Char
  | _, [] => []
  | atStart, c :: rest =>
    if isBreak c then c :: indented indent true rest
    else (if atStart then spaces indent else []) ++ c :: indented indent false rest

def singleQuoted (indent : Nat) (text : List Char) : List Char :=
  let doubled := text.flatMap fun c => if c == '\'' then ['\'', '\''] else [c]
  '\'' :: indented indent false doubled ++
    (if text.getLast?.any isBreak then spaces indent else []) ++ ['\'']

def hexPlaces (places n : Nat) : List Char :=
  let digits := (Nat.toDigits 16 n).map Char.toUpper
  List.replicate (places - digits.length) '0' ++ digits

-- A character in double quotes.
def escaped (c : Char) : List Char :=
  match c with
  | '\x00' => ['\\', '0']
  | '\x07' => ['\\', 'a']
  | '\x08' => ['\\', 'b']
  | '\t' => ['\\', 't']
  | '\n' => ['\\', 'n']
  | '\x0b' => ['\\', 'v']
  | '\x0c' => ['\\', 'f']
  | '\r' => ['\\', 'r']
  | '\x1b' => ['\\', 'e']
  | '"' => ['\\', '"']
  | '\\' => ['\\', '\\']
  | '\u0085' => ['\\', 'N']
  | '\u2028' => ['\\', 'L']
  | '\u2029' => ['\\', 'P']
  | c =>
    if isPrintable c then [c]
    else if c.toNat ≤ 0xFF then '\\' :: 'x' :: hexPlaces 2 c.toNat
    else '\\' :: 'u' :: hexPlaces 4 c.toNat

def doubleQuoted (text : List Char) : List Char := '"' :: text.flatMap escaped ++ ['"']

-- The header of a literal scalar. It gives the indentation if the text starts with
-- white space, and says how the text ends unless that is with one line break.
def literalHeader (text : List Char) : List Char :=
  let hint := if text.head?.any isEdge then ['2'] else []
  let chomping :=
    match text.reverse with
    | [] => ['-']
    | c :: rest =>
      if !isBreak c then ['-'] else if rest.isEmpty || rest.head?.any isBreak then ['+'] else []
  '|' :: hint ++ chomping

end Rollout.Yaml
