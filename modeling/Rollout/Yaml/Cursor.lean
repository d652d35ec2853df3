namespace Rollout.Yaml

-- The characters a YAML text may hold.
def isAllowed (c : Char) : Bool :=
  let n := c.toNat
  n == 0x09 || n == 0x0A || n == 0x0D || (0x20 ≤ n && n ≤ 0x7E) || n == 0x85 ||
    (0xA0 ≤ n && n ≤ 0xD7FF) || (0xE000 ≤ n && n ≤ 0xFFFD) || 0x10000 ≤ n

-- The characters that end a line.
def isBreak (c : Char) : Bool :=
  c == '\n' || c == '\r' || c == '\u0085' || c == '\u2028' || c == '\u2029'

-- The characters that separate words within a line.
def isWhite (c : Char) : Bool := c == ' ' || c == '\t'

-- The characters of names: anchors, handles and directives.
def isNameChar (c : Char) : Bool := c.isAlphanum || c == '_' || c == '-'

-- Line break or end of the text.
def endsLine : Option Char → Bool
  | none => true
  | some c => isBreak c

-- White space, line break or end of the text.
def endsWord : Option Char → Bool
  | none => true
  | some c => isWhite c || isBreak c

-- A place in a text: what follows it, and how many characters, lines, and characters
-- of its line lie before it.
structure Cursor where
  rest : List Char
  index : Nat
  line : Nat
  column : Nat
deriving Repr

namespace Cursor

def start (text : List Char) : Cursor := ⟨text, 0, 0, 0⟩

def peek? (cursor : Cursor) : Option Char := cursor.rest.head?

def peekAt? (cursor : Cursor) (n : Nat) : Option Char := cursor.rest[n]?

def looksAt (cursor : Cursor) (c : Char) : Bool := cursor.peek? == some c

-- Past `n` characters of the same line.
def skip (cursor : Cursor) (n : Nat) : Cursor :=
  ⟨cursor.rest.drop n, cursor.index + n, cursor.line, cursor.column + n⟩

-- The longest run of characters of one class, and the place after it. The class
-- holds no line breaks.
def run (cursor : Cursor) (p : Char → Bool) : List Char × Cursor :=
  let taken := cursor.rest.takeWhile p
  (taken, cursor.skip taken.length)

def skipWhite (cursor : Cursor) : Cursor := (cursor.run isWhite).2

-- Past a comment, if there is one.
def skipComment (cursor : Cursor) : Cursor :=
  if cursor.looksAt '#' then (cursor.run fun c => !isBreak c).2 else cursor

-- A line break as it counts in a scalar, and the place after it: all but the two
-- separators of later standards count as a newline.
def readBreak (cursor : Cursor) : List Char × Cursor :=
  match cursor.rest with
  | '\r' :: '\n' :: rest => (['\n'], ⟨rest, cursor.index + 2, cursor.line + 1, 0⟩)
  | c :: rest =>
    if isBreak c then
      let counted := if c == '\u2028' || c == '\u2029' then c else '\n'
      ([counted], ⟨rest, cursor.index + 1, cursor.line + 1, 0⟩)
    else ([], cursor)
  | [] => ([], cursor)

def atBreak (cursor : Cursor) : Bool := (cursor.peek?).any isBreak

-- Whether three of this character stand alone at the start of a line.
def atMarker (cursor : Cursor) (c : Char) : Bool :=
  cursor.column == 0 && cursor.rest.take 3 == [c, c, c] && endsWord (cursor.peekAt? 3)

-- Whether a line starts here that begins or ends a document.
def atDocumentMarker (cursor : Cursor) : Bool := cursor.atMarker '-' || cursor.atMarker '.'

end Cursor

-- Line breaks met between two words of a scalar: the first, and those after it.
structure Breaks where
  first : List Char
  others : List Char

namespace Breaks

def none : Breaks := ⟨[], []⟩

-- What line breaks between words amount to: a single newline counts as a space, and
-- of several the first is dropped.
def folded (breaks : Breaks) : List Char :=
  if breaks.first == ['\n'] then
    if breaks.others.isEmpty then [' '] else breaks.others
  else breaks.first ++ breaks.others

end Breaks

end Rollout.Yaml
