namespace Rollout.Toml

-- White space within a line.
def isSpace (c : Char) : Bool := c == ' ' || c == '\t'

def skipSpace (text : List Char) : List Char := text.dropWhile isSpace

-- What follows a line break. A carriage return counts only in front of a newline.
def newline? : List Char → Option (List Char)
  | '\n' :: rest => some rest
  | '\r' :: '\n' :: rest => some rest
  | _ => none

-- The characters of comments and texts: no control characters but the tab.
def isVisible (c : Char) : Bool := c == '\t' || (0x20 ≤ c.toNat && c.toNat != 0x7F)

-- What follows a comment, if there is one.
def skipComment : List Char → List Char
  | '#' :: rest => rest.dropWhile isVisible
  | text => text

-- What follows a line on which no more than white space and a comment are left.
def lineEnd? (text : List Char) : Option (List Char) :=
  match skipComment (skipSpace text) with
  | [] => some []
  | rest => newline? rest

-- What follows white space, comments and line breaks. Rounds suffice as long as there
-- are as many as characters.
def skipLines? : Nat → List Char → Option (List Char)
  | 0, text => some text
  | rounds + 1, text =>
    match skipSpace text with
    | '#' :: rest => (newline? (rest.dropWhile isVisible)).bind (skipLines? rounds)
    | '\n' :: rest => skipLines? rounds rest
    | '\r' :: rest => (newline? ('\r' :: rest)).bind (skipLines? rounds)
    | rest => some rest

end Rollout.Toml
