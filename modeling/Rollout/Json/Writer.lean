import Rollout.Json
import Rollout.Binary64.Layout

namespace Rollout.Json

-- Doubles in JSON text: a point for exponents from -5 to 15, otherwise an exponent
-- with its sign.
def doubles : Layout := ⟨-5, 15, true⟩

-- A character inside a string. Quotes, backslashes and control characters are
-- escaped, all else stands for itself.
def escapeChar (c : Char) : List Char :=
  if c = '"' then ['\\', '"']
  else if c = '\\' then ['\\', '\\']
  else if c = '\x08' then ['\\', 'b']
  else if c = '\x0c' then ['\\', 'f']
  else if c = '\n' then ['\\', 'n']
  else if c = '\r' then ['\\', 'r']
  else if c = '\t' then ['\\', 't']
  else if c.toNat < 0x20 then ['\\', 'u', '0', '0', hexDigit (c.toNat / 16), hexDigit c.toNat]
  else [c]

def quoted (text : String) : List Char :=
  '"' :: text.toList.flatMap escapeChar ++ ['"']

def intText (value : Int) : List Char :=
  if value < 0 then '-' :: Nat.toDigits 10 value.natAbs else Nat.toDigits 10 value.natAbs

def numberText : Number → List Char
  | .int value => intText value
  | .float value => (doubles.render value).toList

mutual

-- The text of a document without blanks, members in the order they are in.
def compactChars : Json → List Char
  | .null => ['n', 'u', 'l', 'l']
  | .bool true => ['t', 'r', 'u', 'e']
  | .bool false => ['f', 'a', 'l', 's', 'e']
  | .number value => numberText value
  | .string value => quoted value
  | .array [] => ['[', ']']
  | .array (item :: rest) => '[' :: compactChars item ++ compactItems rest ++ [']']
  | .object [] => ['\x7b', '\x7d']
  | .object ((key, value) :: rest) =>
    '\x7b' :: quoted key ++ ':' :: compactChars value ++ compactMembers rest ++ ['\x7d']

-- The items after the first one, each behind its comma.
def compactItems : List Json → List Char
  | [] => []
  | item :: rest => ',' :: compactChars item ++ compactItems rest

def compactMembers : List (String × Json) → List Char
  | [] => []
  | (key, value) :: rest => ',' :: quoted key ++ ':' :: compactChars value ++ compactMembers rest

end

def compact (value : Json) : String := String.ofList value.compactChars

-- Flat objects of strings on several lines: one member a line, two spaces deep.
def prettyRecord (fields : List (String × String)) : String :=
  let line := fun field : String × String => "  ".toList ++ quoted field.1 ++ [':', ' '] ++ quoted field.2
  String.ofList ('\x7b' :: '\n' ::
    List.intercalate [',', '\n'] (fields.map line) ++ ['\n', '\x7d'])

end Rollout.Json
