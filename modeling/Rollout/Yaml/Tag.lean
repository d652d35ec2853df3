import Rollout.Text.Digits
import Rollout.Yaml.Cursor

namespace Rollout.Yaml

-- A tag as it is written: the handle that abbreviates its beginning, empty if there
-- is none, and the rest of it in bytes.
structure TagName where
  handle : String
  suffix : List UInt8
deriving DecidableEq, Repr

-- Where a part of a tag is written, which decides what it may hold.
inductive TagPlace where
  | shorthand
  -- between angle brackets, or in a directive
  | verbatim
deriving DecidableEq, Repr

def isTagChar (place : TagPlace) (c : Char) : Bool :=
  isNameChar c || ";/?:@&=+$.!~*'()".toList.contains c ||
    (place == .verbatim && (c == ',' || c == '[' || c == ']'))

def byteOf (c : Char) : UInt8 := c.toNat.toUInt8

-- The byte of a percent escape.
def escapedByte? (cursor : Cursor) : Option (UInt8 × Cursor) :=
  match cursor.rest with
  | '%' :: a :: b :: _ => (readBase? 16 [a, b]).map fun value => (value.toUInt8, cursor.skip 3)
  | _ => none

-- How many bytes a character has, by the first of them.
def utf8Length? (byte : UInt8) : Option Nat :=
  if byte < 0x80 then some 1
  else if byte < 0xC0 then none
  else if byte < 0xE0 then some 2
  else if byte < 0xF0 then some 3
  else if byte < 0xF8 then some 4
  else none

-- Escaped bytes that continue a character.
def escapedTail? : Nat → Cursor → Option (List UInt8 × Cursor)
  | 0, cursor => some ([], cursor)
  | more + 1, cursor => do
    let (byte, cursor) ← escapedByte? cursor
    guard (0x80 ≤ byte ∧ byte < 0xC0)
    let (rest, cursor) ← escapedTail? more cursor
    return (byte :: rest, cursor)

-- The bytes of one character, each of them escaped.
def escapedChar? (cursor : Cursor) : Option (List UInt8 × Cursor) := do
  let (byte, cursor) ← escapedByte? cursor
  let (rest, cursor) ← escapedTail? ((← utf8Length? byte) - 1) cursor
  return (byte :: rest, cursor)

-- The longest run of characters of a tag, and how many places it takes.
def tagBytes? (place : TagPlace) : Nat → List UInt8 → Cursor → Option (List UInt8 × Cursor)
  | 0, read, cursor => some (read, cursor)
  | rounds + 1, read, cursor =>
    match cursor.peek? with
    | some '%' =>
      match escapedChar? cursor with
      | none => none
      | some (bytes, after) => tagBytes? place rounds (read ++ bytes) after
    | some c =>
      if isTagChar place c then tagBytes? place rounds (read ++ [byteOf c]) (cursor.skip 1)
      else some (read, cursor)
    | none => some (read, cursor)

-- A part of a tag that must not be empty. A tag ends at its first zero byte.
def tagPart? (place : TagPlace) (cursor : Cursor) : Option (List UInt8 × Cursor) := do
  let (bytes, after) ← tagBytes? place cursor.rest.length [] cursor
  guard (after.index != cursor.index)
  return (bytes.takeWhile fun byte => byte != 0, after)

-- A handle: one mark, or a name between two.
def readHandle (cursor : Cursor) : List Char × Cursor :=
  let (name, after) := (cursor.skip 1).run isNameChar
  if after.looksAt '!' then ('!' :: name ++ ['!'], after.skip 1) else ('!' :: name, after)

-- The shorthand of a tag. A name without a second mark begins its suffix.
def shorthand? (cursor : Cursor) : Option (TagName × Cursor) := do
  let (handle, after) := readHandle cursor
  if 1 < handle.length && handle.getLast? == some '!' then
    let (suffix, after) ← tagPart? .shorthand after
    return (⟨String.ofList handle, suffix⟩, after)
  else
    let name := (handle.drop 1).map byteOf
    let (more, after) ← tagBytes? .shorthand after.rest.length [] after
    let suffix := (name ++ more).takeWhile fun byte => byte != 0
    return (if suffix.isEmpty then ⟨"", [byteOf '!']⟩ else ⟨"!", suffix⟩, after)

def verbatim? (cursor : Cursor) : Option (TagName × Cursor) := do
  let (suffix, after) ← tagPart? .verbatim (cursor.skip 2)
  guard (after.looksAt '>')
  return (⟨"", suffix⟩, after.skip 1)

-- A tag and the place after it. The cursor is at its first mark.
def tag? (inFlow : Bool) (cursor : Cursor) : Option (TagName × Cursor) := do
  let (tag, after) ← if cursor.peekAt? 1 == some '<' then verbatim? cursor else shorthand? cursor
  guard (endsWord after.peek? || (inFlow && after.looksAt ','))
  return (tag, after)

-- The name of an anchor or an alias after its mark.
def anchorName? (cursor : Cursor) : Option (String × Cursor) := do
  let (name, after) := (cursor.skip 1).run isNameChar
  guard (!name.isEmpty)
  guard (endsWord after.peek? || after.peek?.any fun c => "?:,]\x7d%@`".toList.contains c)
  return (String.ofList name, after)

inductive Directive where
  | version (major minor : Nat)
  | tag (handle : String) (start : List UInt8)
deriving DecidableEq, Repr

-- A part of a version, of at most nine digits.
def versionPart? (cursor : Cursor) : Option (Nat × Cursor) := do
  let (digits, after) := cursor.run Char.isDigit
  guard (!digits.isEmpty && digits.length ≤ 9)
  return (readDecimal digits, after)

def versionDirective? (cursor : Cursor) : Option (Directive × Cursor) := do
  let (major, cursor) ← versionPart? cursor.skipWhite
  guard (cursor.looksAt '.')
  let (minor, cursor) ← versionPart? (cursor.skip 1)
  return (.version major minor, cursor)

def tagDirective? (cursor : Cursor) : Option (Directive × Cursor) := do
  let cursor := cursor.skipWhite
  guard (cursor.looksAt '!')
  let (handle, cursor) := readHandle cursor
  guard (handle.getLast? == some '!')
  guard (cursor.peek?.any isWhite)
  let (start, cursor) ← tagPart? .verbatim cursor.skipWhite
  guard (endsWord cursor.peek?)
  return (.tag (String.ofList handle) start, cursor)

-- A directive and the place after its line. The cursor is at its mark.
def directive? (cursor : Cursor) : Option (Directive × Cursor) := do
  let (name, cursor) := (cursor.skip 1).run isNameChar
  guard (endsWord cursor.peek?)
  let (directive, cursor) ←
    match String.ofList name with
    | "YAML" => versionDirective? cursor
    | "TAG" => tagDirective? cursor
    | _ => none
  let cursor := cursor.skipWhite.skipComment
  guard (endsLine cursor.peek?)
  return (directive, (cursor.readBreak).2)

end Rollout.Yaml
