import Rollout.Binary64.Layout
import Rollout.Yaml.Style

namespace Rollout.Yaml

-- The rest of the line on which a value starts, and what stands below it: lines, and
-- the bodies of literal scalars, which may have several and bring their own line end.
structure Lines where
  first : List Char
  more : List (List Char)

def numberText : Number → List Char
  | .int value => (toString value).toList
  | .float value =>
    if value.isNaN then ['.', 'n', 'a', 'n']
    else if value.isInfinite then
      if value.isNegative then ['-', '.', 'i', 'n', 'f'] else ['.', 'i', 'n', 'f']
    else (Layout.render ⟨-5, 15, false⟩ value).toList

-- A text, with its further lines at an indentation.
def stringLines (asKey : Bool) (indent : Nat) (text : List Char) : Lines :=
  match styleOf asKey text with
  | .plain => ⟨text, []⟩
  | .single => ⟨singleQuoted indent text, []⟩
  | .double => ⟨doubleQuoted text, []⟩
  | .literal => ⟨literalHeader text, [indented indent true text]⟩

-- A value that takes no collection of lines: a scalar or an empty collection.
def leaf? (asKey : Bool) (indent : Nat) : Yaml → Option Lines
  | .null => some ⟨['n', 'u', 'l', 'l'], []⟩
  | .bool true => some ⟨['t', 'r', 'u', 'e'], []⟩
  | .bool false => some ⟨['f', 'a', 'l', 's', 'e'], []⟩
  | .number value => some ⟨numberText value, []⟩
  | .string text => some (stringLines asKey indent text.toList)
  | .sequence [] => some ⟨['[', ']'], []⟩
  | .mapping [] => some ⟨['\x7b', '\x7d'], []⟩
  | _ => none

-- The characters of tags that need no escape.
def isBareTagChar (c : Char) : Bool := isNameChar c || ";/?:@&=+$,.~*'()[]".toList.contains c

def percentEscaped (byte : UInt8) : List Char := '%' :: hexPlaces 2 byte.toNat

def tagText (name : String) : List Char :=
  '!' :: name.toList.flatMap fun c =>
    if isBareTagChar c then [c] else (String.singleton c).toUTF8.toList.flatMap percentEscaped

-- The tag in front of a value and the value itself.
def splitTag : Yaml → List Char × Yaml
  | .tagged name value => (tagText name, value)
  | value => ([], value)

def spaced (tag text : List Char) : List Char := if tag.isEmpty then text else tag ++ ' ' :: text

-- How many bytes a key can have to be written on the line of its value.
def keyLimit : Nat := 128

-- What counts against the limit: the tag, and a text before it is quoted or escaped.
-- A collection counts nothing.
def keyLength : Yaml → Nat
  | .tagged name value => 1 + name.utf8ByteSize + keyLength value
  | .string text => text.utf8ByteSize
  | .null => 4
  | .bool value => if value then 4 else 5
  | .number value => (numberText value).length
  | _ => 0

def isMultilineText : Yaml → Bool
  | .string text => isMultiline text.toList
  | _ => false

-- A key that stays on one line.
def simpleKey? (key : Yaml) : Option (List Char) :=
  let (tag, value) := splitTag key
  if isMultilineText value || keyLimit < keyLength key then none
  else (leaf? true 0 value).map fun lines => spaced tag lines.first

-- What a value is written behind: the dash of an item, the mark of a key or value
-- that has a line of its own, or the colon after a key.
inductive Lead where
  | item
  | part
  | colon
deriving DecidableEq, Repr

def allLines (indent : Nat) (parts : List Lines) : List (List Char) :=
  parts.flatMap fun part => (spaces indent ++ part.first) :: part.more

-- The parts of a collection one below the other. Without a tag they start on the
-- line of an item's dash, but not behind a colon.
def stacked (lead : Lead) (tag : List Char) (indent : Nat) (parts : List Lines) : Lines :=
  match parts with
  | [] => ⟨[], []⟩
  | part :: parts =>
    if lead != .colon && tag.isEmpty then ⟨' ' :: part.first, part.more ++ allLines indent parts⟩
    else ⟨if tag.isEmpty then [] else ' ' :: tag, allLines indent (part :: parts)⟩

-- The indentation of the items of a sequence. Below a key or a tag of a mapping's
-- part they are not indented further.
def itemIndent (lead : Lead) (tag : List Char) (indent : Nat) : Nat :=
  if lead == .colon || (lead == .part && !tag.isEmpty) then indent else indent + 2

mutual

-- A value behind something in a collection with this indentation.
def writeValue (lead : Lead) (indent : Nat) (tag : List Char) : Yaml → Lines
  | .tagged name value => writeValue lead indent (tagText name) value
  | .sequence (item :: items) =>
    let inner := itemIndent lead tag indent
    stacked lead tag inner (writeItems inner (item :: items))
  | .mapping (entry :: entries) =>
    stacked lead tag (indent + 2) (writeEntries (indent + 2) (entry :: entries))
  | value =>
    match leaf? false (indent + 2) value with
    | some lines => ⟨' ' :: spaced tag lines.first, lines.more⟩
    | none => ⟨[], []⟩

def writeItems (indent : Nat) : List Yaml → List Lines
  | [] => []
  | item :: items =>
    let lines := writeValue .item indent [] item
    ⟨'-' :: lines.first, lines.more⟩ :: writeItems indent items

-- The entries of a mapping. A key that does not fit in front of its value has
-- a line of its own.
def writeEntries (indent : Nat) : List (Yaml × Yaml) → List Lines
  | [] => []
  | (key, value) :: entries =>
    let entry : Lines :=
      match simpleKey? key with
      | some text =>
        let lines := writeValue .colon indent [] value
        ⟨text ++ ':' :: lines.first, lines.more⟩
      | none =>
        let keyLines := writeValue .part indent [] key
        let lines := writeValue .part indent [] value
        ⟨'?' :: keyLines.first,
          keyLines.more ++ (spaces indent ++ ':' :: lines.first) :: lines.more⟩
    entry :: writeEntries indent entries

end

def endLine (line : List Char) : List Char :=
  if line.getLast?.any isBreak then line else line ++ ['\n']

-- The text of a document that is a mapping: an entry below the other.
def mappingText (entries : List (Yaml × Yaml)) : String :=
  let lines := if entries.isEmpty then [['\x7b', '\x7d']] else allLines 0 (writeEntries 0 entries)
  String.ofList (lines.flatMap endLine)

end Rollout.Yaml
