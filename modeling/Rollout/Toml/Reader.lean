import Rollout.Toml.Number
import Rollout.Toml.Quoted
import Rollout.Toml.Table

namespace Rollout.Toml

-- A key and its value, read by `value?`, and what follows.
def keyValue? (value? : List Char → Option (Toml × List Char)) (text : List Char) :
    Option ((List String × Toml) × List Char) := do
  let (path, rest) ← key? text
  let (value, rest) ← value? (skipSpace (← expect? '=' rest))
  return ((path, value), rest)

-- The rest of an array: values between commas, with or without one after the last.
-- Comments and line breaks may stand between them.
def items? (value? : List Char → Option (Toml × List Char)) :
    Nat → List Char → Option (List Toml × List Char)
  | 0, _ => none
  | rounds + 1, text =>
    match skipLines? text.length text with
    | none => none
    | some (']' :: rest) => some ([], rest)
    | some text =>
      match value? text with
      | none => none
      | some (item, rest) =>
        match skipLines? rest.length rest with
        | some (',' :: rest) =>
          (items? value? rounds rest).map fun (items, rest) => (item :: items, rest)
        | some (']' :: rest) => some ([item], rest)
        | _ => none

-- The rest of a table on one line: keys with values between commas, at least one.
def pairs? (value? : List Char → Option (Toml × List Char)) :
    Nat → List Char → Option (List (List String × Toml) × List Char)
  | 0, _ => none
  | rounds + 1, text =>
    match keyValue? value? text with
    | none => none
    | some (pair, rest) =>
      match skipSpace rest with
      | ',' :: rest =>
        (pairs? value? rounds rest).map fun (pairs, rest) => (pair :: pairs, rest)
      | '\x7d' :: rest => some ([pair], rest)
      | _ => none

-- A key's path put into a table with its value.
def setPath? (path : List String) (value : Toml) (members : Members) : Option Members :=
  path.getLast?.bind fun key => members.set? key value path.dropLast

def ofPairs? (pairs : List (List String × Toml)) : Option Toml :=
  (pairs.foldlM (fun members pair => setPath? pair.1 pair.2 members) ([] : Members)).map
    fun members => .table (membersToml members)

-- The rest of a table on one line.
def inlineTable? (value? : List Char → Option (Toml × List Char)) (text : List Char) :
    Option (Toml × List Char) :=
  match skipSpace text with
  | '\x7d' :: rest => some (.table [], rest)
  | text => do
    let (pairs, rest) ← pairs? value? text.length text
    return (← ofPairs? pairs, rest)

-- A value that holds no others.
def scalar? (text : List Char) : Option (Toml × List Char) :=
  match text with
  | 't' :: 'r' :: 'u' :: 'e' :: rest => some (.bool true, rest)
  | 'f' :: 'a' :: 'l' :: 's' :: 'e' :: rest => some (.bool false, rest)
  | c :: _ =>
    if c == '"' || c == '\'' then
      (quoted? text).map fun (value, rest) => (.string value, rest)
    else number? text
  | [] => none

-- A value in which arrays and tables are nested at most `depth` deep.
def value? : Nat → List Char → Option (Toml × List Char)
  | 0, text => scalar? text
  | depth + 1, text =>
    match text with
    | '[' :: rest =>
      (items? (value? depth) (rest.length + 1) rest).map fun (items, rest) => (.array items, rest)
    | '\x7b' :: rest => inlineTable? (value? depth) rest
    | text => scalar? text

-- A document while it is read: its members, and the path of the table that takes
-- further keys.
structure Draft where
  members : Members
  current : List String

namespace Draft

def openAt? (draft : Draft) (path : List String) (open? : String → Members → Option Members) :
    Option Draft := do
  let key ← path.getLast?
  let members ← draft.members.within? (open? key) path.dropLast
  return ⟨members, path⟩

-- A header, and what follows its line.
def header? (draft : Draft) (text : List Char) : Option (Draft × List Char) :=
  match text with
  | '[' :: rest => do
    let (path, rest) ← key? rest
    let rest ← lineEnd? (← expect? ']' (← expect? ']' rest))
    return (← draft.openAt? path Members.openTables?, rest)
  | _ => do
    let (path, rest) ← key? text
    let rest ← lineEnd? (← expect? ']' rest)
    return (← draft.openAt? path Members.openTable?, rest)

-- A key with its value, and what follows their line.
def entry? (draft : Draft) (text : List Char) : Option (Draft × List Char) := do
  let ((path, value), rest) ← keyValue? (value? depthLimit) text
  let members ← draft.members.within? (setPath? path value) draft.current
  return ({ draft with members := members }, ← lineEnd? rest)

-- The lines of a document. Rounds suffice as long as there are more of them than
-- characters.
def lines? : Nat → Draft → List Char → Option Draft
  | 0, _, _ => none
  | rounds + 1, draft, text =>
    match skipSpace text with
    | [] => some draft
    | '[' :: rest => (draft.header? rest).bind fun (draft, rest) => lines? rounds draft rest
    | c :: rest =>
      if c == '#' || c == '\n' || c == '\r' then
        (lineEnd? (c :: rest)).bind (lines? rounds draft)
      else (draft.entry? (c :: rest)).bind fun (draft, rest) => lines? rounds draft rest

end Draft

-- The members of the document that a text holds. A byte order mark may stand in front.
def ofText? (text : String) : Option (List (String × Toml)) :=
  let text := match text.toList with
    | '\ufeff' :: rest => rest
    | text => text
  (Draft.lines? (text.length + 1) ⟨[], []⟩ text).map fun draft => membersToml draft.members

end Rollout.Toml
