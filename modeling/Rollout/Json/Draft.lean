import Rollout.Json

namespace Rollout.Json

-- What a reader wants of a document. Under a key it has no use for, a value only
-- has to be well written; everything else must also denote something.
inductive Shape where
  -- every value in the document
  | full
  -- the fields of a record, each under any of its keys, or in this order if the
  -- record is an array; with `others` also what is under any other key
  | record (fields : List (List String × Shape)) (others : Bool)
  -- the values of an object, alike under every key
  | table (values : Shape)
  -- the items of an array
  | list (items : Shape)

namespace Shape

-- The shape of the value under a key; none if the value is passed over.
def member : Shape → String → Option Shape
  | .full, _ => some .full
  | .record fields others, key =>
    match fields.find? fun field => field.1.contains key with
    | some field => some field.2
    | none => if others then some .full else none
  | .table values, _ => some values
  | .list _, _ => some .full

def item : Shape → Nat → Shape
  | .full, _ => .full
  | .record fields _, index =>
    match fields[index]? with
    | some field => field.2
    | none => .full
  | .table _, _ => .full
  | .list items, _ => items

end Shape

-- A document as it is written, before its numbers and texts are taken for what
-- they denote; some of them may denote nothing.
inductive Draft where
  | null
  | bool (value : Bool)
  | number (value : Option Number)
  | string (text : Option String)
  | array (items : List Draft)
  | object (members : List (Option String × Draft))
deriving Inhabited, Repr

-- Arrays and objects that are read nest at most this deep.
def maxDepth : Nat := 127

namespace Draft

mutual

-- The document that a reader makes of a draft, without what its shape passes
-- over. `room` is how deep arrays and objects may still nest.
def read? (room : Nat) (shape : Shape) : Draft → Option Json
  | .null => some .null
  | .bool value => some (.bool value)
  | .number value => value.map .number
  | .string text => text.map .string
  | .array items =>
    if room = 0 then none else (readItems? (room - 1) shape 0 items).map .array
  | .object members =>
    if room = 0 then none else (readMembers? (room - 1) shape members).map .object

def readItems? (room : Nat) (shape : Shape) (index : Nat) : List Draft → Option (List Json)
  | [] => some []
  | item :: rest => do
    let value ← read? room (shape.item index) item
    let others ← readItems? room shape (index + 1) rest
    return value :: others

def readMembers? (room : Nat) (shape : Shape) :
    List (Option String × Draft) → Option (List (String × Json))
  | [] => some []
  | (none, _) :: _ => none
  | (some key, draft) :: rest =>
    match shape.member key with
    | none => readMembers? room shape rest
    | some inner => do
      let value ← read? room inner draft
      let others ← readMembers? room shape rest
      return (key, value) :: others

end

end Draft

end Rollout.Json
