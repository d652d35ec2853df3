import Rollout.Yaml.Token

namespace Rollout.Yaml

-- The anchor that a value defines and the tag that it carries. Anchors are numbers
-- here, since a name may be given to several values in turn.
structure Properties where
  anchor : Option Nat
  tag : Option (List UInt8)
deriving Repr

-- A value as it is written, before tags are interpreted and aliases are followed.
inductive Node where
  | alias (anchor : Nat)
  | scalar (properties : Properties) (text : List Char) (plain : Bool)
  | sequence (properties : Properties) (items : List Node)
  | mapping (properties : Properties) (entries : List (Node × Node))
deriving Inhabited, Repr

-- A value that is left out.
def Node.missing : Node := .scalar ⟨none, none⟩ [] true

-- The tokens that are left, the beginnings of tags that handles stand for, and the
-- anchors in scope.
structure Reading where
  rest : List Token
  handles : List (String × List UInt8)
  anchors : List (String × Nat)

namespace Reading

-- The full tag of a name, none if its handle is not defined.
def resolveTag? (reading : Reading) (name : TagName) : Option (List UInt8) :=
  if name.handle.isEmpty then some name.suffix
  else (reading.handles.lookup name.handle).map fun start => start ++ name.suffix

-- The number of a new anchor. A name that is in use keeps one place in the table.
def addAnchor (reading : Reading) (name : String) : Nat × Reading :=
  let place := reading.anchors.length
  (place, { reading with
    anchors := (name, place) :: reading.anchors.filter fun entry => entry.1 != name })

-- An anchor and a tag in front of a value, in either order.
def properties? (reading : Reading) : Option (Properties × Reading) :=
  let (anchor, tag, rest) := match reading.rest with
    | .anchor anchor :: .tag tag :: rest => (some anchor, some tag, rest)
    | .tag tag :: .anchor anchor :: rest => (some anchor, some tag, rest)
    | .anchor anchor :: rest => (some anchor, none, rest)
    | .tag tag :: rest => (none, some tag, rest)
    | rest => (none, none, rest)
  let left := { reading with rest := rest }
  let resolved := match tag with
    | some tag => (reading.resolveTag? tag).map some
    | none => some none
  resolved.map fun tag =>
    match anchor with
    | some name => let (place, left) := left.addAnchor name; (⟨some place, tag⟩, left)
    | none => (⟨none, tag⟩, left)

def advance (reading : Reading) : Reading := { reading with rest := reading.rest.drop 1 }

end Reading

-- The mark of a tag by itself means nothing on a scalar.
def Properties.onScalar (properties : Properties) : Properties :=
  if properties.tag == some [byteOf '!'] then { properties with tag := none } else properties

-- The tokens in front of which an entry of each kind of collection is left out.
def endsItem (token : Token) : Bool := token == .blockEntry || token == .blockEnd

def endsBlockPart (token : Token) : Bool :=
  token == .key || token == .value || token == .blockEnd

def endsIndentlessItem (token : Token) : Bool := token == .blockEntry || endsBlockPart token

def endsFlowKey (close token : Token) : Bool :=
  token == .value || token == .flowEntry || token == close

def endsFlowValue (close token : Token) : Bool := token == .flowEntry || token == close

mutual

-- A value. In a block it may be a block collection, and as a part of a block mapping
-- also a sequence that is not indented further than the mapping. Every round takes a
-- token or ends a collection.
def node? : Nat → Bool → Bool → Reading → Option (Node × Reading)
  | 0, _, _, _ => none
  | rounds + 1, inBlock, inMapping, reading =>
    match reading.rest with
    | .alias name :: _ =>
      (reading.anchors.lookup name).map fun anchor => (.alias anchor, reading.advance)
    | _ =>
      match reading.properties? with
      | none => none
      | some (properties, reading) =>
        match reading.rest.head? with
        | some (.scalar text plain) => some (.scalar properties.onScalar text plain, reading.advance)
        | some .flowSequenceStart =>
          (flowItems? rounds true reading.advance).map fun (items, reading) =>
            (.sequence properties items, reading)
        | some .flowMappingStart =>
          (flowEntries? rounds true reading.advance).map fun (entries, reading) =>
            (.mapping properties entries, reading)
        | some token =>
          if token == .blockEntry && inMapping then
            (indentlessItems? rounds reading).map fun (items, reading) =>
              (.sequence properties items, reading)
          else if token == .blockSequenceStart && inBlock then
            (blockItems? rounds reading.advance).map fun (items, reading) =>
              (.sequence properties items, reading)
          else if token == .blockMappingStart && inBlock then
            (blockEntries? rounds reading.advance).map fun (entries, reading) =>
              (.mapping properties entries, reading)
          else if properties.anchor.isSome || properties.tag.isSome then
            some (.scalar properties [] true, reading)
          else none
        | none =>
          if properties.anchor.isSome || properties.tag.isSome then
            some (.scalar properties [] true, reading)
          else none

-- A value that may be left out in front of some tokens.
def part? : Nat → Bool → Bool → (Token → Bool) → Reading → Option (Node × Reading)
  | 0, _, _, _, _ => none
  | rounds + 1, inBlock, inMapping, ends, reading =>
    if reading.rest.head?.any ends then some (.missing, reading)
    else node? rounds inBlock inMapping reading

-- The items of a block sequence.
def blockItems? : Nat → Reading → Option (List Node × Reading)
  | 0, _ => none
  | rounds + 1, reading =>
    match reading.rest.head? with
    | some .blockEntry =>
      match part? rounds true false endsItem reading.advance with
      | none => none
      | some (item, reading) =>
        (blockItems? rounds reading).map fun (items, reading) => (item :: items, reading)
    | some .blockEnd => some ([], reading.advance)
    | _ => none

-- The items of a sequence that is indented like the mapping around it.
def indentlessItems? : Nat → Reading → Option (List Node × Reading)
  | 0, _ => none
  | rounds + 1, reading =>
    match reading.rest.head? with
    | some .blockEntry =>
      match part? rounds true false endsIndentlessItem reading.advance with
      | none => none
      | some (item, reading) =>
        (indentlessItems? rounds reading).map fun (items, reading) => (item :: items, reading)
    | _ => some ([], reading)

-- The entries of a block mapping.
def blockEntries? : Nat → Reading → Option (List (Node × Node) × Reading)
  | 0, _ => none
  | rounds + 1, reading =>
    match reading.rest.head? with
    | some .key =>
      match part? rounds true true endsBlockPart reading.advance with
      | none => none
      | some (key, reading) =>
        let value :=
          if reading.rest.head? == some .value then
            part? rounds true true endsBlockPart reading.advance
          else some (.missing, reading)
        match value with
        | none => none
        | some (value, reading) =>
          (blockEntries? rounds reading).map fun (entries, reading) =>
            ((key, value) :: entries, reading)
    | some .blockEnd => some ([], reading.advance)
    | _ => none

-- The items of a sequence on one line. An item with a key is a mapping of one entry.
def flowItems? : Nat → Bool → Reading → Option (List Node × Reading)
  | 0, _, _ => none
  | rounds + 1, first, reading =>
    if reading.rest.head? == some .flowSequenceEnd then some ([], reading.advance)
    else if !first && reading.rest.head? != some .flowEntry then none
    else
      let reading := if first then reading else reading.advance
      if reading.rest.head? == some .flowSequenceEnd then some ([], reading.advance)
      else
        let item :=
          if reading.rest.head? == some .key then
            (flowPair? rounds reading.advance).map fun (entry, reading) =>
              (Node.mapping ⟨none, none⟩ [entry], reading)
          else node? rounds false false reading
        match item with
        | none => none
        | some (item, reading) =>
          (flowItems? rounds false reading).map fun (items, reading) => (item :: items, reading)

-- The single entry of a mapping without braces. Where its key is left out, the token
-- that shows so is taken with it.
def flowPair? : Nat → Reading → Option ((Node × Node) × Reading)
  | 0, _ => none
  | rounds + 1, reading =>
    let key :=
      if reading.rest.head?.any (endsFlowKey .flowSequenceEnd) then some (.missing, reading.advance)
      else node? rounds false false reading
    match key with
    | none => none
    | some (key, reading) =>
      let value :=
        if reading.rest.head? == some .value then
          part? rounds false false (endsFlowValue .flowSequenceEnd) reading.advance
        else some (.missing, reading)
      value.map fun (value, reading) => ((key, value), reading)

-- The entries of a mapping on one line.
def flowEntries? : Nat → Bool → Reading → Option (List (Node × Node) × Reading)
  | 0, _, _ => none
  | rounds + 1, first, reading =>
    if reading.rest.head? == some .flowMappingEnd then some ([], reading.advance)
    else if !first && reading.rest.head? != some .flowEntry then none
    else
      let reading := if first then reading else reading.advance
      if reading.rest.head? == some .flowMappingEnd then some ([], reading.advance)
      else
        let entry :=
          if reading.rest.head? == some .key then
            match part? rounds false false (endsFlowKey .flowMappingEnd) reading.advance with
            | none => none
            | some (key, reading) =>
              let value :=
                if reading.rest.head? == some .value then
                  part? rounds false false (endsFlowValue .flowMappingEnd) reading.advance
                else some (.missing, reading)
              value.map fun (value, reading) => ((key, value), reading)
          else (node? rounds false false reading).map fun (key, reading) =>
            ((key, .missing), reading)
        match entry with
        | none => none
        | some (entry, reading) =>
          (flowEntries? rounds false reading).map fun (entries, reading) =>
            (entry :: entries, reading)

end

-- The handles that need no directive.
def commonHandles : List (String × List UInt8) :=
  [("!", [byteOf '!']), ("!!", "tag:yaml.org,2002:".toList.map byteOf)]

def isStandardVersion : Directive → Bool
  | .version major minor => major == 1 && (minor == 1 || minor == 2)
  | .tag _ _ => false

-- The handles that directives define, none if these are at odds: the version is
-- given at most once, as is each handle.
def handles? (directives : List Directive) : Option (List (String × List UInt8)) :=
  let versions := directives.filter fun directive => directive matches .version _ _
  let tags := directives.filterMap fun
    | .tag handle start => some (handle, start)
    | .version _ _ => none
  if versions.length ≤ 1 && versions.all isStandardVersion && decide (tags.map Prod.fst).Nodup then
    some (tags ++ commonHandles)
  else none

def Token.startsDocument : Token → Bool
  | .directive _ | .documentStart => true
  | _ => false

-- The value of a document behind its start, with the tokens after it.
def content? (tokens : List Token) (handles : List (String × List UInt8)) :
    Option (Node × List Token) :=
  if tokens.isEmpty || tokens.head?.any (fun token => token.startsDocument || token == .documentEnd)
  then some (.missing, tokens)
  else
    (node? (4 * tokens.length + 4) true false ⟨tokens, handles, []⟩).map fun (node, reading) =>
      (node, reading.rest)

-- The value of the only document among tokens, which is left out if there are none.
def document? (tokens : List Token) : Option Node := do
  let (node, rest) ←
    if tokens.isEmpty then some (.missing, [])
    else if tokens.head?.any Token.startsDocument then
      let directives := tokens.takeWhile fun token => token matches .directive _
      let rest := tokens.drop directives.length
      let handles ← handles? (directives.filterMap fun
        | .directive directive => some directive
        | _ => none)
      guard (rest.head? == some .documentStart)
      content? (rest.drop 1) handles
    else if tokens.head? == some .documentEnd then none
    else content? tokens commonHandles
  guard (rest.all fun token => token == .documentEnd)
  return node

end Rollout.Yaml
