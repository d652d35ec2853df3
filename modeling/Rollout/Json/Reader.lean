import Rollout.Json.Draft
import Rollout.Json.Token

namespace Rollout.Json

-- An array or object that is still open, with what it holds so far, last first.
inductive Frame where
  | array (items : List Draft)
  | object (members : List (Option String × Draft)) (key : Option String)
deriving Repr

-- What may come next. The `first` forms follow an opening bracket, where the
-- closing one may come at once.
inductive Phase where
  | value
  | firstItem
  | firstKey (members : List (Option String × Draft))
  | key (members : List (Option String × Draft))
  | colon (members : List (Option String × Draft)) (key : Option String)
  | separator
  | finished (draft : Draft)
deriving Repr

structure ReaderState where
  -- the open arrays and objects around the next token, innermost first
  frames : List Frame
  phase : Phase
deriving Repr

-- The state after a whole value.
def afterValue (draft : Draft) : List Frame → ReaderState
  | [] => ⟨[], .finished draft⟩
  | .array items :: outer => ⟨.array (draft :: items) :: outer, .separator⟩
  | .object members key :: outer => ⟨.object ((key, draft) :: members) key :: outer, .separator⟩

-- One token where a value is expected. An object's frame is pushed with its first
-- key, so until then the phase carries its members.
def beginValue (frames : List Frame) : Token → Option ReaderState
  | .null => some (afterValue .null frames)
  | .bool value => some (afterValue (.bool value) frames)
  | .number value => some (afterValue (.number value) frames)
  | .string text => some (afterValue (.string text) frames)
  | .openBracket => some ⟨.array [] :: frames, .firstItem⟩
  | .openBrace => some ⟨frames, .firstKey []⟩
  | _ => none

def ReaderState.step (state : ReaderState) (token : Token) : Option ReaderState :=
  match state.phase, token with
  | .value, token => beginValue state.frames token
  | .firstItem, .closeBracket =>
    match state.frames with
    | .array items :: outer => some (afterValue (.array items.reverse) outer)
    | _ => none
  | .firstItem, token => beginValue state.frames token
  | .firstKey members, .closeBrace => some (afterValue (.object members.reverse) state.frames)
  | .firstKey members, .string key => some ⟨state.frames, .colon members key⟩
  | .key members, .string key => some ⟨state.frames, .colon members key⟩
  | .colon members key, .colon => some ⟨.object members key :: state.frames, .value⟩
  | .separator, .comma =>
    match state.frames with
    | .array items :: outer => some ⟨.array items :: outer, .value⟩
    | .object members _ :: outer => some ⟨outer, .key members⟩
    | [] => none
  | .separator, .closeBracket =>
    match state.frames with
    | .array items :: outer => some (afterValue (.array items.reverse) outer)
    | _ => none
  | .separator, .closeBrace =>
    match state.frames with
    | .object members _ :: outer => some (afterValue (.object members.reverse) outer)
    | _ => none
  | _, _ => none

def ReaderState.start : ReaderState := ⟨[], .value⟩

-- The draft that tokens spell, exactly one value and nothing after it.
def ofTokens? (tokens : List Token) : Option Draft := do
  let state ← tokens.foldlM ReaderState.step ReaderState.start
  match state.phase with
  | .finished draft => some draft
  | _ => none

-- The draft a text holds; none if it is not JSON.
def draft? (text : String) : Option Draft := do
  ofTokens? (← tokens? [] text.toList)

-- What a reader of this shape makes of a text.
def Shape.ofText? (shape : Shape) (text : String) : Option Json :=
  (draft? text).bind (Draft.read? maxDepth shape)

-- The document a text holds, all of it.
def ofText? (text : String) : Option Json := Shape.full.ofText? text

end Rollout.Json
