import Rollout.Yaml.Node
import Rollout.Yaml.Scalar

namespace Rollout.Yaml

def Node.properties : Node → Properties
  | .alias _ => ⟨none, none⟩
  | .scalar properties _ _ | .sequence properties _ | .mapping properties _ => properties

-- What a node adds to the table of anchors.
def Node.ownAnchor (node : Node) : List (Nat × Node) :=
  match node.properties.anchor with
  | some anchor => [(anchor, node)]
  | none => []

mutual

-- The nodes with anchors, in the order in which they start.
def Node.anchored : Node → List (Nat × Node)
  | .alias _ => []
  | .scalar properties text plain => Node.ownAnchor (.scalar properties text plain)
  | .sequence properties items => Node.ownAnchor (.sequence properties items) ++ anchoredItems items
  | .mapping properties entries =>
    Node.ownAnchor (.mapping properties entries) ++ anchoredEntries entries

def anchoredItems : List Node → List (Nat × Node)
  | [] => []
  | item :: items => item.anchored ++ anchoredItems items

def anchoredEntries : List (Node × Node) → List (Nat × Node)
  | [] => []
  | (key, value) :: entries => key.anchored ++ value.anchored ++ anchoredEntries entries

end

mutual

-- The size of a node: one for each scalar, alias, and end of a collection.
def Node.size : Node → Nat
  | .alias _ | .scalar _ _ _ => 1
  | .sequence _ items => 2 + sizeItems items
  | .mapping _ entries => 2 + sizeEntries entries

def sizeItems : List Node → Nat
  | [] => 0
  | item :: items => item.size + sizeItems items

def sizeEntries : List (Node × Node) → Nat
  | [] => 0
  | (key, value) :: entries => key.size + value.size + sizeEntries entries

end

-- The nodes that aliases stand for, and how many aliases may be followed.
structure Anchors where
  nodes : List (Nat × Node)
  limit : Nat

namespace Anchors

-- The anchors of a document. A later node takes an anchor over from an earlier one,
-- also for aliases between them.
def ofNode (node : Node) : Anchors := ⟨node.anchored.reverse, 100 * node.size⟩

-- The node that an alias stands for; other nodes stand for themselves. The state
-- counts the aliases followed.
def follow? (anchors : Anchors) (node : Node) : StateT Nat Option Node := do
  match node with
  | .alias anchor =>
    modify (· + 1)
    if anchors.limit < (← get) then failure
    match anchors.nodes.lookup anchor with
    | some node => return node
    | none => failure
  | node => return node

end Anchors

-- The value under the tag of a collection.
def withTag (properties : Properties) (value : Yaml) : Yaml :=
  match properties.tag.bind localName? with
  | some name => .tagged name value
  | none => value

-- The value of a scalar with its tag.
def scalar? (properties : Properties) (text : List Char) (plain : Bool) : Option Yaml :=
  match properties.tag with
  | none => untagged? text plain
  | some tag =>
    match localName? tag with
    | some name => (untagged? text plain).map (.tagged name)
    | none => tagged? tag text plain

-- The entries of a mapping, none if a key is given twice.
def distinct? : List (Yaml × Yaml) → List (Yaml × Yaml) → Option (List (Yaml × Yaml))
  | read, [] => some read.reverse
  | read, (key, value) :: entries =>
    if read.any fun entry => entry.1.same key then none
    else distinct? ((key, value) :: read) entries

-- The value of a node in which collections are nested at most `depth` deep.
def value? (anchors : Anchors) : Nat → Node → StateT Nat Option Yaml
  | 0, node => do
    match ← anchors.follow? node with
    | .scalar properties text plain => StateT.lift (scalar? properties text plain)
    | _ => failure
  | depth + 1, node => do
    match ← anchors.follow? node with
    | .alias _ => failure
    | .scalar properties text plain => StateT.lift (scalar? properties text plain)
    | .sequence properties items =>
      let items ← items.mapM (value? anchors depth)
      return withTag properties (.sequence items)
    | .mapping properties entries =>
      let entries ← entries.mapM fun entry => do
        let key ← value? anchors depth entry.1
        let value ← value? anchors depth entry.2
        return (key, value)
      let entries ← StateT.lift (distinct? [] entries)
      return withTag properties (.mapping entries)

-- How deep collections may be nested.
def depthLimit : Nat := 128

-- The document that a text holds. A text without a document holds null.
def ofText? (text : String) : Option Yaml := do
  let tokens ← tokens? text.toList
  let node ← document? tokens
  let (value, _) ← (value? (Anchors.ofNode node) depthLimit node).run 0
  return value

end Rollout.Yaml
