import Rollout.Checkout

namespace Rollout

-- The content of a file, told from its bytes.
def FileState.ofBytes (bytes : List UInt8) : FileState :=
  match String.fromUTF8? ⟨bytes.toArray⟩ with
  | some content => .text content
  | none => .binary bytes

-- Files and directories below a working directory, each with the names that lead to
-- it. A directory that holds something need not be listed.
structure FileTree where
  entries : List (List String × FileState)

namespace FileTree

def isDirectory (tree : FileTree) (place : List String) : Bool :=
  place.isEmpty || tree.entries.any fun entry =>
    (entry.1 == place && entry.2 == .directory) || (place.isPrefixOf entry.1 && entry.1 != place)

-- Where the parts of a path lead from a place. Every part but the last has to be
-- a directory, and nothing is known above the working directory.
def follow (tree : FileTree) (place : List String) : List String → Except ReadFault (List String)
  | [] => .ok place
  | part :: parts =>
    if !tree.isDirectory place then
      .error (if (tree.entries.lookup place).isSome then .throughFile else .missing)
    else if part == "" || part == "." then tree.follow place parts
    else if part == ".." then
      if place.isEmpty then .error .missing else tree.follow place.dropLast parts
    else tree.follow (place ++ [part]) parts

def parts (path : String) : List String := path.splitOn "/"

-- What is at a place.
def stateAt (tree : FileTree) (place : List String) : FileState :=
  if tree.isDirectory place then .directory
  else (tree.entries.lookup place).getD (.absent .missing)

-- What is at the end of a path.
def find (tree : FileTree) (path : String) : FileState :=
  match tree.follow [] (parts path) with
  | .ok place => tree.stateAt place
  | .error cause => .absent cause

-- A file replaced by another. What is no file stays as it is.
def store (tree : FileTree) (path : String) (state : FileState) : FileTree :=
  match tree.follow [] (parts path) with
  | .error _ => tree
  | .ok place =>
    ⟨tree.entries.map fun entry => if entry.1 == place then (place, state) else entry⟩

-- The tree of listed files and directories.
def ofList (files : List (String × FileState)) : FileTree :=
  ⟨files.map fun file => ((parts file.1).filter fun part => part != "" && part != ".", file.2)⟩

-- The checkout with its recipe in a directory, and everything else in the tree beside it. In
-- messages the directory goes by another name.
def checkout (tree : FileTree) (directory shown : String) : Checkout :=
  let found : Checkout := ⟨directory, .directory, .directory, ∅⟩
  let own := [found.recipePath, found.configPath].filterMap fun path =>
    (tree.follow [] (parts path)).toOption
  let others := tree.entries.filter fun entry => !own.contains entry.1
  ⟨shown, tree.find found.recipePath, tree.find found.configPath,
    Std.ExtTreeMap.ofList (others.map fun entry => ("/".intercalate entry.1, entry.2)) compare⟩

-- The files of a checkout put back.
def restore (tree : FileTree) (directory : String) (checkout : Checkout) : FileTree :=
  let found := { checkout with recipeDir := directory }
  let own := (tree.store found.recipePath checkout.recipe).store found.configPath checkout.config
  checkout.others.toList.foldl (fun tree other => tree.store other.1 other.2) own

end FileTree

end Rollout
