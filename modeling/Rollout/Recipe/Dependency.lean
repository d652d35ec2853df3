import Rollout.Text.Blank
import Rollout.Text.Line

namespace Rollout

-- What follows a package name at the front of a text, if the name is whole there:
-- at the end of the text or in front of white space.
def afterPackage? : (package text : List Char) → Option (List Char)
  | [], [] => some []
  | [], c :: rest => if isBlank c then some (c :: rest) else none
  | _ :: _, [] => none
  | p :: package, c :: text => if p = c then afterPackage? package text else none

-- White space, the package and what follows it. The white space taken is the
-- longest that leaves a whole package name behind it.
def locatePackage? (package : List Char) : List Char → Option (List Char × List Char)
  | [] => (afterPackage? package []).map fun rest => ([], rest)
  | c :: text =>
    let deeper :=
      if isBlank c then
        (locatePackage? package text).map fun found => (c :: found.1, found.2)
      else none
    match deeper with
    | some found => some found
    | none => (afterPackage? package (c :: text)).map fun rest => ([], rest)

-- A line `- package …` declares a package. Its parts before and after the name.
def declaration? (package line : List Char) : Option (List Char × List Char) :=
  let indent := line.takeWhile isBlank
  match line.dropWhile isBlank with
  | '-' :: item =>
    (locatePackage? package item).map fun found => (indent ++ '-' :: found.1, found.2)
  | _ => none

-- A line with the package it declares replaced; none if it does not declare it.
def renameLine? (package new line : List Char) : Option (List Char) :=
  (declaration? package line).map fun parts => parts.1 ++ new ++ parts.2

-- A recipe with a package replaced on every line that declares it, each line ended
-- by one newline; none if no line declares it.
def renameDependency? (package new recipe : String) : Option String :=
  let all := lines recipe.toList
  let renamed := all.map (renameLine? package.toList new.toList)
  if renamed.any Option.isSome then
    some (String.ofList (unlines (List.zipWith (fun line found => found.getD line) all renamed)))
  else none

end Rollout
