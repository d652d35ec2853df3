import Rollout.Manifest
import Rollout.Toml.Reader
import Rollout.Toml.Record

namespace Rollout

-- A number of pull requests.
def prLimit? : Option Toml → Option Nat := Toml.orElse? 0 (Toml.nat? UInt64.size)

def optional? {α : Type} (decode : Toml → Option α) : Option Toml → Option (Option α) :=
  Toml.orElse? none fun value => (decode value).map some

namespace Pace

def ofToml? (value : Toml) : Option Pace := do
  match ← value.record? ["staleness_days", "pinning_feedstock", "bump_number"] with
  | [days, pinning, increment] =>
    return {
      stalenessDays := ← Toml.orElse? default.stalenessDays Toml.int64? days
      pinning := ← Toml.orElse? default.pinning Toml.string? pinning
      increment := ← Toml.orElse? default.increment Toml.uint64? increment }
  | _ => none

end Pace

namespace WaveEntry

def fields : List String :=
  ["name", "migrator_version", "obj_version", "top_level", "cycles", "ignored_deps", "pr_limit"]

def ofToml? (value : Toml) : Option WaveEntry := do
  match ← value.record? fields with
  | [name, version, objectVersion, topLevel, cycles, ignored, prLimit] =>
    return {
      name := ← optional? Toml.string? name
      version := ← Toml.orElse? 0 Toml.uint32? version
      objectVersion := ← optional? Toml.uint32? objectVersion
      topLevel := ← Toml.orElse? [] (Toml.list? Toml.string?) topLevel
      cycles := ← Toml.orElse? [] (Toml.list? (Toml.list? Toml.string?)) cycles
      ignored := Std.ExtTreeMap.ofList (← Toml.orElse? [] (Toml.entries? Toml.nameSet?) ignored) compare
      prLimit := ← prLimit? prLimit }
  | _ => none

end WaveEntry

namespace SwapEntry

def ofToml? (value : Toml) : Option SwapEntry := do
  match ← value.record? ["old", "new", "rationale", "pr_limit"] with
  | [old, new, rationale, prLimit] =>
    return {
      old := ← old.bind Toml.string?
      new := ← new.bind Toml.string?
      rationale := ← Toml.orElse? "" Toml.string? rationale
      prLimit := ← prLimit? prLimit }
  | _ => none

end SwapEntry

namespace PlatformsEntry

def fields : List String :=
  ["profile", "name", "target_packages", "excluded_dependencies", "pr_limit"]

def ofToml? (value : Toml) : Option PlatformsEntry := do
  match ← value.record? fields with
  | [profile, name, targets, excluded, prLimit] =>
    return {
      profile := ← (profile.bind Toml.choice?).bind Profile.ofName?
      name := ← optional? Toml.string? name
      scope := ⟨← Toml.orElse? ∅ Toml.nameSet? targets, ← Toml.orElse? ∅ Toml.nameSet? excluded⟩
      prLimit := ← prLimit? prLimit }
  | _ => none

end PlatformsEntry

namespace Manifest

def sections : List String := ["scheduler", "graph", "replacement", "arch"]

-- A manifest from the members of a document, which may have no other sections.
def ofMembers? (members : List (String × Toml)) : Option Manifest := do
  guard (members.all fun member => sections.contains member.1)
  return {
    pace := ← Toml.orElse? .default Pace.ofToml? (members.lookup "scheduler")
    waves := ← Toml.orElse? [] (Toml.list? WaveEntry.ofToml?) (members.lookup "graph")
    swaps := ← Toml.orElse? [] (Toml.list? SwapEntry.ofToml?) (members.lookup "replacement")
    platforms := ← Toml.orElse? [] (Toml.list? PlatformsEntry.ofToml?) (members.lookup "arch") }

-- The manifest that a text holds, if it is in order.
def ofText (text : String) : Except Fault Manifest :=
  match (Toml.ofText? text).bind ofMembers? with
  | none => .error .notToml
  | some manifest =>
    match manifest.fault? with
    | some fault => .error fault
    | none => .ok manifest

end Manifest

end Rollout
