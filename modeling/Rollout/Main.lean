import Rollout.CommandLine
import Rollout.FileTree
import Std.Time.DateTime.Timestamp

namespace Rollout.Main

-- Why the system could not read a file. The number of an error may be negated.
def readFault : IO.Error → ReadFault
  | .noFileOrDirectory .. => .missing
  | .inappropriateType _ code _ => if code == 21 || code == -21 then .directory else .throughFile
  | .permissionDenied .. => .other "Permission denied (os error 13)"
  | fault => .other fault.toString

def fileState (path : String) : IO FileState := do
  try
    return .ofBytes (← IO.FS.readBinFile path).toList
  catch fault =>
    match readFault fault with
    | .directory => return .directory
    | cause => return .absent cause

-- A file written unless it is as it was.
def save (path : String) (old new : FileState) : IO Unit :=
  match new with
  | .text content => if old == new then pure () else IO.FS.writeFile path content
  | _ => pure ()

def clock : IO Instant := do
  let time ← Std.Time.Timestamp.now
  let nanos := time.toNanosecondsSinceUnixEpoch.val
  return ⟨nanos / 1000000000, (nanos % 1000000000).toNat⟩

def finish (report : CommandLine.Report) : IO UInt32 := do
  IO.print report.output
  match report.failure with
  | some failure => failure.lines.forM IO.eprintln
  | none => pure ()
  return report.exitCode.toUInt32

def readCheckout (recipeDir : String) : IO Checkout := do
  let paths : Checkout := ⟨recipeDir, .directory, .directory, ∅⟩
  return ⟨recipeDir, ← fileState paths.recipePath, ← fileState paths.configPath, ∅⟩

def run (request : CommandLine.Request) : IO UInt32 := do
  let checkout ← match request.recipeDir? with
    | some recipeDir => readCheckout recipeDir
    | none => pure ⟨"", .directory, .directory, ∅⟩
  let (report, left) := request.serve (← clock) (← fileState request.graphPath)
    (← fileState request.manifestPath) checkout
  save checkout.recipePath checkout.recipe left.recipe
  save checkout.configPath checkout.config left.config
  finish report

end Rollout.Main

def main (arguments : List String) : IO UInt32 := do
  match Rollout.CommandLine.Request.ofArguments arguments with
  | .ok request => Rollout.Main.run request
  | .error stop =>
    IO.print stop.output
    if stop == .misuse then IO.eprint Rollout.CommandLine.usageText
    return stop.exitCode.toUInt32
