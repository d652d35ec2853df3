import Rollout.CommandLine.Arguments
import Rollout.Graph.Snapshot
import Rollout.Manifest.Reader
import Rollout.Migration
import Rollout.Plan
import Rollout.PullRequest

namespace Rollout.CommandLine

-- A fault, with what the program was doing if it was loading a file.
structure Failure where
  context : Option String
  fault : Fault
deriving DecidableEq, Repr

-- What a failure is reported as, line by line.
def Failure.lines (failure : Failure) : List String :=
  match failure.context with
  | none => ["Error: " ++ failure.fault.message]
  | some context =>
    ["Error: " ++ context, "", "Caused by:", "    " ++ failure.fault.message]

-- What the program prints, and the fault that ended it.
structure Report where
  output : String
  failure : Option Failure
deriving DecidableEq, Repr

-- A fault of a computation out of its range ends the program at once, without a report.
def Report.isAborted (report : Report) : Bool :=
  report.failure.any fun failure => failure.fault.kind == .outOfRange

def Report.exitCode (report : Report) : Nat :=
  if report.isAborted then 101 else if report.failure.isSome then 1 else 0

def Report.failed (fault : Fault) : Report := ⟨"", some ⟨none, fault⟩⟩

def Stop.exitCode : Stop → Nat
  | .misuse => 2
  | .help | .version => 0

def programName : String := "feedstock-tick"

def versionText : String := programName ++ " 0.1.0\n"

def usageText : String :=
  "Usage: " ++ programName ++ " [-v] plan -g GRAPH -c CONFIG [-j JOB] [--show-skipped]\n" ++
  "       " ++ programName ++ " [-v] migrate -g GRAPH -c CONFIG -j JOB -f FEEDSTOCK -r RECIPE_DIR\n"

-- What goes to standard output when no work is asked for.
def Stop.output : Stop → String
  | .help => usageText
  | .version => versionText
  | .misuse => ""

def inContext {α : Type} (context : String) : Except Fault α → Except Failure α :=
  Except.mapError fun fault => ⟨some context, fault⟩

def withoutContext {α : Type} : Except Fault α → Except Failure α :=
  Except.mapError fun fault => ⟨none, fault⟩

def loadGraph (path : String) (file : FileState) : Except Fault Graph :=
  match file.read with
  | .error cause => .error (.unreadable .graph path cause)
  | .ok text => Graph.ofText text

def loadManifest (path : String) (file : FileState) : Except Fault Manifest :=
  match file.read with
  | .error cause => .error (.unreadable .migrations path cause)
  | .ok text => Manifest.ofText text

-- The shared graph and the jobs on it.
def load (graphPath manifestPath : String) (graphFile manifestFile : FileState) :
    Except Failure (Graph × List Job) := do
  let graph ← inContext ("loading graph " ++ graphPath) (loadGraph graphPath graphFile)
  let manifest ← inContext ("loading migrations " ++ manifestPath)
    (loadManifest manifestPath manifestFile)
  let jobs ← withoutContext (manifest.jobs graph)
  return (graph, jobs)

-- A job's plan: how many feedstocks are eligible, those of this run, how many are
-- left, and if wanted the others with the reasons.
def planLines (job : Job) (plan : Plan) (showSkipped : Bool) : List String :=
  let left := plan.order.length - plan.batch.length
  [job.key ++ " (" ++ toString plan.order.length ++ " eligible)"] ++
  (plan.batch.map fun name => "  " ++ name) ++
  (if left = 0 then [] else ["  ... " ++ toString left ++ " more beyond the PR limit"]) ++
  (if showSkipped then
    plan.skipped.toList.map fun entry => "  - " ++ entry.1 ++ " (" ++ entry.2.name ++ ")"
  else [])

def linesText (lines : List String) : String := String.join (lines.map fun line => line ++ "\n")

-- The plans of jobs one after the other, up to the first that fails.
def planAll (now : Instant) (graph : Graph) (showSkipped : Bool) : List Job → Report
  | [] => ⟨"", none⟩
  | job :: jobs =>
    match job.plan now graph with
    | .error fault => .failed fault
    | .ok plan =>
      let rest := planAll now graph showSkipped jobs
      { rest with output := linesText (planLines job plan showSkipped) ++ rest.output }

-- The plans of all jobs, or of those with a name, at a given time.
def planJobs (now : Instant) (graph : Graph) (jobs : List Job) (only : Option String)
    (showSkipped : Bool) : Report :=
  match only with
  | none => planAll now graph showSkipped jobs
  | some name =>
    let selected := jobs.filter fun job => job.key == name
    if selected.isEmpty then .failed (.jobNotFound name) else planAll now graph showSkipped selected

-- The first job with a name, and the feedstock that it is to migrate.
def choose (graph : Graph) (jobs : List Job) (name feedstock : String) :
    Except Fault (Job × Feedstock) :=
  match jobs.find? fun job => job.key == name with
  | none => .error (.jobNotFound name)
  | some job =>
    match graph.payload? feedstock with
    | none => .error (.feedstockNotFound feedstock)
    | some feedstock => .ok (job, feedstock)

def outcomeText (job : Job) : Outcome → String
  | .unchanged => "no-op\n"
  | .migrated identity =>
    identity.canonicalText ++ "\n" ++ (PullRequest.ofJob job none).prettyText ++ "\n"

-- One job run on one checkout, with the checkout that it leaves behind.
def migrateFeedstock (graph : Graph) (jobs : List Job) (name feedstock : String) (checkout : Checkout) :
    Report × Checkout :=
  match choose graph jobs name feedstock with
  | .error fault => (.failed fault, checkout)
  | .ok (job, feedstock) =>
    let done := job.run feedstock checkout
    match done.result with
    | .error fault => (.failed fault, done.checkout)
    | .ok outcome => (⟨outcomeText job outcome, none⟩, done.checkout)

-- A request served at a given time, with the content of the files that it names. A
-- plan leaves the checkout alone.
def Request.serve (request : Request) (now : Instant) (graphFile manifestFile : FileState)
    (checkout : Checkout) : Report × Checkout :=
  match load request.graphPath request.manifestPath graphFile manifestFile with
  | .error failure => (⟨"", some failure⟩, checkout)
  | .ok (graph, jobs) =>
    match request with
    | .plan _ _ only showSkipped => (planJobs now graph jobs only showSkipped, checkout)
    | .migrate _ _ name feedstock _ => migrateFeedstock graph jobs name feedstock checkout

end Rollout.CommandLine
