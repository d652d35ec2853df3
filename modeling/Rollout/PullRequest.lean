import Rollout.Job
import Rollout.Json.Writer

namespace Rollout

-- The texts of a pull request.
structure PullRequest where
  title : String
  body : String
  commitMessage : String
  branch : String
deriving DecidableEq, Repr

-- The label of a job's pull requests.
structure Label where
  name : String
  description : String
  color : String
deriving DecidableEq, Repr

namespace PullRequest

def rerunNote : String :=
  "If this PR was opened in error or needs to be updated please add " ++
  "the `bot-rerun` label to this PR. The bot will close this PR and schedule another one. " ++
  "If you do not have permissions to add this label, ask a maintainer to add it for you."

def footer : String :=
  "This PR was created by the feedstock migration bot, which tracks the " ++
  "dependency graph, migrates packages, and proposes updates across feedstocks."

-- A free text, the note on reruns and the footer, with a link to the run if known.
def bodyText (text : String) (runUrl : Option String) : String :=
  let link := match runUrl with
    | none => ""
    | some url =>
      " This PR was generated by " ++ url ++ " - please use this URL for debugging."
  text ++ "\n\n" ++ rerunNote ++ "\n\n<sub>" ++ footer ++ link ++ "</sub>"

def swapText (pair : Swap) : String :=
  "I noticed that this recipe depends on `" ++ pair.old ++ "` instead of \n`" ++
  pair.new ++ "`. " ++ pair.rationale ++ " \n" ++
  "This PR makes this change.\n" ++
  "Notes and instructions for merging this PR:\n" ++
  "1. Make sure that the recipe can indeed only depend on `" ++ pair.new ++ "`. \n" ++
  "2. Please merge the PR only after the tests have passed. \n" ++
  "3. Feel free to push to the bot's branch to update this PR if needed. \n"

def platformsText : Profile → String
  | .aarch64Ppc64le =>
    "This feedstock is being rebuilt as part of the aarch64/ppc64le migration.\n\n" ++
    "**Feel free to merge the PR if CI is all green, but please don't close it\n" ++
    "without reaching out the the ARM migrators first at @conda-forge/arm-arch.**\n"
  | .osxArm64 =>
    "This feedstock is being rebuilt as part of the ARM OSX migration.\n\n" ++
    "**Feel free to merge the PR if CI is all green, but please don't close it\n" ++
    "without reaching out the the ARM OSX team first at @conda-forge/help-osx-arm64.**\n"

def platformsTitle : Profile → String
  | .aarch64Ppc64le => "Arch Migrator"
  | .osxArm64 => "ARM OSX Migrator"

def platformsBranch : Profile → String
  | .aarch64Ppc64le => "bot-pr_arch"
  | .osxArm64 => "bot-pr_arm_osx"

-- The pull request of a job, with a link to the run that made it if known.
def ofJob (job : Job) (runUrl : Option String) : PullRequest :=
  let message := "migration: " ++ job.migratorName
  match job.kind with
  | .bookkeeping | .wave .. =>
    ⟨"PR from the feedstock migration bot", bodyText "" runUrl, message, "bot-pr"⟩
  | .swap pair =>
    ⟨"Suggestion: depend on " ++ pair.new ++ " instead of " ++ pair.old,
      bodyText (swapText pair) runUrl,
      "use " ++ pair.new ++ " instead of " ++ pair.old,
      pair.name ++ "-migration-" ++ toString job.settings.version.toNat⟩
  | .platforms profile .. =>
    ⟨platformsTitle profile, bodyText (platformsText profile) runUrl, message,
      platformsBranch profile⟩

-- The pull request's texts as a JSON record on several lines.
def prettyText (request : PullRequest) : String :=
  Json.prettyRecord [("title", request.title), ("body", request.body),
    ("commit_message", request.commitMessage), ("branch", request.branch)]

end PullRequest

def Label.ofJob (job : Job) : Label :=
  ⟨"bot-" ++ job.migratorName.map Char.toLower, job.description, "#6c64ff"⟩

end Rollout
