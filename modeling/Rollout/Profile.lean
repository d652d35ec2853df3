import Rollout.Feedstock
import Rollout.Fault
import Rollout.Yaml

namespace Rollout

-- The sets of build platforms that can be enabled together.
inductive Profile where
  | aarch64Ppc64le
  | osxArm64
deriving DecidableEq, Repr

namespace Profile

def all : List Profile := [.aarch64Ppc64le, .osxArm64]

def name : Profile → String
  | .aarch64Ppc64le => "aarch64-ppc64le"
  | .osxArm64 => "osx-arm64"

def ofName? (name : String) : Option Profile := all.find? fun profile => profile.name == name

-- The name of the job in identities.
def migratorName : Profile → String
  | .aarch64Ppc64le => "ArchRebuild"
  | .osxArm64 => "OSXArm"

def platforms : Profile → List String
  | .aarch64Ppc64le => ["linux_aarch64", "linux_ppc64le"]
  | .osxArm64 => ["osx_arm64"]

-- The packages that are never rebuilt.
def ignoredPackages : Profile → NameSet
  | .aarch64Ppc64le => NameSet.ofList ["make", "perl", "toolchain", "posix", "patchelf"]
  | .osxArm64 => ∅

-- The required names that become edges on a platform. Cross compilation needs host
-- and run requirements, and compiler stubs so that exclusions reach through them.
def edgeRequirements (profile : Profile) (feedstock : Feedstock) (platform : String) : NameSet :=
  match profile with
  | .aarch64Ppc64le =>
    ((feedstock.platformRequirements? platform).getD feedstock.requirements).all
  | .osxArm64 =>
    let requirements := ((feedstock.platformRequirements? platform).or
      (feedstock.platformRequirements? "osx_64")).getD feedstock.requirements
    requirements.hostAndRun ∪
      NameSet.ofList (requirements.build.toList.filter fun name =>
        "_stub".toList.isSuffixOf name.toList)

-- The section of the feedstock's configuration that lists platforms.
def sectionKey : Profile → String
  | .aarch64Ppc64le => "provider"
  | .osxArm64 => "build_platform"

-- What an edit of a mapping leaves behind, and its result. An edit that fails may have changed
-- the mapping before.
structure Edited (α : Type) where
  config : List (Yaml × Yaml)
  result : Except Fault α

-- An entry added unless its key is there.
def addMissing (entries : List (Yaml × Yaml)) (key : String) (value : Yaml) : List (Yaml × Yaml) :=
  if YamlEntries.contains entries key then entries else YamlEntries.set entries key value

-- The entries of a section. A missing section is added before it is looked at.
def openSection (key : String) (config : List (Yaml × Yaml)) : Edited (List (Yaml × Yaml)) :=
  let config := addMissing config key (.mapping [])
  ⟨config, match YamlEntries.get? config key with
    | some (.mapping entries) => .ok entries
    | none | some .null => .error (.sectionNull key)
    | some _ => .error (.sectionNotMapping key)⟩

-- The entries of a section with the platforms among them. Settings of the native
-- platforms are kept, those of the cross-compiled one are replaced.
def filled : Profile → List (Yaml × Yaml) → List (Yaml × Yaml)
  | .aarch64Ppc64le, entries =>
    platforms .aarch64Ppc64le |>.foldl
      (fun entries platform => addMissing entries platform (.string "default")) entries
  | .osxArm64, entries => YamlEntries.set entries "osx_arm64" (.string "osx_64")

-- A configuration with these entries in its section, and with the tests of cross-compiled builds.
def placed (profile : Profile) (config entries : List (Yaml × Yaml)) : List (Yaml × Yaml) :=
  let config := YamlEntries.set config profile.sectionKey (.mapping entries)
  match profile with
  | .aarch64Ppc64le => config
  | .osxArm64 => YamlEntries.set config "test" (.string "native_and_emulated")

-- A feedstock's configuration edited so that the platforms are enabled.
def enable (profile : Profile) (config : List (Yaml × Yaml)) : Edited Unit :=
  let opened := openSection profile.sectionKey config
  match opened.result with
  | .error fault => ⟨opened.config, .error fault⟩
  | .ok entries => ⟨profile.placed opened.config (profile.filled entries), .ok ()⟩

end Profile

end Rollout
