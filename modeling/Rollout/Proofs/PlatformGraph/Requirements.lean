import Rollout.PlatformGraph
import Rollout.Proofs.Graph.Cut

namespace Rollout

-- The requirements that a feedstock goes by: those on the first of these platforms for which it
-- has usable ones, and its general ones if there are none.
inductive Feedstock.GoesBy (feedstock : Feedstock) : List String → Requirements → Prop where
  | general : feedstock.GoesBy [] feedstock.requirements
  | here {platform : String} {rest : List String} {requirements : Requirements}
      (h : feedstock.platformRequirements? platform = some requirements) :
      feedstock.GoesBy (platform :: rest) requirements
  | later {platform : String} {rest : List String} {requirements : Requirements}
      (h : feedstock.platformRequirements? platform = none)
      (hrest : feedstock.GoesBy rest requirements) : feedstock.GoesBy (platform :: rest) requirements

theorem Feedstock.goesBy_iff (feedstock : Feedstock) (platforms : List String)
    (requirements : Requirements) :
    feedstock.GoesBy platforms requirements ↔
      requirements =
        (platforms.findSome? feedstock.platformRequirements?).getD feedstock.requirements := by
  induction platforms with
  | nil =>
      constructor
      · rintro ⟨⟩
        rfl
      · rintro rfl
        exact .general
  | cons platform rest ih =>
      rw [List.findSome?_cons]
      cases hp : feedstock.platformRequirements? platform with
      | none =>
          rw [← ih]
          constructor
          · intro h
            cases h with
            | here h => cases hp.symm.trans h
            | later _ hrest => exact hrest
          · exact .later hp
      | some found =>
          constructor
          · intro h
            cases h with
            | here h => exact Option.some.inj (h.symm.trans hp)
            | later h _ => cases hp.symm.trans h
          · rintro rfl
            exact .here hp

-- The packages that a feedstock needs on the platforms of a profile. What is built on another
-- platform needs nothing there to be built with but the stubs of compilers.
inductive Profile.Needs (feedstock : Feedstock) (package : String) : Profile → Prop where
  | native {platform : String} {requirements : Requirements}
      (hplatform : platform = "linux_aarch64" ∨ platform = "linux_ppc64le")
      (hgoes : feedstock.GoesBy [platform] requirements)
      (h : package ∈ requirements.build ∨ package ∈ requirements.host ∨ package ∈ requirements.run ∨
        package ∈ requirements.test) : Needs feedstock package .aarch64Ppc64le
  | cross {requirements : Requirements}
      (hgoes : feedstock.GoesBy ["osx_arm64", "osx_64"] requirements)
      (h : package ∈ requirements.host ∨ package ∈ requirements.run ∨
        package ∈ requirements.build ∧ "_stub".toList <:+ package.toList) :
      Needs feedstock package .osxArm64

theorem Profile.mem_edgeRequirements_iff (profile : Profile) (feedstock : Feedstock)
    (package : String) :
    (∃ platform ∈ profile.platforms, package ∈ profile.edgeRequirements feedstock platform) ↔
      profile.Needs feedstock package := by
  cases profile with
  | aarch64Ppc64le =>
      have hgoes : ∀ platform, feedstock.GoesBy [platform]
          ((feedstock.platformRequirements? platform).getD feedstock.requirements) := by
        intro platform
        rw [Feedstock.goesBy_iff, List.findSome?_singleton]
      constructor
      · rintro ⟨platform, hplatform, hm⟩
        refine .native (by simpa [platforms] using hplatform) (hgoes platform) ?_
        simpa [edgeRequirements, Requirements.all, or_assoc] using hm
      · rintro (@⟨platform, requirements, hplatform, h, hm⟩)
        obtain rfl := (feedstock.goesBy_iff _ _).mp h
        refine ⟨platform, by simpa [platforms] using hplatform, ?_⟩
        rw [List.findSome?_singleton] at hm
        simpa [edgeRequirements, Requirements.all, or_assoc] using hm
  | osxArm64 =>
      have hgoes : feedstock.GoesBy ["osx_arm64", "osx_64"]
          (((feedstock.platformRequirements? "osx_arm64").or
            (feedstock.platformRequirements? "osx_64")).getD feedstock.requirements) := by
        rw [Feedstock.goesBy_iff, List.findSome?_cons, List.findSome?_singleton]
        cases feedstock.platformRequirements? "osx_arm64" <;> rfl
      have hmem : ∀ requirements : Requirements,
          package ∈ requirements.hostAndRun ∪ NameSet.ofList (requirements.build.toList.filter fun name =>
            "_stub".toList.isSuffixOf name.toList) ↔
          package ∈ requirements.host ∨ package ∈ requirements.run ∨
            package ∈ requirements.build ∧ "_stub".toList <:+ package.toList := by
        intro requirements
        simp only [Requirements.hostAndRun, Std.ExtTreeSet.mem_union_iff, NameSet.mem_ofList,
          List.mem_filter, Std.ExtTreeSet.mem_toList, List.isSuffixOf_iff_suffix, or_assoc]
      simp only [platforms, List.mem_singleton, exists_eq_left, edgeRequirements, hmem]
      constructor
      · exact .cross hgoes
      · rintro (_ | ⟨h, hm⟩)
        obtain rfl := (feedstock.goesBy_iff _ _).mp h
        rwa [← (feedstock.goesBy_iff _ _).mp hgoes] at hm

namespace OutputTable

-- The feedstocks behind a package: its producers, or the one of its own name if the table does
-- not know the package.
def Provides (table : OutputTable) (package source : String) : Prop :=
  (∃ producers, table[package]? = some producers ∧ source ∈ producers) ∨
    table[package]? = none ∧ source = package

theorem mem_resolve_iff (table : OutputTable) (required : NameSet) (source : String) :
    source ∈ table.resolve required ↔ ∃ package ∈ required, table.Provides package source := by
  unfold resolve Provides
  rw [NameSet.mem_ofList, List.mem_flatMap]
  refine exists_congr fun package => ?_
  rw [Std.ExtTreeSet.mem_toList]
  refine and_congr_right fun _ => ?_
  cases table[package]? with
  | none => simp
  | some producers => simp

end OutputTable

namespace Graph

-- `target` needs a package on a platform of the profile that `source` stands behind.
def Requires (total : Graph) (profile : Profile) (source target : String) : Prop :=
  ∃ feedstock package, total.payload? target = some feedstock ∧ profile.Needs feedstock package ∧
    total.outputs.Provides package source

theorem edge_derive (total : Graph) (profile : Profile) (a b : String) :
    (total.derive profile).Edge a b ↔ total.Requires profile a b := by
  unfold derive
  rw [edge_foldl_iff _ fun name a b => b = name ∧ ∃ feedstock, total.payload? name = some feedstock ∧
    ∃ platform ∈ profile.platforms,
      a ∈ total.outputs.resolve (profile.edgeRequirements feedstock platform)]
  · have hneeds : ∀ feedstock, (∃ platform ∈ profile.platforms,
        a ∈ total.outputs.resolve (profile.edgeRequirements feedstock platform)) ↔
        ∃ package, profile.Needs feedstock package ∧ total.outputs.Provides package a := by
      intro feedstock
      simp only [OutputTable.mem_resolve_iff, ← profile.mem_edgeRequirements_iff]
      constructor
      · rintro ⟨platform, hplatform, package, hm, hprovides⟩
        exact ⟨package, ⟨platform, hplatform, hm⟩, hprovides⟩
      · rintro ⟨package, ⟨platform, hplatform, hm⟩, hprovides⟩
        exact ⟨platform, hplatform, package, hm, hprovides⟩
    simp only [hneeds, not_edge_withoutEdges, false_or]
    constructor
    · rintro ⟨name, -, rfl, feedstock, hp, package, hpackage⟩
      exact ⟨feedstock, package, hp, hpackage⟩
    · rintro ⟨feedstock, package, hp, hpackage⟩
      exact ⟨b, mem_names_of_payload? hp, rfl, feedstock, hp, package, hpackage⟩
  · intro derived name a b
    cases total.payload? name with
    | none => simp
    | some feedstock =>
        rw [edge_foldl_iff _ fun platform a b => b = name ∧
          a ∈ total.outputs.resolve (profile.edgeRequirements feedstock platform)]
        · simp [and_left_comm]
        · intro derived platform a b
          rw [edge_foldl_iff _ _ (fun derived required => derived.edge_connect required name)]
          simp [and_comm]

theorem payload?_derive (total : Graph) (profile : Profile) (n : String) :
    (total.derive profile).payload? n = total.payload? n := by
  rw [derive, payload?_foldl, payload?_withoutEdges]
  intro derived name
  cases total.payload? name with
  | none => rfl
  | some feedstock =>
      apply payload?_foldl
      intro derived platform
      exact payload?_foldl _ n (fun derived required => derived.payload?_connect required name n) _ _

end Graph

end Rollout
