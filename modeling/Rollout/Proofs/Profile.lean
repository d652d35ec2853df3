import Rollout.Profile
import Rollout.Proofs.Yaml.Entries

namespace Rollout

open YamlEntries

namespace Profile

theorem addMissing_eq (entries : List (Yaml × Yaml)) (key : String) (value : Yaml) :
    addMissing entries key value =
      entries ++ if contains entries key then [] else [(.string key, value)] := by
  rw [addMissing]
  split
  · exact (List.append_nil entries).symm
  · rename_i hkey
    exact set_of_not_contains (Bool.not_eq_true _ ▸ hkey) value

theorem contains_addMissing_of_ne {key other : String} (h : key ≠ other)
    (entries : List (Yaml × Yaml)) (value : Yaml) :
    contains (addMissing entries key value) other = contains entries other := by
  rw [addMissing_eq, contains_append]
  split
  · exact Bool.or_false _
  · rw [contains_singleton, beq_eq_false_iff_ne.mpr h, Bool.or_false]

theorem foldl_addMissing {keys : List String} (hkeys : keys.Nodup) (entries : List (Yaml × Yaml))
    (value : Yaml) :
    keys.foldl (fun entries key => addMissing entries key value) entries =
      entries ++ (keys.filter fun key => !contains entries key).map fun key => (.string key, value) := by
  induction keys generalizing entries with
  | nil => exact (List.append_nil entries).symm
  | cons key rest ih =>
      obtain ⟨hnew, hrest⟩ := List.nodup_cons.mp hkeys
      have hmissing : rest.filter (fun other => !contains (addMissing entries key value) other) =
          rest.filter fun other => !contains entries other := by
        refine List.filter_congr fun other hother => ?_
        have hne : key ≠ other := fun hsame => hnew (hsame.symm ▸ hother)
        rw [contains_addMissing_of_ne hne]
      rw [List.foldl_cons, ih hrest, hmissing, addMissing_eq]
      cases hkey : contains entries key <;> simp [hkey]

theorem get?_addMissing (entries : List (Yaml × Yaml)) (key : String) (value : Yaml) :
    get? (addMissing entries key value) key = some ((get? entries key).getD value) := by
  rw [addMissing, contains_eq_isSome]
  cases hfound : get? entries key with
  | none => exact get?_set entries key value
  | some found => exact hfound

theorem set_addMissing (entries : List (Yaml × Yaml)) (key : String) (value later : Yaml) :
    set (addMissing entries key value) key later = set entries key later := by
  rw [addMissing]
  split
  · rfl
  · exact set_set entries key value later

theorem filled_aarch64Ppc64le (entries : List (Yaml × Yaml)) :
    filled .aarch64Ppc64le entries =
      entries ++ ((platforms .aarch64Ppc64le).filter fun platform => !contains entries platform).map
        fun platform => (.string platform, .string "default") :=
  foldl_addMissing (by decide) entries (.string "default")

theorem filled_filled (profile : Profile) (entries : List (Yaml × Yaml)) :
    profile.filled (profile.filled entries) = profile.filled entries := by
  cases profile with
  | osxArm64 => exact set_eq_self (get?_set _ _ _)
  | aarch64Ppc64le =>
      have hfull : ∀ platform ∈ platforms .aarch64Ppc64le,
          contains (filled .aarch64Ppc64le entries) platform = true := by
        intro platform hm
        rw [filled_aarch64Ppc64le, contains_append, Bool.or_eq_true]
        cases hhere : contains entries platform with
        | true => exact .inl rfl
        | false =>
            refine .inr (contains_eq_true_iff.mpr ?_)
            rw [List.map_map]
            exact List.mem_map.mpr ⟨platform, List.mem_filter.mpr ⟨hm, by rw [hhere]; rfl⟩, rfl⟩
      have hnone : (platforms .aarch64Ppc64le).filter
          (fun platform => !contains (filled .aarch64Ppc64le entries) platform) = [] :=
        List.filter_eq_nil_iff.mpr fun platform hm => by simp [hfull platform hm]
      rw [filled_aarch64Ppc64le (filled .aarch64Ppc64le entries), hnone, List.map_nil,
        List.append_nil]

theorem get?_placed (profile : Profile) (config entries : List (Yaml × Yaml)) :
    get? (profile.placed config entries) profile.sectionKey = some (.mapping entries) := by
  cases profile with
  | aarch64Ppc64le => exact get?_set _ _ _
  | osxArm64 =>
      calc
        get? (placed .osxArm64 config entries) "build_platform" =
            get? (set config "build_platform" (.mapping entries)) "build_platform" :=
          get?_set_of_ne (by decide) _ _
        _ = some (.mapping entries) := get?_set _ _ _

theorem placed_placed (profile : Profile) (config entries : List (Yaml × Yaml)) :
    profile.placed (profile.placed config entries) entries = profile.placed config entries := by
  have hsection := profile.get?_placed config entries
  cases profile with
  | aarch64Ppc64le => exact set_eq_self hsection
  | osxArm64 =>
      calc
        placed .osxArm64 (placed .osxArm64 config entries) entries =
            set (placed .osxArm64 config entries) "test" (.string "native_and_emulated") :=
          congrArg (fun config => set config "test" _) (set_eq_self hsection)
        _ = placed .osxArm64 config entries := set_eq_self (get?_set _ _ _)

-- The keys of a configuration under which platforms are enabled.
def editedKeys : Profile → List String
  | .aarch64Ppc64le => ["provider"]
  | .osxArm64 => ["build_platform", "test"]

theorem keeps_placed (profile : Profile) (config entries : List (Yaml × Yaml)) :
    Keeps profile.editedKeys config (profile.placed config entries) := by
  cases profile with
  | aarch64Ppc64le => exact keeps_set ..
  | osxArm64 => exact (keeps_set ..).trans (keeps_set ..) (by decide)

-- What becomes of the entries of a section. A native platform has its own value if it is there and
-- the default one behind all others if it is not, and the cross-compiled one is set.
def Fills : Profile → List (Yaml × Yaml) → List (Yaml × Yaml) → Prop
  | .aarch64Ppc64le, before, after => after = before ++
      (["linux_aarch64", "linux_ppc64le"].filter fun platform => !contains before platform).map
        fun platform => (.string platform, .string "default")
  | .osxArm64, before, after =>
    Keeps ["osx_arm64"] before after ∧ get? after "osx_arm64" = some (.string "osx_64")

theorem fills_filled (profile : Profile) (entries : List (Yaml × Yaml)) :
    profile.Fills entries (profile.filled entries) := by
  cases profile with
  | aarch64Ppc64le => exact filled_aarch64Ppc64le entries
  | osxArm64 => exact ⟨keeps_set .., get?_set ..⟩

-- What becomes of a configuration. A section that is missing counts as empty.
structure Enables (profile : Profile) (before after : List (Yaml × Yaml)) : Prop where
  keeps : Keeps profile.editedKeys before after
  fills : ∃ entries filled, (get? before profile.sectionKey).getD (.mapping []) = .mapping entries ∧
    get? after profile.sectionKey = some (.mapping filled) ∧ profile.Fills entries filled
  test : profile = .osxArm64 → get? after "test" = some (.string "native_and_emulated")

variable {profile : Profile} {config entries : List (Yaml × Yaml)}

theorem mapping_or_not (config : List (Yaml × Yaml)) (key : String) :
    (∃ entries, (get? config key).getD (.mapping []) = .mapping entries) ∨
      ∃ value, get? config key = some value ∧ ∀ entries, value ≠ .mapping entries := by
  cases get? config key with
  | none => exact .inl ⟨[], rfl⟩
  | some value => cases value <;> simp

-- A missing section is made and then filled. So it is the same as if it had been empty.
theorem enable_of_mapping (h : (get? config profile.sectionKey).getD (.mapping []) = .mapping entries) :
    profile.enable config = ⟨profile.placed config (profile.filled entries), .ok ()⟩ := by
  have hplaced : profile.placed (addMissing config profile.sectionKey (.mapping []))
      (profile.filled entries) = profile.placed config (profile.filled entries) := by
    simp only [placed, set_addMissing]
  simp only [enable, openSection, get?_addMissing, h, hplaced]

-- What is no mapping is there, so that no section has been made when the edit fails.
theorem enable_of_not_mapping {value : Yaml} (h : get? config profile.sectionKey = some value)
    (hvalue : ∀ entries, value ≠ .mapping entries) :
    ∃ fault, profile.enable config = ⟨config, .error fault⟩ := by
  have hthere : addMissing config profile.sectionKey (.mapping []) = config := by
    rw [addMissing, contains_eq_isSome, h, Option.isSome_some, if_pos rfl]
  simp only [enable, openSection, hthere, h]
  cases value with
  | mapping entries => exact absurd rfl (hvalue entries)
  | _ => exact ⟨_, rfl⟩

theorem enables_of_mapping (h : (get? config profile.sectionKey).getD (.mapping []) = .mapping entries) :
    profile.Enables config (profile.placed config (profile.filled entries)) where
  keeps := profile.keeps_placed ..
  fills := ⟨entries, _, h, profile.get?_placed .., profile.fills_filled entries⟩
  test := by
    rintro rfl
    exact get?_set ..

theorem enable_again (profile : Profile) (config entries : List (Yaml × Yaml)) :
    profile.enable (profile.placed config (profile.filled entries)) =
      ⟨profile.placed config (profile.filled entries), .ok ()⟩ := by
  have hsection : (get? (profile.placed config (profile.filled entries)) profile.sectionKey).getD
      (.mapping []) = .mapping (profile.filled entries) := by
    rw [get?_placed, Option.getD_some]
  rw [enable_of_mapping hsection, filled_filled, placed_placed]

-- Enabling platforms fails just if their section is something else than a mapping, and leaves the
-- configuration as it was then. Otherwise it sets what it has to, keeps all other settings in their
-- places, and finds nothing left to do when it is done again.
theorem enable_minimal (profile : Profile) (config : List (Yaml × Yaml)) :
    ((∃ fault, (profile.enable config).result = .error fault) ↔
      ∃ value, get? config profile.sectionKey = some value ∧ ∀ entries, value ≠ .mapping entries) ∧
    (∀ fault, (profile.enable config).result = .error fault → (profile.enable config).config = config) ∧
    ((profile.enable config).result = .ok () →
      profile.Enables config (profile.enable config).config ∧
      profile.enable (profile.enable config).config = ⟨(profile.enable config).config, .ok ()⟩) := by
  rcases mapping_or_not config profile.sectionKey with ⟨entries, h⟩ | ⟨value, h, hvalue⟩
  · have hmapping : ∀ value, get? config profile.sectionKey = some value → value = .mapping entries := by
      intro value hvalue
      rwa [hvalue, Option.getD_some] at h
    rw [enable_of_mapping h]
    refine ⟨⟨nofun, ?_⟩, nofun, fun _ => ⟨enables_of_mapping h, profile.enable_again config entries⟩⟩
    rintro ⟨value, hfound, hvalue⟩
    exact absurd (hmapping value hfound) (hvalue entries)
  · obtain ⟨fault, hfault⟩ := enable_of_not_mapping h hvalue
    rw [hfault]
    exact ⟨⟨fun _ => ⟨value, h, hvalue⟩, fun _ => ⟨fault, rfl⟩⟩, fun _ _ => rfl, nofun⟩

-- A configuration with a platform in its section, the tests before it, and a key that is no text.
def crossConfig : List (Yaml × Yaml) :=
  [(.string "test", .string "native"), (.bool true, .null),
    (.string "build_platform", .mapping [(.string "linux_aarch64", .string "linux_64")])]

theorem enable_minimal_cross :
    (Profile.osxArm64.enable crossConfig).result = .ok () ∧
      Profile.osxArm64.Enables crossConfig (Profile.osxArm64.enable crossConfig).config ∧
      (Profile.osxArm64.enable crossConfig).config =
        [(.string "test", .string "native_and_emulated"), (.bool true, .null),
          (.string "build_platform", .mapping [(.string "linux_aarch64", .string "linux_64"),
            (.string "osx_arm64", .string "osx_64")])] ∧
      (Profile.aarch64Ppc64le.enable [(.string "provider", .string "azure")]).config =
        [(.string "provider", .string "azure")] := by
  have henabled : (Profile.osxArm64.enable crossConfig).result = .ok () := rfl
  obtain ⟨henables, -⟩ := (enable_minimal .osxArm64 crossConfig).2.2 henabled
  exact ⟨henabled, henables, rfl, (enable_minimal .aarch64Ppc64le _).2.1 _ rfl⟩

end Profile

end Rollout
