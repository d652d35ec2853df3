import Rollout.Proofs.Feedstock
import Rollout.Proofs.Json.Document

namespace Rollout

namespace Json

theorem nat?_ofNat {n bound : Nat} (h : n < bound) : (ofNat n).nat? bound = some n := by
  simp [ofNat, nat?, h]

theorem uint32?_ofNat (value : UInt32) : (ofNat value.toNat).uint32? = some value := by
  rw [uint32?, nat?_ofNat value.toNat_lt, Option.map_some, UInt32.ofNat_toNat]

theorem isWhole_toNat (value : UInt32) : IsWhole value.toNat := by
  have hlt : value.toNat < 4294967296 := value.toNat_lt
  have hmax : maxWhole = 18446744073709551615 := rfl
  constructor <;> omega

end Json

namespace Stamp

-- The three stamps are told apart by whether there is a member and whether it is null.
theorem orElse?_toJson? (stamp : Stamp) :
    Json.orElse? .absent ofJson? stamp.toJson? = some stamp := by
  cases stamp <;> rfl

theorem readable_of_toJson? {stamp : Stamp} {value : Json} (h : stamp.toJson? = some value)
    (depth : Nat) : Json.Readable depth value := by
  cases stamp with
  | absent => nomatch h
  | null =>
      cases h
      exact .null depth
  | named name =>
      cases h
      exact .string depth name

end Stamp

namespace Identity

theorem orElse?_objectVersion (version : Option UInt32) :
    Json.orElse? none (Json.nullable? Json.uint32?) (version.map fun v => .ofNat v.toNat) =
      some version := by
  cases version with
  | none => rfl
  | some version =>
      change (Json.uint32? (.ofNat version.toNat)).map some = some (some version)
      rw [Json.uint32?_ofNat, Option.map_some]

theorem orElse?_branch (branch : Option String) :
    Json.orElse? none (Json.nullable? Json.string?) (branch.map .string) = some branch := by
  cases branch <;> rfl

-- Each member is found once, whichever of the three that may be left out are there.
theorem record?_toJson (identity : Identity) :
    identity.toJson.record? fields = some [some (.string identity.migratorName),
      some (.ofNat identity.migratorVersion.toNat), some (.bool identity.rerun),
      identity.objectVersion.map fun v => .ofNat v.toNat, identity.branch.map .string,
      identity.stamp.toJson?] := by
  unfold toJson members
  cases identity.objectVersion.map fun v => Json.ofNat v.toNat <;>
    cases identity.branch.map Json.string <;> cases identity.stamp.toJson? <;> rfl

theorem ofJson?_toJson (identity : Identity) : ofJson? identity.toJson = some identity := by
  simp only [ofJson?, record?_toJson, Option.bind_eq_bind, Option.bind_some, Json.uint32?_ofNat,
    orElse?_objectVersion, orElse?_branch, Stamp.orElse?_toJson?]
  rfl

theorem toJson_inj {identity other : Identity} :
    identity.toJson = other.toJson ↔ identity = other := by
  constructor
  · intro h
    have hread := congrArg ofJson? h
    rw [ofJson?_toJson, ofJson?_toJson] at hread
    exact Option.some.inj hread
  · exact congrArg toJson

theorem mem_optional {key : String} {value : Option Json} {member : String × Json} :
    member ∈ optional key value ↔ member.1 = key ∧ value = some member.2 := by
  cases value with
  | none => simp [optional]
  | some value => simp [optional, Prod.ext_iff, eq_comm]

-- An identity is written flat, and its only numbers are versions.
theorem readable_toJson (identity : Identity) (depth : Nat) :
    Json.Readable (depth + 1) identity.toJson := by
  refine .object depth fun member hmember => ?_
  simp only [members, List.mem_append, List.mem_singleton, mem_optional, Option.map_eq_some_iff]
    at hmember
  obtain ((((rfl | ⟨-, branch, -, hbranch⟩) | rfl) | ⟨-, version, -, hversion⟩) | rfl) |
    ⟨-, hstamp⟩ := hmember
  · exact .bool depth identity.rerun
  · exact hbranch ▸ .string depth branch
  · exact .string depth identity.migratorName
  · exact hversion ▸ .whole depth (Json.isWhole_toNat version)
  · exact .whole depth (Json.isWhole_toNat identity.migratorVersion)
  · exact Stamp.readable_of_toJson? hstamp depth

theorem ofText?_canonicalText (identity : Identity) :
    Json.ofText? identity.canonicalText = some identity.toJson :=
  Json.ofText?_compact (identity.readable_toJson (Json.maxDepth - 1))

theorem canonicalText_inj {identity other : Identity} :
    identity.canonicalText = other.canonicalText ↔ identity = other := by
  constructor
  · intro h
    have hread := congrArg Json.ofText? h
    rw [ofText?_canonicalText, ofText?_canonicalText] at hread
    exact toJson_inj.mp (Option.some.inj hread)
  · exact congrArg canonicalText

-- All the keys an identity may have, in ascending order.
def allKeys : List String :=
  ["bot_rerun", "branch", "migrator_name", "migrator_object_version", "migrator_version", "name"]

theorem optional_keys_sublist (key : String) (value : Option Json) :
    ((optional key value).map Prod.fst).Sublist [key] := by
  cases value with
  | none => exact List.nil_sublist [key]
  | some value => exact List.Sublist.refl [key]

theorem keys_sublist (identity : Identity) : identity.keys.Sublist allKeys := by
  simp only [keys, members, List.map_append]
  have hbranch := optional_keys_sublist "branch" (identity.branch.map .string)
  have hversion := optional_keys_sublist "migrator_object_version"
    (identity.objectVersion.map fun v => .ofNat v.toNat)
  have hstamp := optional_keys_sublist "name" identity.stamp.toJson?
  exact ((((List.Sublist.refl _).append hbranch).append (.refl _)).append hversion).append
    (.refl _) |>.append hstamp

theorem keys_ascending (identity : Identity) : identity.keys.Pairwise (· < ·) :=
  List.Pairwise.sublist identity.keys_sublist (by decide)

theorem matchesIdentity_ofIdentity_iff {identity other : Identity} (hosting : Option Hosting) :
    (Attempt.ofIdentity identity hosting).matchesIdentity other = true ↔ identity = other := by
  rw [Attempt.matchesIdentity_iff, Attempt.ofIdentity, toJson_inj]

-- Nothing of an identity is lost when it is written, as a text or into a record, and a record
-- that matches an identity can be read as that one only.
theorem encoding_lossless (identity : Identity) (hosting : Option Hosting) :
    (Json.ofText? identity.canonicalText).bind ofJson? = some identity ∧
      ofJson? identity.toJson = some identity ∧
      (∀ other : Identity, other.canonicalText = identity.canonicalText ↔ other = identity) ∧
      (Attempt.ofIdentity identity hosting).keys.Pairwise (· < ·) ∧
      (∃ members, (Attempt.ofIdentity identity hosting).data = .object members ∧
        (Attempt.ofIdentity identity hosting).keys = members.map Prod.fst) ∧
      ∀ attempt : Attempt, attempt.matchesIdentity identity = true →
        ofJson? attempt.data = some identity ∧
          ∀ other : Identity, attempt.matchesIdentity other = true → other = identity := by
  have htext : (Json.ofText? identity.canonicalText).bind ofJson? = some identity := by
    rw [ofText?_canonicalText, Option.bind_some, ofJson?_toJson]
  refine ⟨htext, identity.ofJson?_toJson, fun other => canonicalText_inj, identity.keys_ascending,
    ⟨identity.members, rfl, rfl⟩, fun attempt hmatch => ?_⟩
  have hdata := (attempt.matchesIdentity_iff identity).mp hmatch
  have hread : ofJson? attempt.data = some identity := by rw [hdata, ofJson?_toJson]
  refine ⟨hread, fun other hother => ?_⟩
  have hsame := (attempt.matchesIdentity_iff other).mp hother
  exact toJson_inj.mp (hsame.symm.trans hdata)

-- An identity with all its members, under a name that cannot be written as it is.
def quotedName : Identity :=
  ⟨"GraphMigrator", 1, true, some 3, some "v1.x", .named "lib\"foo\"\n2"⟩

theorem encoding_lossless_quotedName :
    (Attempt.mk quotedName.toJson [] none).matchesIdentity quotedName = true ∧
      ofJson? (Attempt.mk quotedName.toJson [] none).data = some quotedName := by
  have hmatch : (Attempt.mk quotedName.toJson [] none).matchesIdentity quotedName = true := by
    decide
  exact ⟨hmatch, ((encoding_lossless quotedName none).2.2.2.2.2 _ hmatch).1⟩

end Identity

end Rollout
