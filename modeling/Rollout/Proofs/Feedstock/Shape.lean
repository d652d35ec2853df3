import Rollout.Feedstock.Document
import Rollout.Proofs.Json.Shape

namespace Rollout

theorem Requirements.suffices_ofJson? : shape.Suffices ofJson? :=
  Json.Shape.suffices_record (by decide) (fun _ => rfl) fun given hlength =>
    match given, hlength with
    | [build, host, run, test], _ => by simp [Json.Shape.seenFields, fields]

theorem Hosting.suffices_ofJson? : shape.Suffices ofJson? :=
  Json.Shape.suffices_record (by decide) (fun _ => rfl) fun given hlength =>
    match given, hlength with
    | [state, createdAt, url], _ => by simp [Json.Shape.seenFields, fields]

theorem Attempt.suffices_ofJson? : shape.Suffices ofJson? :=
  Json.Shape.suffices_record (by decide) (fun _ => rfl) fun given hlength =>
    match given, hlength with
    | [none, keys, hosting], _ => rfl
    | [some data, keys, hosting], _ => by
      have hhosting := Hosting.suffices_ofJson?.nullable?.orElse? none hosting
      simp [Json.Shape.seenFields, fields, hhosting]

namespace Feedstock

theorem suffices_history? : historyShape.Suffices history? :=
  Json.Shape.suffices_record (by decide) (fun _ => rfl) fun given hlength =>
    match given, hlength with
    | [standing, attempts], _ => by
      have hattempts := Attempt.suffices_ofJson?.list?.orElse? [] attempts
      simp [Json.Shape.seenFields, historyFields, hattempts]

theorem extraMembers_seen (members : List (String × Json)) :
    extraMembers (shape.seenMembers members) = extraMembers members := by
  have hother : ∀ key, (!knownKeys.contains key) = true → shape.member key = some .full := by
    intro key hkey
    refine Json.Shape.member_others fun field hfield hmem => ?_
    obtain ⟨known, hknown, rfl⟩ := List.mem_map.mp hfield
    simp_all
  rw [extraMembers, Json.Shape.filter_seenMembers hother, extraMembers]
  simp

theorem suffices_ofJson? : shape.Suffices ofJson? := by
  intro value
  cases value with
  | object members =>
      have hrecord : (shape.seen (.object members)).record? (knownKeys.map fun key => [key]) =
          ((Json.object members).record? (knownKeys.map fun key => [key])).map
            (Json.Shape.seenFields (knownKeys.map fun key => ([key], shapeOf key))) :=
        Json.Shape.record?_seen (by decide) (.object members)
      rw [Json.Shape.seen] at hrecord ⊢
      rw [ofJson?, hrecord, ofJson?, extraMembers_seen]
      cases hgiven : (Json.object members).record? (knownKeys.map fun key => [key]) with
      | none => rfl
      | some given =>
          match given, Json.length_of_record? hgiven with
          | [name, feedstockName, branch, archived, parsingError, requirements, history, config, outputs,
              rendered], _ =>
            have hrequirements := Requirements.suffices_ofJson?.orElse? .empty requirements
            have hhistory := suffices_history?.orElse? (.good, []) history
            simp [Json.Shape.seenFields, knownKeys, shapeOf, hrequirements, hhistory]
  | _ => rfl

end Feedstock

end Rollout
