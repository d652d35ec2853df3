import Mathlib.Tactic.TFAE
import Rollout.Feedstock.Document
import Rollout.Proofs.Feedstock.Record
import Rollout.Proofs.Identity

namespace Rollout

namespace Json

theorem lookup_filter (chosen : String → Bool) (members : List (String × Json)) (name : String) :
    (members.filter fun member => chosen member.1).lookup name =
      if chosen name then members.lookup name else none := by
  induction members with
  | nil => simp
  | cons member rest ih =>
      obtain ⟨key, value⟩ := member
      by_cases hname : name = key
      · subst hname
        by_cases hkey : chosen name <;> simp [hkey, ih]
      · by_cases hkey : chosen key <;> simp [hkey, ih, lookup_cons_ite, hname]

theorem getElem?_insertMany_canonical (members : List (String × Json)) (map : NameMap Json)
    (name : String) :
    (map.insertMany (members.map fun member => (member.1, member.2.canonical)))[name]? =
      ((canonicalMembers members).lookup name).or map[name]? := by
  induction members generalizing map with
  | nil => simp [canonicalMembers]
  | cons member rest ih =>
      rw [List.map_cons, Std.ExtTreeMap.insertMany_cons, ih, canonicalMembers,
        lookup_insertMember _ _ (pairwise_canonicalMembers rest), Option.or_assoc,
        Std.ExtTreeMap.getElem?_insert]
      by_cases hname : name = member.1
      · simp [hname]
      · have hcompare : ¬ compare member.1 name = .eq := by
          simpa [Std.compare_eq_iff_eq] using Ne.symm hname
        simp [hname, hcompare]

-- Of the members under one key a table keeps the one that the canonical form keeps.
theorem getElem?_ofList_canonical (members : List (String × Json)) (name : String) :
    (Std.ExtTreeMap.ofList (members.map fun member => (member.1, member.2.canonical))
      compare)[name]? = (canonicalMembers members).lookup name := by
  rw [Std.ExtTreeMap.ofList_eq_insertMany_empty, getElem?_insertMany_canonical]
  simp

end Json

theorem NameMap.ofList_toList {α : Type} (map : NameMap α) :
    Std.ExtTreeMap.ofList map.toList compare = map := by
  refine Std.ExtTreeMap.ext_getElem? fun name => ?_
  cases hfound : map[name]? with
  | some value =>
      exact Std.ExtTreeMap.getElem?_ofList_of_mem Std.ReflCmp.compare_self
        Std.ExtTreeMap.distinct_keys_toList (Std.ExtTreeMap.mem_toList_iff_getElem?_eq_some.mpr hfound)
  | none =>
      refine Std.ExtTreeMap.getElem?_ofList_of_contains_eq_false ?_
      simpa using hfound

namespace Feedstock

theorem readsCanonical_history? : Json.ReadsCanonical history? := by
  intro value found h
  obtain ⟨given, hgiven, hfields⟩ := Option.bind_eq_some_iff.mp h
  have hcanonical := Json.record?_canonical hgiven
  split at hfields
  · rename_i standing attempts
    obtain ⟨records, hrecords, hfields⟩ := Option.bind_eq_some_iff.mp hfields
    cases Option.some.inj hfields
    have hlist := Attempt.readsCanonical_ofJson?.list?.orElse? hrecords
    cases standing <;> simp [history?, hcanonical, hlist]
  · cases hfields

theorem canonicalOrNull_canonical (field : Option Json) :
    canonicalOrNull (field.map Json.canonical) = canonicalOrNull field := by
  cases field <;> simp [canonicalOrNull]

theorem truthyOrFalse_canonical (field : Option Json) :
    truthyOrFalse (field.map Json.canonical) = truthyOrFalse field := by
  cases field <;> simp [truthyOrFalse]

theorem getElem?_extraMembers (members : List (String × Json)) (name : String) :
    (extraMembers members)[name]? =
      if knownKeys.contains name then none else (Json.canonicalMembers members).lookup name := by
  have hfilter := Json.filter_canonicalMembers (fun key => !knownKeys.contains key) members
  rw [extraMembers, Json.getElem?_ofList_canonical, ← hfilter,
    Json.lookup_filter fun key => !knownKeys.contains key]
  cases knownKeys.contains name <;> rfl

theorem extraMembers_canonical (members : List (String × Json)) :
    extraMembers (Json.canonicalMembers members) = extraMembers members := by
  refine Std.ExtTreeMap.ext_getElem? fun name => ?_
  have hsame : Json.canonicalMembers (Json.canonicalMembers members) = Json.canonicalMembers members :=
    Json.object.inj (Json.canonical_idem (.object members))
  rw [getElem?_extraMembers, getElem?_extraMembers, hsame]

theorem readsCanonical_ofJson? : Json.ReadsCanonical ofJson? := by
  intro value found h
  cases value with
  | object members =>
      obtain ⟨given, hgiven, hfields⟩ := Option.bind_eq_some_iff.mp h
      have hcanonical := Json.record?_canonical hgiven
      split at hfields
      · obtain ⟨past, hpast, hfields⟩ := Option.bind_eq_some_iff.mp hfields
        obtain ⟨name, hname, hfields⟩ := Option.bind_eq_some_iff.mp hfields
        obtain ⟨feedstockName, hfeedstockName, hfields⟩ := Option.bind_eq_some_iff.mp hfields
        obtain ⟨branch, hbranch, hfields⟩ := Option.bind_eq_some_iff.mp hfields
        obtain ⟨requirements, hrequirements, hfields⟩ := Option.bind_eq_some_iff.mp hfields
        obtain ⟨outputs, houtputs, hfields⟩ := Option.bind_eq_some_iff.mp hfields
        cases Option.some.inj hfields
        have htext := @Json.readsCanonical_string?.orElse?
        rw [Json.canonical] at hcanonical ⊢
        simp [ofJson?, hcanonical, readsCanonical_history?.orElse? hpast, htext hname,
          htext hfeedstockName, htext hbranch,
          Requirements.readsCanonical_ofJson?.orElse? hrequirements,
          Json.readsCanonical_nameSet?.orElse? houtputs, truthyOrFalse_canonical,
          canonicalOrNull_canonical, extraMembers_canonical]
      · cases hfields
  | _ => cases h

theorem history?_object {standing : Standing} {attempts : List Attempt}
    (hstanding : standing ≠ .reason "") (hattempts : ∀ attempt ∈ attempts, attempt.data.Canonical) :
    history? (.object [("bad", standing.toJson), ("PRed", .array (attempts.map Attempt.toJson))]) =
      some (standing, attempts) := by
  have hlist : Json.orElse? [] (Json.list? Attempt.ofJson?)
      (some (.array (attempts.map Attempt.toJson))) = some attempts :=
    Json.list?_map fun attempt hattempt => Attempt.ofJson?_toJson (hattempts attempt hattempt)
  have hrecord : (Json.object [("bad", standing.toJson),
      ("PRed", .array (attempts.map Attempt.toJson))]).record? historyFields =
        some [some standing.toJson, some (.array (attempts.map Attempt.toJson))] := rfl
  simp [history?, hrecord, hlist, Standing.ofJson_toJson hstanding]

theorem legible_of_history? {value : Json} {past : Standing × List Attempt}
    (h : history? value = some past) :
    past.1 ≠ .reason "" ∧ ∀ attempt ∈ past.2, attempt.data.Canonical := by
  obtain ⟨given, -, hfields⟩ := Option.bind_eq_some_iff.mp h
  split at hfields
  · rename_i standing attempts
    obtain ⟨records, hrecords, hfields⟩ := Option.bind_eq_some_iff.mp hfields
    cases Option.some.inj hfields
    constructor
    · cases standing with
      | none => exact Standing.noConfusion
      | some value => exact Standing.ofJson_ne_reason_empty _
    · intro attempt hattempt
      cases attempts with
      | none =>
          cases hrecords
          cases hattempt
      | some value => exact Json.forall_of_list? Attempt.canonical_data hrecords attempt hattempt
  · cases hfields

-- What every feedstock that was read from a document satisfies.
structure Legible (feedstock : Feedstock) : Prop where
  standing : feedstock.standing ≠ .reason ""
  attempts : ∀ attempt ∈ feedstock.attempts, attempt.data.Canonical
  config : feedstock.config.Canonical
  rendered : feedstock.rendered.Canonical
  -- a member that has a meaning of its own is never kept as another one
  extra : ∀ (key : String) (value : Json), feedstock.extra[key]? = some value →
    key ∉ knownKeys ∧ value.Canonical

theorem canonical_canonicalOrNull (field : Option Json) : (canonicalOrNull field).Canonical := by
  cases field with
  | none => exact .null
  | some value => exact value.canonical_canonical

theorem legible_extraMembers {members : List (String × Json)} {key : String} {value : Json}
    (h : (extraMembers members)[key]? = some value) : key ∉ knownKeys ∧ value.Canonical := by
  rw [getElem?_extraMembers] at h
  split at h
  · cases h
  · rename_i hother
    refine ⟨fun hknown => hother (List.contains_iff_mem.mpr hknown), ?_⟩
    obtain ⟨before, after, hmembers, -⟩ := List.lookup_eq_some_iff.mp h
    exact Json.canonical_of_mem_members members (key, value) (hmembers ▸ by simp)

theorem legible_of_ofJson? {value : Json} {feedstock : Feedstock}
    (h : ofJson? value = some feedstock) : feedstock.Legible := by
  cases value with
  | object members =>
      obtain ⟨given, -, hfields⟩ := Option.bind_eq_some_iff.mp h
      split at hfields
      · rename_i history config outputs rendered
        obtain ⟨past, hpast, hfields⟩ := Option.bind_eq_some_iff.mp hfields
        have hhistory : past.1 ≠ .reason "" ∧ ∀ attempt ∈ past.2, attempt.data.Canonical := by
          cases history with
          | none =>
              cases hpast
              exact ⟨Standing.noConfusion, fun _ => nofun⟩
          | some value => exact legible_of_history? hpast
        simp only [Option.bind_eq_bind, Option.bind_eq_some_iff, Option.pure_def,
          Option.some.injEq] at hfields
        obtain ⟨_, -, _, -, _, -, _, -, _, -, rfl⟩ := hfields
        exact ⟨hhistory.1, hhistory.2, canonical_canonicalOrNull _, canonical_canonicalOrNull _,
          fun key value => legible_extraMembers⟩
      · cases hfields
  | _ => cases h

-- The members that have a meaning of their own, as they are written.
def declared (feedstock : Feedstock) : List (String × Json) :=
  [("name", .string feedstock.name), ("feedstock_name", .string feedstock.feedstockName),
    ("branch", .string feedstock.branch), ("archived", .bool feedstock.archived),
    ("parsing_error", .bool feedstock.parsingError),
    ("requirements", feedstock.requirements.toJson),
    ("pr_info", .object [("bad", feedstock.standing.toJson),
      ("PRed", .array (feedstock.attempts.map Attempt.toJson))]),
    ("conda-forge.yml", feedstock.config), ("outputs_names", .ofNames feedstock.outputs),
    ("meta_yaml", feedstock.rendered)]

theorem toJson_eq (feedstock : Feedstock) :
    feedstock.toJson = .object (feedstock.declared ++ feedstock.extra.toList) := rfl

namespace Legible

variable {feedstock : Feedstock} (h : feedstock.Legible)
include h

theorem of_mem_extra {member : String × Json} (hmember : member ∈ feedstock.extra.toList) :
    member.1 ∉ knownKeys ∧ member.2.Canonical :=
  h.extra member.1 member.2 (Std.ExtTreeMap.mem_toList_iff_getElem?_eq_some.mp hmember)

theorem record?_toJson :
    feedstock.toJson.record? (knownKeys.map fun key => [key]) =
      some (feedstock.declared.map fun member => some member.2) := by
  rw [toJson_eq, Json.record?_append]
  · rfl
  · intro member hmember
    simpa using (h.of_mem_extra hmember).1

theorem extraMembers_toJson :
    extraMembers (feedstock.declared ++ feedstock.extra.toList) = feedstock.extra := by
  have hdeclared : (feedstock.declared.filter fun member => !knownKeys.contains member.1) = [] := rfl
  have hextra : (feedstock.extra.toList.filter fun member => !knownKeys.contains member.1) =
      feedstock.extra.toList :=
    List.filter_eq_self.mpr fun member hmember => by simpa using (h.of_mem_extra hmember).1
  have hvalues : (feedstock.extra.toList.map fun member => (member.1, member.2.canonical)) =
      feedstock.extra.toList :=
    (List.map_congr_left fun member hmember => by
      rw [(h.of_mem_extra hmember).2.canonical_eq]).trans (List.map_id' _)
  rw [extraMembers, List.filter_append, hdeclared, List.nil_append, hextra, hvalues,
    NameMap.ofList_toList]

theorem ofJson?_toJson : ofJson? feedstock.toJson = some feedstock := by
  have hrecord := h.record?_toJson
  simp only [declared, List.map_cons, List.map_nil] at hrecord
  have hpast := history?_object h.standing h.attempts
  have hconfig : canonicalOrNull (some feedstock.config) = feedstock.config := h.config.canonical_eq
  have hrendered : canonicalOrNull (some feedstock.rendered) = feedstock.rendered :=
    h.rendered.canonical_eq
  rw [toJson_eq] at hrecord ⊢
  simp only [ofJson?, hrecord, Option.bind_eq_bind, Option.bind_some, Json.orElse?, Json.string?,
    hpast, Requirements.ofJson?_toJson, Json.nameSet?_ofNames, hconfig, hrendered,
    h.extraMembers_toJson]
  rfl

end Legible

theorem readable_history {standing : Standing} {attempts : List Attempt} {depth : Nat}
    (h : ∀ attempt ∈ attempts, Json.Readable depth attempt.data) :
    Json.Readable (depth + 4)
      (.object [("bad", standing.toJson), ("PRed", .array (attempts.map Attempt.toJson))]) := by
  refine .object (depth + 3) fun member hmember => ?_
  simp only [List.mem_cons, List.not_mem_nil, or_false] at hmember
  rcases hmember with rfl | rfl
  · exact standing.readable_toJson _
  · refine .array (depth + 2) fun item hitem => ?_
    obtain ⟨attempt, hattempt, rfl⟩ := List.mem_map.mp hitem
    exact attempt.readable_toJson (h attempt hattempt)

-- The free values of a feedstock hold whole numbers only and nest at most so deep.
structure Whole (feedstock : Feedstock) (depth : Nat) : Prop where
  attempts : ∀ attempt ∈ feedstock.attempts, Json.Readable depth attempt.data
  config : Json.Readable depth feedstock.config
  rendered : Json.Readable depth feedstock.rendered
  extra : ∀ (key : String) (value : Json), feedstock.extra[key]? = some value →
    Json.Readable depth value

theorem readable_toJson {feedstock : Feedstock} {depth : Nat} (h : feedstock.Whole depth) :
    Json.Readable (depth + 5) feedstock.toJson := by
  rw [toJson_eq]
  refine .object (depth + 4) fun member hmember => ?_
  rcases List.mem_append.mp hmember with hdeclared | hextra
  · simp only [declared, List.mem_cons, List.not_mem_nil, or_false] at hdeclared
    rcases hdeclared with rfl | rfl | rfl | rfl | rfl | rfl | rfl | rfl | rfl | rfl
    · exact .string _ _
    · exact .string _ _
    · exact .string _ _
    · exact .bool _ _
    · exact .bool _ _
    · exact feedstock.requirements.readable_toJson (depth + 2)
    · exact readable_history h.attempts
    · exact h.config.mono (by omega)
    · exact Json.readable_strings feedstock.outputs.toList (depth + 3)
    · exact h.rendered.mono (by omega)
  · exact (h.extra member.1 member.2 (Std.ExtTreeMap.mem_toList_iff_getElem?_eq_some.mp hextra)).mono
      (by omega)

-- A document read and written again.
def resaved? (value : Json) : Option Json := (ofJson? value).map toJson

-- Nothing of a feedstock is lost when it is saved and read back, however its members are ordered,
-- as long as it is what a document can hold; so saving it again changes nothing.
theorem survives_saving (feedstock : Feedstock) (value : Json) :
    List.TFAE [∃ source, ofJson? source = some feedstock, feedstock.Legible,
      ofJson? feedstock.toJson = some feedstock,
      ofJson? feedstock.toJson.canonical = some feedstock] ∧
    (resaved? value).bind resaved? = resaved? value ∧
    (feedstock.Legible → feedstock.Whole (Json.maxDepth - 5) →
      (Json.ofText? feedstock.toJson.compact).bind ofJson? = some feedstock) := by
  refine ⟨?_, ?_, fun hlegible hwhole => ?_⟩
  · tfae_have 1 → 2 := fun ⟨source, hsource⟩ => legible_of_ofJson? hsource
    tfae_have 2 → 3 := Legible.ofJson?_toJson
    tfae_have 3 → 4 := readsCanonical_ofJson? feedstock.toJson feedstock
    tfae_have 4 → 1 := fun h => ⟨feedstock.toJson.canonical, h⟩
    tfae_finish
  · cases hread : ofJson? value with
    | none => simp [resaved?, hread]
    | some found =>
        have hsaved := (legible_of_ofJson? hread).ofJson?_toJson
        simp [resaved?, hread, hsaved]
  · rw [Json.ofText?_compact (readable_toJson hwhole), Option.bind_some, hlegible.ofJson?_toJson]

-- A feedstock with a standing, a record, a configuration and requirements on one platform.
def weathered : Feedstock :=
  { Feedstock.named "numpy" with
    standing := .reason "Upstream: gone"
    attempts := [.ofIdentity Identity.quotedName (some ⟨some .unknown, none, some "pull/7"⟩)]
    config := .object [("bot", .object [("abi_migration_branches", .array [.number (.int (-2))])])]
    extra := Std.ExtTreeMap.ofList
      [("linux_aarch64_requirements", .object [("host", .array [.string "python"])])] compare }

theorem eq_of_mem_weathered {key : String} {value : Json} (h : weathered.extra[key]? = some value) :
    key = "linux_aarch64_requirements" ∧ value = .object [("host", .array [.string "python"])] := by
  rw [weathered, Std.ExtTreeMap.ofList_singleton, Std.ExtTreeMap.getElem?_insert] at h
  split at h
  · rename_i hkey
    exact ⟨(Std.compare_eq_iff_eq.mp hkey).symm, (Option.some.inj h).symm⟩
  · simp at h

theorem legible_weathered : weathered.Legible where
  standing := by decide
  attempts := by
    intro attempt hattempt
    cases List.mem_singleton.mp hattempt
    exact (Json.canonical_iff _).mpr (by decide)
  config := (Json.canonical_iff _).mpr (by decide)
  rendered := .null
  extra := by
    intro key value hvalue
    obtain ⟨rfl, rfl⟩ := eq_of_mem_weathered hvalue
    exact ⟨by decide, (Json.canonical_iff _).mpr (by decide)⟩

theorem whole_weathered : weathered.Whole (Json.maxDepth - 5) where
  attempts := by
    intro attempt hattempt
    cases List.mem_singleton.mp hattempt
    exact Identity.quotedName.readable_toJson _
  config := by
    refine .object _ fun member hmember => ?_
    cases List.mem_singleton.mp hmember
    refine .object _ fun inner hinner => ?_
    cases List.mem_singleton.mp hinner
    refine .array _ fun item hitem => ?_
    cases List.mem_singleton.mp hitem
    exact .whole _ ⟨by decide, by decide⟩
  rendered := .null _
  extra := by
    intro key value hvalue
    obtain ⟨rfl, rfl⟩ := eq_of_mem_weathered hvalue
    refine .object _ fun member hmember => ?_
    cases List.mem_singleton.mp hmember
    exact Json.readable_strings ["python"] _

theorem survives_saving_weathered :
    weathered.Legible ∧ weathered.Whole (Json.maxDepth - 5) ∧
      ofJson? weathered.toJson = some weathered ∧
      (Json.ofText? weathered.toJson.compact).bind ofJson? = some weathered := by
  obtain ⟨htfae, -, htext⟩ := survives_saving weathered weathered.toJson
  exact ⟨legible_weathered, whole_weathered, (htfae.out 1 2).mp legible_weathered,
    htext legible_weathered whole_weathered⟩

end Feedstock

end Rollout
