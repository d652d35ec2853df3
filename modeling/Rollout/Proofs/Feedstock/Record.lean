import Rollout.Feedstock
import Rollout.Proofs.Identity
import Rollout.Proofs.Json.Record

namespace Rollout

theorem NameSet.ofList_toList (names : NameSet) : ofList names.toList = names := by
  refine Std.ExtTreeSet.ext_mem fun name => ?_
  rw [mem_ofList, Std.ExtTreeSet.mem_toList]

namespace Json

theorem list?_map {α : Type} {decode : Json → Option α} {encode : α → Json} {items : List α}
    (h : ∀ item ∈ items, decode (encode item) = some item) :
    (array (items.map encode)).list? decode = some items := by
  rw [list?, mapM_eq_some_iff_forall₂, List.forall₂_map_left_iff, List.forall₂_same]
  exact h

theorem list?_strings (texts : List String) :
    (array (texts.map string)).list? string? = some texts := list?_map fun _ _ => rfl

theorem nameSet?_ofNames (names : NameSet) : (ofNames names).nameSet? = some names := by
  rw [nameSet?, ofNames, list?_strings, Option.map_some, NameSet.ofList_toList]

theorem Readable.mono {depth deeper : Nat} {value : Json} (h : Readable depth value)
    (hle : depth ≤ deeper) : Readable deeper value := by
  induction h generalizing deeper with
  | null depth => exact .null deeper
  | bool depth value => exact .bool deeper value
  | whole depth hwhole => exact .whole deeper hwhole
  | string depth text => exact .string deeper text
  | array depth h ih =>
      obtain ⟨inner, rfl⟩ := Nat.exists_eq_add_of_lt hle
      exact .array (depth + inner) fun item hitem => ih item hitem (Nat.le_add_right depth inner)
  | object depth h ih =>
      obtain ⟨inner, rfl⟩ := Nat.exists_eq_add_of_lt hle
      exact .object (depth + inner) fun member hmember =>
        ih member hmember (Nat.le_add_right depth inner)

theorem readable_strings (texts : List String) (depth : Nat) :
    Readable (depth + 1) (array (texts.map string)) := by
  refine .array depth fun item hitem => ?_
  obtain ⟨text, -, rfl⟩ := List.mem_map.mp hitem
  exact .string depth text

end Json

namespace Requirements

theorem readsCanonical_ofJson? : Json.ReadsCanonical ofJson? := by
  intro value found h
  obtain ⟨given, hgiven, hfields⟩ := Option.bind_eq_some_iff.mp h
  have hcanonical := Json.record?_canonical hgiven
  split at hfields
  · obtain ⟨build, hbuild, hfields⟩ := Option.bind_eq_some_iff.mp hfields
    obtain ⟨host, hhost, hfields⟩ := Option.bind_eq_some_iff.mp hfields
    obtain ⟨run, hrun, hfields⟩ := Option.bind_eq_some_iff.mp hfields
    obtain ⟨test, htest, hfields⟩ := Option.bind_eq_some_iff.mp hfields
    cases Option.some.inj hfields
    have hsection := @Json.readsCanonical_nameSet?.orElse?
    simp [ofJson?, hcanonical, hsection hbuild, hsection hhost, hsection hrun, hsection htest]
  · cases hfields

theorem ofJson?_toJson (requirements : Requirements) :
    ofJson? requirements.toJson = some requirements := by
  have hrecord : requirements.toJson.record? fields = some [some (.ofNames requirements.build),
      some (.ofNames requirements.host), some (.ofNames requirements.run),
      some (.ofNames requirements.test)] := rfl
  simp [ofJson?, hrecord, Json.orElse?, Json.nameSet?_ofNames]

theorem readable_toJson (requirements : Requirements) (depth : Nat) :
    Json.Readable (depth + 2) requirements.toJson := by
  refine .object (depth + 1) fun member hmember => ?_
  simp only [List.mem_cons, List.not_mem_nil, or_false] at hmember
  rcases hmember with rfl | rfl | rfl | rfl <;> exact Json.readable_strings _ depth

end Requirements

namespace Standing

-- A reason is never empty, since nothing would tell it from no mark at all.
theorem ofJson_ne_reason_empty (value : Json) : ofJson value ≠ .reason "" := by
  cases value <;> simp only [ofJson] <;> split <;> simp_all

theorem ofJson_toJson {standing : Standing} (h : standing ≠ .reason "") :
    ofJson standing.toJson.canonical = standing := by
  cases standing with
  | good => rfl
  | flagged => rfl
  | reason text =>
      have hne : text ≠ "" := fun he => h (he ▸ rfl)
      exact if_neg hne

theorem readable_toJson (standing : Standing) (depth : Nat) : Json.Readable depth standing.toJson := by
  cases standing with
  | good => exact .bool depth false
  | flagged => exact .bool depth true
  | reason text => exact .string depth text

end Standing

namespace Hosting

theorem bind_text?_canonical (field : Option Json) :
    (field.map Json.canonical).bind text? = field.bind text? := by
  cases field with
  | none => rfl
  | some value => cases value <;> rfl

theorem bind_state_canonical (field : Option Json) :
    (field.map Json.canonical).bind (fun value => PullState.ofJson value.canonical) =
      field.bind fun value => PullState.ofJson value.canonical := by
  cases field <;> simp

theorem text?_textJson (text : Option String) : text? (textJson text) = text := by
  cases text <;> rfl

theorem ofName_name (state : PullState) : PullState.ofName state.name = state := by
  cases state <;> rfl

theorem ofJson_stateJson (state : Option PullState) :
    PullState.ofJson (textJson (state.map PullState.name)).canonical = state := by
  cases state with
  | none => rfl
  | some state => exact congrArg some (ofName_name state)

theorem readsCanonical_ofJson? : Json.ReadsCanonical ofJson? := by
  intro value found h
  obtain ⟨given, hgiven, hfields⟩ := Option.bind_eq_some_iff.mp h
  have hcanonical := Json.record?_canonical hgiven
  split at hfields
  · rename_i state createdAt url
    cases Option.some.inj hfields
    simp only [ofJson?, hcanonical, List.map_cons, List.map_nil, Option.bind_eq_bind, Option.bind_some,
      bind_text?_canonical, bind_state_canonical]
    rfl
  · cases hfields

theorem ofJson?_toJson (hosting : Hosting) : ofJson? hosting.toJson = some hosting := by
  have hrecord : hosting.toJson.record? fields =
      some [some (textJson (hosting.state.map PullState.name)), some (textJson hosting.createdAt),
        some (textJson hosting.url)] := rfl
  rw [ofJson?, hrecord]
  simp [text?_textJson, ofJson_stateJson]

theorem readable_textJson (text : Option String) (depth : Nat) :
    Json.Readable depth (textJson text) := by
  cases text with
  | none => exact .null depth
  | some text => exact .string depth text

theorem readable_toJson (hosting : Hosting) (depth : Nat) :
    Json.Readable (depth + 1) hosting.toJson := by
  refine .object depth fun member hmember => ?_
  simp only [List.mem_cons, List.not_mem_nil, or_false] at hmember
  rcases hmember with rfl | rfl | rfl <;> exact readable_textJson _ depth

end Hosting

namespace Attempt

theorem readsCanonical_ofJson? : Json.ReadsCanonical ofJson? := by
  intro value found h
  obtain ⟨given, hgiven, hfields⟩ := Option.bind_eq_some_iff.mp h
  have hcanonical := Json.record?_canonical hgiven
  split at hfields
  · obtain ⟨names, hnames, hfields⟩ := Option.bind_eq_some_iff.mp hfields
    obtain ⟨hosting, hhosting, hfields⟩ := Option.bind_eq_some_iff.mp hfields
    cases Option.some.inj hfields
    have hkeys := Json.readsCanonical_string?.list?.orElse? hnames
    have hpull := Hosting.readsCanonical_ofJson?.nullable?.orElse? hhosting
    simp [ofJson?, hcanonical, hkeys, hpull]
  · cases hfields

theorem canonical_data {value : Json} {attempt : Attempt} (h : ofJson? value = some attempt) :
    attempt.data.Canonical := by
  obtain ⟨given, -, hfields⟩ := Option.bind_eq_some_iff.mp h
  split at hfields
  · obtain ⟨names, -, hfields⟩ := Option.bind_eq_some_iff.mp hfields
    obtain ⟨hosting, -, hfields⟩ := Option.bind_eq_some_iff.mp hfields
    cases Option.some.inj hfields
    exact Json.canonical_canonical _
  · cases hfields

theorem ofJson?_toJson {attempt : Attempt} (h : attempt.data.Canonical) :
    ofJson? attempt.toJson = some attempt := by
  have hrecord : attempt.toJson.record? fields = some [some attempt.data,
      some (.array (attempt.keys.map .string)), attempt.hosting.map Hosting.toJson] := by
    unfold toJson
    cases attempt.hosting.map Hosting.toJson <;> rfl
  have hkeys : Json.orElse? [] (Json.list? Json.string?)
      (some (.array (attempt.keys.map .string))) = some attempt.keys := Json.list?_strings _
  have hhosting : Json.orElse? none (Json.nullable? Hosting.ofJson?)
      (attempt.hosting.map Hosting.toJson) = some attempt.hosting := by
    cases attempt.hosting with
    | none => rfl
    | some hosting => exact congrArg (Option.map some) hosting.ofJson?_toJson
  simp [ofJson?, hrecord, hkeys, hhosting, h.canonical_eq]

theorem readable_toJson (attempt : Attempt) {depth : Nat} (h : Json.Readable depth attempt.data) :
    Json.Readable (depth + 2) attempt.toJson := by
  refine .object (depth + 1) fun member hmember => ?_
  simp only [List.mem_append, Identity.mem_optional, Option.map_eq_some_iff, List.mem_cons,
    List.not_mem_nil, or_false] at hmember
  obtain ⟨-, hosting, -, hhosting⟩ | rfl | rfl := hmember
  · exact hhosting ▸ hosting.readable_toJson depth
  · exact h.mono (by omega)
  · exact Json.readable_strings _ depth

end Attempt

end Rollout
