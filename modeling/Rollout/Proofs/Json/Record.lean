import Mathlib.Data.List.Forall2
import Rollout.Json.Record
import Rollout.Proofs.Json.Canonical

namespace Rollout.Json

variable {α : Type} {decode : Json → Option α}

theorem mapM_eq_some_iff_forall₂ {β γ : Type} (f : β → Option γ) (items : List β)
    (found : List γ) :
    items.mapM f = some found ↔ List.Forall₂ (fun item result => f item = some result) items found := by
  induction items generalizing found with
  | nil => simp [eq_comm]
  | cons item rest ih =>
      simp only [List.mapM_cons, Option.bind_eq_bind, Option.bind_eq_some_iff, Option.pure_def,
        Option.some.injEq, ih, List.forall₂_cons_left_iff]
      grind

theorem forall_of_list? {p : α → Prop} (h : ∀ {value found}, decode value = some found → p found)
    {value : Json} {found : List α} (hfound : value.list? decode = some found) :
    ∀ item ∈ found, p item := by
  cases value with
  | array items =>
      have hitems := (mapM_eq_some_iff_forall₂ decode items found).mp hfound
      intro result hresult
      obtain ⟨i, hi, rfl⟩ := List.getElem_of_mem hresult
      exact h (hitems.get (hitems.length_eq ▸ hi) hi)
  | _ => cases hfound

-- A reader that finds in the canonical form whatever it finds in a document.
def ReadsCanonical (decode : Json → Option α) : Prop :=
  ∀ (value : Json) (found : α), decode value = some found → decode value.canonical = some found

theorem readsCanonical_string? : ReadsCanonical string?
  | .string _, _, h => h

theorem ReadsCanonical.list? (h : ReadsCanonical decode) : ReadsCanonical (Json.list? decode)
  | .array items, found, hfound => by
    rw [Json.list?, mapM_eq_some_iff_forall₂] at hfound
    rw [canonical, canonicalItems_eq_map, Json.list?, mapM_eq_some_iff_forall₂,
      List.forall₂_map_left_iff]
    exact hfound.imp fun item result hitem => h item result hitem

theorem readsCanonical_nameSet? : ReadsCanonical nameSet? := by
  intro value found hfound
  obtain ⟨names, hnames, rfl⟩ := Option.map_eq_some_iff.mp hfound
  rw [nameSet?, readsCanonical_string?.list? value names hnames, Option.map_some]

theorem ReadsCanonical.nullable? (h : ReadsCanonical decode) :
    ReadsCanonical (Json.nullable? decode) := by
  intro value found hfound
  cases value with
  | null => exact hfound
  | _ =>
      obtain ⟨result, hresult, rfl⟩ := Option.map_eq_some_iff.mp hfound
      exact congrArg (Option.map some) (h _ result hresult)

theorem ReadsCanonical.orElse? (h : ReadsCanonical decode) {default found : α} {field : Option Json}
    (hfound : Json.orElse? default decode field = some found) :
    Json.orElse? default decode (field.map canonical) = some found := by
  cases field with
  | none => exact hfound
  | some value => exact h value found hfound

-- What an object gives for a field that may be under any of some keys; none if it is given twice.
def given? (members : List (String × Json)) (keys : List String) : Option (Option Json) :=
  match members.filter fun member => keys.contains member.1 with
  | [] => some none
  | [member] => some (some member.2)
  | _ => none

theorem record?_object (fields : List (List String)) (members : List (String × Json)) :
    (object members).record? fields = fields.mapM (given? members) := rfl

theorem length_of_record? {fields : List (List String)} {value : Json} {given : List (Option Json)}
    (h : value.record? fields = some given) : given.length = fields.length := by
  cases value with
  | object members =>
      rw [record?_object, mapM_eq_some_iff_forall₂] at h
      exact h.length_eq.symm
  | array items =>
      simp only [record?] at h
      split at h
      · cases h
        simp only [List.length_append, List.length_map, List.length_replicate]
        omega
      · cases h
  | _ => cases h

theorem given?_canonicalMembers {members : List (String × Json)} {keys : List String}
    {found : Option Json} (h : given? members keys = some found) :
    given? (canonicalMembers members) keys = some (found.map canonical) := by
  unfold given? at h ⊢
  rw [filter_canonicalMembers keys.contains]
  split at h
  · rename_i hnone
    cases h
    rw [hnone]
    rfl
  · rename_i member hone
    cases h
    rw [hone]
    rfl
  · cases h

theorem given?_append {members more : List (String × Json)} {keys : List String}
    (h : ∀ member ∈ more, member.1 ∉ keys) : given? (members ++ more) keys = given? members keys := by
  have hmore : (more.filter fun member => keys.contains member.1) = [] := by
    simpa [List.filter_eq_nil_iff] using h
  rw [given?, List.filter_append, hmore, List.append_nil, given?]

theorem record?_append {fields : List (List String)} {members more : List (String × Json)}
    (h : ∀ member ∈ more, member.1 ∉ fields.flatten) :
    (object (members ++ more)).record? fields = (object members).record? fields := by
  simp only [record?_object]
  induction fields with
  | nil => rfl
  | cons keys rest ih =>
      have hkeys : ∀ member ∈ more, member.1 ∉ keys := fun member hmember hkey =>
        h member hmember (List.mem_append_left _ hkey)
      have hrest : ∀ member ∈ more, member.1 ∉ rest.flatten := fun member hmember hkey =>
        h member hmember (List.mem_append_right _ hkey)
      rw [List.mapM_cons, List.mapM_cons, given?_append hkeys, ih hrest]

theorem record?_canonical {fields : List (List String)} {value : Json} {given : List (Option Json)}
    (h : value.record? fields = some given) :
    value.canonical.record? fields = some (given.map (Option.map canonical)) := by
  cases value with
  | object members =>
      rw [record?_object, mapM_eq_some_iff_forall₂] at h
      rw [canonical, record?_object, mapM_eq_some_iff_forall₂, List.forall₂_map_right_iff]
      exact h.imp fun keys found hfound => given?_canonicalMembers hfound
  | array items =>
      simp only [record?] at h
      split at h
      · rename_i hlength
        cases h
        simp [canonical, canonicalItems_eq_map, record?, hlength]
      · cases h
  | _ => cases h

end Rollout.Json
