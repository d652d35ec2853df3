import Rollout.Proofs.Json.Record

namespace Rollout.Json

-- A record before and after the value of one of its fields is replaced. The field is given by the keys
-- it may have. It is a member of an object, or an item of an array of the first fields in order.
inductive Replaced (fields : List (List String)) (keys : List String) (old new : Json) :
    Json → Json → Prop where
  | member {before after : List (String × Json)} {key : String} (hkey : key ∈ keys) :
      Replaced fields keys old new (.object (before ++ (key, old) :: after))
        (.object (before ++ (key, new) :: after))
  | item {before after : List Json} (hplace : before.length = fields.idxOf keys) :
      Replaced fields keys old new (.array (before ++ old :: after)) (.array (before ++ new :: after))

section Given

variable {before after : List (String × Json)} {keys : List String} {key : String} {old : Json}

-- A second member under these keys would have been refused.
theorem given?_replaced {found : Option Json} (new : Json) (hkey : key ∈ keys)
    (h : given? (before ++ (key, old) :: after) keys = some found) :
    found = some old ∧ given? (before ++ (key, new) :: after) keys = some (some new) := by
  have hcontains : keys.contains key = true := List.contains_iff_mem.mpr hkey
  simp only [given?, List.filter_append, List.filter_cons, hcontains, if_true] at h ⊢
  split at h
  · rename_i hnone
    simp at hnone
  · rename_i member hone
    rcases List.append_eq_singleton_iff.mp hone with ⟨hbefore, hrest⟩ | ⟨-, hrest⟩
    · obtain ⟨rfl, hafter⟩ := List.cons.inj hrest
      cases h
      rw [hbefore, hafter]
      exact ⟨rfl, rfl⟩
    · cases hrest
  · cases h

theorem given?_replaced_other (new : Json) (hkey : key ∉ keys) :
    given? (before ++ (key, new) :: after) keys = given? (before ++ (key, old) :: after) keys := by
  have hcontains : keys.contains key = false := by simpa using hkey
  simp only [given?, List.filter_append, List.filter_cons, hcontains, Bool.false_eq_true, if_false]

theorem forall₂_given?_replaced {fields : List (List String)} {given : List (Option Json)} (new : Json)
    (hkeys : keys ∈ fields) (hkey : key ∈ keys) (hdisjoint : fields.Pairwise List.Disjoint)
    (h : List.Forall₂ (fun keys found => given? (before ++ (key, old) :: after) keys = some found)
      fields given) :
    given[fields.idxOf keys]? = some (some old) ∧
      List.Forall₂ (fun keys found => given? (before ++ (key, new) :: after) keys = some found)
        fields (given.set (fields.idxOf keys) (some new)) := by
  induction h with
  | nil => cases hkeys
  | @cons first found fields given hfirst hrest ih =>
      obtain ⟨hfar, hdisjoint⟩ := List.pairwise_cons.mp hdisjoint
      by_cases he : first = keys
      · subst he
        obtain ⟨rfl, hnew⟩ := given?_replaced new hkey hfirst
        rw [List.idxOf_cons_self]
        have hothers : ∀ others ∈ fields, key ∉ others :=
          fun others hm hc => hfar others hm hkey hc
        refine ⟨rfl, .cons hnew ?_⟩
        refine ((List.forall₂_and_left fields given).mpr ⟨hothers, hrest⟩).imp fun others found hold => ?_
        rw [given?_replaced_other new hold.1]
        exact hold.2
      · have hin : keys ∈ fields := (List.mem_cons.mp hkeys).resolve_left (Ne.symm he)
        obtain ⟨hold, hnew⟩ := ih hin hdisjoint
        rw [List.idxOf_cons_ne _ he]
        refine ⟨hold, .cons ?_ hnew⟩
        rw [given?_replaced_other new fun hc => hfar keys hin hc hkey]
        exact hfirst

end Given

-- Only the one field is read otherwise after it is replaced, whatever takes its place.
theorem record?_replaced {fields : List (List String)} {keys : List String} {old new value changed : Json}
    {given : List (Option Json)} (hkeys : keys ∈ fields) (hdisjoint : fields.Pairwise List.Disjoint)
    (h : Replaced fields keys old new value changed) (hgiven : value.record? fields = some given) :
    given[fields.idxOf keys]? = some (some old) ∧
      changed.record? fields = some (given.set (fields.idxOf keys) (some new)) := by
  cases h with
  | member hkey =>
      rw [record?_object, mapM_eq_some_iff_forall₂] at hgiven ⊢
      exact forall₂_given?_replaced new hkeys hkey hdisjoint hgiven
  | @item before after hplace =>
      simp only [record?, List.length_append, List.length_cons] at hgiven ⊢
      split at hgiven
      · rename_i hlength
        cases hgiven
        simp [hlength, ← hplace]
      · cases hgiven

-- An item that is replaced leaves the items around it to be decoded as before.
theorem exists_of_mapM_append_cons {α β : Type} {decode : β → Option α} {before after : List β} {old : β}
    {found : List α} (h : (before ++ old :: after).mapM decode = some found) :
    ∃ front a back, found = front ++ a :: back ∧ front.length = before.length ∧
      decode old = some a ∧ after.mapM decode = some back ∧
      ∀ new b, decode new = some b → (before ++ new :: after).mapM decode = some (front ++ b :: back) := by
  simp only [mapM_eq_some_iff_forall₂] at h ⊢
  induction before generalizing found with
  | nil =>
      cases h with
      | cons hold hafter => exact ⟨[], _, _, rfl, rfl, hold, hafter, fun _ _ hnew => .cons hnew hafter⟩
  | cons item before ih =>
      cases h with
      | cons hitem hrest =>
          obtain ⟨front, a, back, rfl, hlength, hold, hafter, hnew⟩ := ih hrest
          exact ⟨_ :: front, a, back, rfl, congrArg (· + 1) hlength, hold, hafter,
            fun new b hb => .cons hitem (hnew new b hb)⟩

end Rollout.Json
