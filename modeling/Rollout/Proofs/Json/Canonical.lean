import Rollout.Json

namespace Rollout.Json

-- A document as its value denotes it: in every object the keys ascend, so each is there once.
inductive Canonical : Json → Prop where
  | null : Canonical .null
  | bool (value : Bool) : Canonical (.bool value)
  | number (value : Number) : Canonical (.number value)
  | string (text : String) : Canonical (.string text)
  | array {items : List Json} (h : ∀ item ∈ items, Canonical item) : Canonical (.array items)
  | object {members : List (String × Json)} (hkeys : (members.map Prod.fst).Pairwise (· < ·))
      (h : ∀ member ∈ members, Canonical member.2) : Canonical (.object members)

section Insertion

variable (key : String) (value : Json) {members : List (String × Json)}

theorem insertMember_of_lt (h : ∀ other ∈ members.map Prod.fst, key < other) :
    insertMember key value members = (key, value) :: members := by
  cases members with
  | nil => rfl
  | cons member rest => exact if_pos (h _ List.mem_cons_self)

theorem forall_lt_of_lt_head {key first : String} {rest : List String} (hlt : key < first)
    (h : (first :: rest).Pairwise (· < ·)) : ∀ other ∈ first :: rest, key < other := by
  intro other hother
  obtain rfl | hrest := List.mem_cons.mp hother
  · exact hlt
  · exact String.lt_trans hlt ((List.pairwise_cons.mp h).1 other hrest)

theorem mem_of_mem_insertMember {member : String × Json}
    (h : member ∈ insertMember key value members) : member = (key, value) ∨ member ∈ members := by
  fun_induction insertMember key value members with
  | case1 => exact .inl (List.mem_singleton.mp h)
  | case2 k v rest hlt => exact List.mem_cons.mp h
  | case3 => exact .inr h
  | case4 k v rest hlt hne ih =>
      obtain rfl | hrest := List.mem_cons.mp h
      · exact .inr List.mem_cons_self
      · exact (ih hrest).imp_right (List.mem_cons_of_mem _)

theorem pairwise_insertMember (h : (members.map Prod.fst).Pairwise (· < ·)) :
    ((insertMember key value members).map Prod.fst).Pairwise (· < ·) := by
  fun_induction insertMember key value members with
  | case1 => exact List.pairwise_singleton _ _
  | case2 k v rest hlt => exact List.pairwise_cons.mpr ⟨forall_lt_of_lt_head hlt h, h⟩
  | case3 => exact h
  | case4 k v rest hlt hne ih =>
      obtain ⟨hk, hrest⟩ := List.pairwise_cons.mp h
      refine List.pairwise_cons.mpr ⟨fun other hother => ?_, ih hrest⟩
      obtain ⟨member, hmember, rfl⟩ := List.mem_map.mp hother
      obtain rfl | hmem := mem_of_mem_insertMember key value hmember
      · exact Std.lt_of_le_of_ne (String.not_lt.mp hlt) (Ne.symm hne)
      · exact hk _ (List.mem_map_of_mem hmem)

theorem lookup_cons_ite (name first : String) (rest : List (String × Json)) :
    ((first, value) :: rest).lookup name = if name = first then some value else rest.lookup name := by
  by_cases hname : name = first
  · simp [hname]
  · simp [List.lookup_cons, hname, beq_false_of_ne hname]

-- Of two values under one key the one that is there already stays.
theorem lookup_insertMember (h : (members.map Prod.fst).Pairwise (· < ·)) (name : String) :
    (insertMember key value members).lookup name =
      (members.lookup name).or (if name = key then some value else none) := by
  fun_induction insertMember key value members with
  | case1 => rw [lookup_cons_ite]; rfl
  | case2 k v rest hlt =>
      rw [lookup_cons_ite]
      split
      · rename_i hname
        have hnone : ((k, v) :: rest).lookup name = none := by
          refine List.lookup_eq_none_iff.mpr fun member hmember => ?_
          have hlater : name < member.1 :=
            hname ▸ forall_lt_of_lt_head hlt h _ (List.mem_map_of_mem hmember)
          simpa using String.ne_of_lt hlater
        rw [hnone, Option.none_or]
      · rw [Option.or_none]
  | case3 v rest hlt =>
      by_cases hname : name = key
      · simp [hname]
      · rw [if_neg hname, Option.or_none]
  | case4 k v rest hlt hne ih =>
      rw [lookup_cons_ite, lookup_cons_ite, ih (List.pairwise_cons.mp h).2]
      split
      · rfl
      · rfl

-- A choice among the members that goes by the key may be made before or after one is added.
theorem filter_insertMember (chosen : String → Bool) (h : (members.map Prod.fst).Pairwise (· < ·)) :
    (insertMember key value members).filter (fun member => chosen member.1) =
      if chosen key then insertMember key value (members.filter fun member => chosen member.1)
      else members.filter fun member => chosen member.1 := by
  fun_induction insertMember key value members with
  | case1 => simp [List.filter_cons, insertMember]
  | case2 k v rest hlt =>
      rw [List.filter_cons]
      split
      · rw [insertMember_of_lt]
        intro other hother
        obtain ⟨member, hmember, rfl⟩ := List.mem_map.mp hother
        exact forall_lt_of_lt_head hlt h _ (List.mem_map_of_mem (List.mem_filter.mp hmember).1)
      · rfl
  | case3 v rest hlt =>
      split
      · rename_i hkey
        rw [List.filter_cons, if_pos hkey, insertMember, if_neg hlt, if_pos rfl]
      · rfl
  | case4 k v rest hlt hne ih =>
      rw [List.filter_cons, ih (List.pairwise_cons.mp h).2, List.filter_cons]
      by_cases hk : chosen k
      · rw [if_pos hk, if_pos hk, insertMember, if_neg hlt, if_neg hne]
        split <;> rfl
      · rw [if_neg hk, if_neg hk]

end Insertion

theorem pairwise_canonicalMembers (members : List (String × Json)) :
    ((canonicalMembers members).map Prod.fst).Pairwise (· < ·) := by
  induction members with
  | nil => exact List.Pairwise.nil
  | cons member rest ih => exact pairwise_insertMember _ _ ih

theorem canonicalItems_eq_map (items : List Json) : canonicalItems items = items.map canonical := by
  induction items with
  | nil => rfl
  | cons item rest ih => rw [canonicalItems, ih, List.map_cons]

mutual

theorem canonical_canonical : ∀ value : Json, Canonical value.canonical
  | .null => .null
  | .bool value => .bool value
  | .number value => .number value
  | .string text => .string text
  | .array items => .array (canonical_of_mem_items items)
  | .object members => .object (pairwise_canonicalMembers members) (canonical_of_mem_members members)

theorem canonical_of_mem_items : ∀ items : List Json, ∀ item ∈ canonicalItems items, Canonical item
  | [], _, h => nomatch h
  | first :: rest, _, h => by
    obtain rfl | hrest := List.mem_cons.mp h
    · exact canonical_canonical first
    · exact canonical_of_mem_items rest _ hrest

theorem canonical_of_mem_members :
    ∀ members : List (String × Json), ∀ member ∈ canonicalMembers members, Canonical member.2
  | [], _, h => nomatch h
  | (key, value) :: rest, _, h => by
    obtain rfl | hrest := mem_of_mem_insertMember key value.canonical h
    · exact canonical_canonical value
    · exact canonical_of_mem_members rest _ hrest

end

theorem canonicalMembers_eq_self {members : List (String × Json)}
    (hkeys : (members.map Prod.fst).Pairwise (· < ·))
    (h : ∀ member ∈ members, member.2.canonical = member.2) : canonicalMembers members = members := by
  induction members with
  | nil => rfl
  | cons member rest ih =>
      obtain ⟨hkey, hrest⟩ := List.pairwise_cons.mp hkeys
      rw [canonicalMembers, ih hrest fun other hother => h other (List.mem_cons_of_mem _ hother),
        h member List.mem_cons_self, insertMember_of_lt _ _ hkey]

theorem Canonical.canonical_eq {value : Json} (h : Canonical value) : value.canonical = value := by
  induction h with
  | null => rfl
  | bool value => rfl
  | number value => rfl
  | string text => rfl
  | array h ih => rw [canonical, canonicalItems_eq_map, List.map_congr_left ih, List.map_id']
  | object hkeys h ih => rw [canonical, canonicalMembers_eq_self hkeys ih]

@[simp]
theorem canonical_idem (value : Json) : value.canonical.canonical = value.canonical :=
  value.canonical_canonical.canonical_eq

theorem canonical_iff (value : Json) : Canonical value ↔ value.canonical = value :=
  ⟨Canonical.canonical_eq, fun h => h ▸ value.canonical_canonical⟩

theorem filter_canonicalMembers (chosen : String → Bool) (members : List (String × Json)) :
    (canonicalMembers members).filter (fun member => chosen member.1) =
      canonicalMembers (members.filter fun member => chosen member.1) := by
  induction members with
  | nil => rfl
  | cons member rest ih =>
      rw [canonicalMembers, filter_insertMember _ _ _ (pairwise_canonicalMembers rest), ih,
        List.filter_cons]
      split <;> rfl

end Rollout.Json
