import Rollout.Json.Reader
import Rollout.Proofs.Json.Record

namespace Rollout.Json

namespace Shape

mutual

-- What a reader of this shape sees of a document: all of it but what is passed over.
def seen (shape : Shape) : Json → Json
  | .null => .null
  | .bool value => .bool value
  | .number value => .number value
  | .string text => .string text
  | .array items => .array (seenItems shape 0 items)
  | .object members => .object (seenMembers shape members)

def seenItems (shape : Shape) (index : Nat) : List Json → List Json
  | [] => []
  | item :: rest => seen (shape.item index) item :: seenItems shape (index + 1) rest

def seenMembers (shape : Shape) : List (String × Json) → List (String × Json)
  | [] => []
  | (key, value) :: rest =>
    match shape.member key with
    | none => seenMembers shape rest
    | some inner => (key, seen inner value) :: seenMembers shape rest

end

mutual

theorem seen_full : ∀ value : Json, full.seen value = value
  | .null | .bool _ | .number _ | .string _ => rfl
  | .array items => by rw [seen, seenItems_full]
  | .object members => by rw [seen, seenMembers_full]

theorem seenItems_full (index : Nat) : ∀ items : List Json, full.seenItems index items = items
  | [] => rfl
  | first :: rest => by rw [seenItems, item, seen_full first, seenItems_full]

theorem seenMembers_full : ∀ members : List (String × Json), full.seenMembers members = members
  | [] => rfl
  | (key, value) :: rest => by simp [seenMembers, member, seen_full value, seenMembers_full rest]

end

@[simp] theorem seen_full_eq_id : full.seen = id := funext seen_full

end Shape

mutual

-- What is read in full is read as well where some of it is passed over.
theorem Draft.read?_seen {room : Nat} (shape : Shape) : ∀ {draft : Draft} {value : Json},
    draft.read? room .full = some value → draft.read? room shape = some (shape.seen value)
  | .null, _, h | .bool _, _, h => by
      cases h
      rfl
  | .number _, _, h | .string _, _, h => by
      obtain ⟨_, rfl, rfl⟩ := Option.map_eq_some_iff.mp h
      rfl
  | .array items, _, h => by
      simp only [Draft.read?] at h ⊢
      split at h
      · cases h
      · rename_i hroom
        obtain ⟨values, hvalues, rfl⟩ := Option.map_eq_some_iff.mp h
        rw [if_neg hroom, Draft.readItems?_seen shape 0 hvalues]
        rfl
  | .object members, _, h => by
      simp only [Draft.read?] at h ⊢
      split at h
      · cases h
      · rename_i hroom
        obtain ⟨values, hvalues, rfl⟩ := Option.map_eq_some_iff.mp h
        rw [if_neg hroom, Draft.readMembers?_seen shape hvalues]
        rfl

theorem Draft.readItems?_seen {room : Nat} (shape : Shape) (index : Nat) :
    ∀ {drafts : List Draft} {items : List Json},
      Draft.readItems? room .full index drafts = some items →
        Draft.readItems? room shape index drafts = some (shape.seenItems index items)
  | [], _, h => by
      cases h
      rfl
  | draft :: drafts, _, h => by
      simp only [Draft.readItems?, Option.bind_eq_bind, Option.bind_eq_some_iff] at h
      obtain ⟨value, hvalue, others, hothers, h⟩ := h
      cases h
      simp [Draft.readItems?, Draft.read?_seen (shape.item index) hvalue,
        Draft.readItems?_seen shape (index + 1) hothers, Shape.seenItems]

theorem Draft.readMembers?_seen {room : Nat} (shape : Shape) :
    ∀ {drafts : List (Option String × Draft)} {members : List (String × Json)},
      Draft.readMembers? room .full drafts = some members →
        Draft.readMembers? room shape drafts = some (shape.seenMembers members)
  | [], _, h => by
      cases h
      rfl
  | (none, _) :: _, _, h => by cases h
  | (some key, draft) :: drafts, _, h => by
      simp only [Draft.readMembers?, Shape.member, Option.bind_eq_bind,
        Option.bind_eq_some_iff] at h
      obtain ⟨value, hvalue, others, hothers, h⟩ := h
      cases h
      have hrest := Draft.readMembers?_seen shape hothers
      cases hmember : shape.member key with
      | none => simp [Draft.readMembers?, hmember, hrest, Shape.seenMembers]
      | some inner =>
          simp [Draft.readMembers?, hmember, Draft.read?_seen inner hvalue, hrest, Shape.seenMembers]

end

theorem Shape.ofText?_seen {text : String} {value : Json} (h : Json.ofText? text = some value)
    (shape : Shape) : shape.ofText? text = some (shape.seen value) := by
  obtain ⟨draft, hdraft, hread⟩ := Option.bind_eq_some_iff.mp h
  rw [Shape.ofText?, hdraft, Option.bind_some, Draft.read?_seen shape hread]

namespace Shape

section Suffices

variable {α : Type} {decode : Json → Option α} {shape : Shape}

-- A reader makes the same of a document and of what it sees of it.
def Suffices (shape : Shape) (decode : Json → Option α) : Prop :=
  ∀ value, decode (shape.seen value) = decode value

theorem Suffices.nullable? (h : shape.Suffices decode) : shape.Suffices (Json.nullable? decode)
  | .null => rfl
  | .bool value => congrArg (Option.map some) (h (.bool value))
  | .number value => congrArg (Option.map some) (h (.number value))
  | .string text => congrArg (Option.map some) (h (.string text))
  | .array items => congrArg (Option.map some) (h (.array items))
  | .object members => congrArg (Option.map some) (h (.object members))

theorem Suffices.orElse? (h : shape.Suffices decode) (default : α) (field : Option Json) :
    Json.orElse? default decode (field.map shape.seen) = Json.orElse? default decode field := by
  cases field with
  | none => rfl
  | some value => exact h value

theorem seenItems_list (items : List Json) (index : Nat) :
    (list shape).seenItems index items = items.map shape.seen := by
  induction items generalizing index with
  | nil => rfl
  | cons first rest ih => rw [seenItems, ih, List.map_cons, item]

theorem seenMembers_table (members : List (String × Json)) :
    (table shape).seenMembers members = members.map fun member => (member.1, shape.seen member.2) := by
  induction members with
  | nil => rfl
  | cons first rest ih => rw [seenMembers, member, ih, List.map_cons]

theorem Suffices.list? (h : shape.Suffices decode) : (list shape).Suffices (Json.list? decode)
  | .null | .bool _ | .number _ | .string _ | .object _ => rfl
  | .array items => by
    rw [seen, seenItems_list, Json.list?, Json.list?, List.mapM_map]
    exact congrArg items.mapM (funext h)

theorem Suffices.entries? (h : shape.Suffices decode) :
    (table shape).Suffices (Json.entries? decode)
  | .null | .bool _ | .number _ | .string _ | .array _ => rfl
  | .object members => by
    rw [seen, seenMembers_table, Json.entries?, Json.entries?, List.mapM_map]
    refine congrArg members.mapM (funext fun member => ?_)
    exact congrArg (Option.map _) (h member.2)

end Suffices

section Record

variable {fields : List (List String × Shape)} {others : Bool}

-- A key belongs to one field at most.
theorem find?_field {field : List String × Shape} {key : String}
    (hkeys : (fields.flatMap Prod.fst).Nodup) (hfield : field ∈ fields) (hkey : key ∈ field.1) :
    fields.find? (fun field => field.1.contains key) = some field := by
  induction fields with
  | nil => cases hfield
  | cons first rest ih =>
      rw [List.flatMap_cons, List.nodup_append] at hkeys
      obtain ⟨-, hrest, hapart⟩ := hkeys
      rcases List.mem_cons.mp hfield with rfl | hfield
      · exact List.find?_cons_of_pos (List.contains_iff_mem.mpr hkey)
      · have hother : key ∉ first.1 := fun hfirst =>
          hapart key hfirst key (List.mem_flatMap.mpr ⟨field, hfield, hkey⟩) rfl
        rw [List.find?_cons_of_neg (by simpa using hother), ih hrest hfield]

theorem member_others {key : String} (h : ∀ field ∈ fields, key ∉ field.1) :
    (record fields true).member key = some full := by
  have hnone : fields.find? (fun field => field.1.contains key) = none := by
    simpa [List.find?_eq_none] using h
  rw [member, hnone]
  rfl

-- Members that are all seen in one shape.
theorem filter_seenMembers {shape inner : Shape} {chosen : String → Bool}
    (h : ∀ key, chosen key = true → shape.member key = some inner)
    (members : List (String × Json)) :
    (shape.seenMembers members).filter (fun member => chosen member.1) =
      (members.filter fun member => chosen member.1).map
        fun member => (member.1, inner.seen member.2) := by
  induction members with
  | nil => rfl
  | cons first rest ih =>
      obtain ⟨key, value⟩ := first
      cases hkey : chosen key with
      | true => simp only [seenMembers, h key hkey, List.filter_cons, hkey, if_true, List.map_cons, ih]
      | false =>
          cases hmember : shape.member key <;>
            simp only [seenMembers, hmember, List.filter_cons, hkey, Bool.false_eq_true, if_false, ih]

theorem given?_seenMembers {shape inner : Shape} {keys : List String}
    (h : ∀ key ∈ keys, shape.member key = some inner) (members : List (String × Json)) :
    given? (shape.seenMembers members) keys = (given? members keys).map (Option.map inner.seen) := by
  have hfilter := filter_seenMembers (fun key hkey => h key (List.contains_iff_mem.mp hkey)) members
  rw [given?, hfilter, given?]
  generalize members.filter (fun member => keys.contains member.1) = found
  rcases found with _ | ⟨first, _ | ⟨second, rest⟩⟩ <;> rfl

-- What is seen of the fields of a record.
def seenFields (fields : List (List String × Shape)) (given : List (Option Json)) :
    List (Option Json) :=
  List.zipWith (fun field value => value.map field.2.seen) fields given

theorem seenFields_replicate (fields : List (List String × Shape)) :
    seenFields fields (List.replicate fields.length none) = List.replicate fields.length none := by
  induction fields with
  | nil => rfl
  | cons field rest ih => exact congrArg (none :: ·) ih

theorem length_seenItems (shape : Shape) (items : List Json) (index : Nat) :
    (shape.seenItems index items).length = items.length := by
  induction items generalizing index with
  | nil => rfl
  | cons first rest ih => simp [seenItems, ih]

-- In a record that is an array, the items stand for the fields from some place on.
theorem seenFields_items {items : List Json} {rest : List (List String × Shape)} {index : Nat}
    (hlength : items.length ≤ rest.length) (hrest : fields.drop index = rest) :
    seenFields rest (items.map some ++ List.replicate (rest.length - items.length) none) =
      ((record fields others).seenItems index items).map some ++
        List.replicate (rest.length - items.length) none := by
  induction items generalizing rest index with
  | nil => exact seenFields_replicate rest
  | cons first items ih =>
      cases rest with
      | nil => cases hlength
      | cons field rest =>
          have hfield : fields[index]? = some field := by
            rw [← List.head?_drop, hrest, List.head?_cons]
          have hnext : fields.drop (index + 1) = rest := by
            rw [← List.tail_drop, hrest, List.tail_cons]
          have htail := ih (Nat.le_of_succ_le_succ hlength) hnext
          rw [seenItems, item, hfield, List.length_cons, List.length_cons, Nat.add_sub_add_right]
          exact congrArg (some (field.2.seen first) :: ·) htail

theorem mapM_given?_seenMembers {shape : Shape}
    (h : ∀ field ∈ fields, ∀ key ∈ field.1, shape.member key = some field.2)
    (members : List (String × Json)) :
    (fields.map Prod.fst).mapM (given? (shape.seenMembers members)) =
      ((fields.map Prod.fst).mapM (given? members)).map (seenFields fields) := by
  induction fields with
  | nil => rfl
  | cons field rest ih =>
      obtain ⟨hfirst, hrest⟩ := List.forall_mem_cons.mp h
      rw [List.map_cons, List.mapM_cons, List.mapM_cons, given?_seenMembers hfirst, ih hrest]
      cases given? members field.1 with
      | none => rfl
      | some value => cases (rest.map Prod.fst).mapM (given? members) <;> rfl

theorem record?_seen (hkeys : (fields.flatMap Prod.fst).Nodup) (value : Json) :
    ((record fields others).seen value).record? (fields.map Prod.fst) =
      (value.record? (fields.map Prod.fst)).map (seenFields fields) := by
  cases value with
  | object members =>
      have hfields : ∀ field ∈ fields, ∀ key ∈ field.1,
          (record fields others).member key = some field.2 := by
        intro field hfield key hkey
        rw [member, find?_field hkeys hfield hkey]
      rw [seen, record?_object, record?_object, mapM_given?_seenMembers hfields]
  | array items =>
      rw [seen, Json.record?, Json.record?, length_seenItems, List.length_map]
      split
      · rename_i hlength
        rw [Option.map_some, seenFields_items hlength List.drop_zero]
      · rfl
  | _ => rfl

-- A reader of records needs no more than its fields show it.
theorem suffices_record {α : Type} {decode : Json → Option α}
    {fromFields : List (Option Json) → Option α} (hkeys : (fields.flatMap Prod.fst).Nodup)
    (hdecode : ∀ value, decode value = (value.record? (fields.map Prod.fst)).bind fromFields)
    (h : ∀ given, given.length = fields.length →
      fromFields (seenFields fields given) = fromFields given) :
    (record fields others).Suffices decode := by
  intro value
  rw [hdecode, hdecode, record?_seen hkeys]
  cases hgiven : value.record? (fields.map Prod.fst) with
  | none => rfl
  | some given => exact h given ((length_of_record? hgiven).trans (List.length_map _))

end Record

end Shape

end Rollout.Json
