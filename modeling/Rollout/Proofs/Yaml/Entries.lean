import Rollout.Yaml

namespace Rollout.YamlEntries

theorem isKey_eq_true_iff (key : String) (found : Yaml) :
    isKey key found = true ↔ found = .string key := by
  cases found <;> simp [isKey]

variable {entries : List (Yaml × Yaml)} {key other : String} {value : Yaml}

theorem contains_eq_true_iff :
    contains entries key = true ↔ .string key ∈ entries.map Prod.fst := by
  simp only [contains, List.any_eq_true, isKey_eq_true_iff, List.mem_map]

theorem contains_append (front back : List (Yaml × Yaml)) :
    contains (front ++ back) key = (contains front key || contains back key) :=
  List.any_append

theorem contains_singleton : contains [(.string other, value)] key = (other == key) :=
  Bool.or_false _

theorem get?_cons_of_key (rest : List (Yaml × Yaml)) :
    get? ((.string key, value) :: rest) key = some value := by
  simp [get?, isKey]

theorem get?_cons_of_ne {found : Yaml} (h : found ≠ .string key) (rest : List (Yaml × Yaml)) :
    get? ((found, value) :: rest) key = get? rest key := by
  have hkey : ¬ isKey key found = true := mt (isKey_eq_true_iff key found).mp h
  simp [get?, hkey]

theorem set_cons_of_key (old : Yaml) (rest : List (Yaml × Yaml)) :
    set ((.string key, old) :: rest) key value = (.string key, value) :: rest := by
  simp [set, isKey]

theorem set_cons_of_ne {found old : Yaml} (h : found ≠ .string key) (rest : List (Yaml × Yaml)) :
    set ((found, old) :: rest) key value = (found, old) :: set rest key value := by
  rw [set, if_neg (mt (isKey_eq_true_iff key found).mp h)]

-- Induction along the entries up to the first one under a key.
theorem set_induction (key : String) {motive : List (Yaml × Yaml) → Prop} (nil : motive [])
    (here : ∀ value rest, motive ((.string key, value) :: rest))
    (later : ∀ found value rest, found ≠ .string key → motive rest → motive ((found, value) :: rest))
    (entries : List (Yaml × Yaml)) : motive entries := by
  induction entries with
  | nil => exact nil
  | cons entry rest ih =>
      by_cases hkey : entry.1 = .string key
      · obtain ⟨found, value⟩ := entry
        obtain rfl : found = .string key := hkey
        exact here value rest
      · exact later entry.1 entry.2 rest hkey ih

theorem get?_set (entries : List (Yaml × Yaml)) (key : String) (value : Yaml) :
    get? (set entries key value) key = some value := by
  induction entries using set_induction key with
  | nil => exact get?_cons_of_key []
  | here old rest => rw [set_cons_of_key, get?_cons_of_key]
  | later found old rest hkey ih => rw [set_cons_of_ne hkey, get?_cons_of_ne hkey, ih]

theorem get?_set_of_ne (h : key ≠ other) (entries : List (Yaml × Yaml)) (value : Yaml) :
    get? (set entries key value) other = get? entries other := by
  have hkey : Yaml.string key ≠ .string other := fun hsame => h (Yaml.string.inj hsame)
  induction entries using set_induction key with
  | nil => exact get?_cons_of_ne hkey []
  | here old rest => rw [set_cons_of_key, get?_cons_of_ne hkey, get?_cons_of_ne hkey]
  | later found old rest hfound ih =>
      rw [set_cons_of_ne hfound]
      by_cases hother : found = .string other
      · rw [hother, get?_cons_of_key, get?_cons_of_key]
      · rw [get?_cons_of_ne hother, get?_cons_of_ne hother, ih]

theorem set_eq_self (h : get? entries key = some value) : set entries key value = entries := by
  induction entries using set_induction key with
  | nil => cases h
  | here old rest =>
      rw [get?_cons_of_key] at h
      cases h
      exact set_cons_of_key _ rest
  | later found old rest hkey ih =>
      rw [get?_cons_of_ne hkey] at h
      rw [set_cons_of_ne hkey, ih h]

theorem set_set (entries : List (Yaml × Yaml)) (key : String) (value later : Yaml) :
    set (set entries key value) key later = set entries key later := by
  induction entries using set_induction key with
  | nil => exact set_cons_of_key value []
  | here old rest => rw [set_cons_of_key, set_cons_of_key, set_cons_of_key]
  | later found old rest hkey ih =>
      rw [set_cons_of_ne hkey, set_cons_of_ne hkey, set_cons_of_ne hkey, ih]

theorem contains_eq_isSome (entries : List (Yaml × Yaml)) (key : String) :
    contains entries key = (get? entries key).isSome := by
  rw [get?, Option.isSome_map, List.isSome_find?]
  rfl

theorem set_of_not_contains (h : contains entries key = false) (value : Yaml) :
    set entries key value = entries ++ [(.string key, value)] := by
  induction entries using set_induction key with
  | nil => rfl
  | here old rest => simp [contains, isKey] at h
  | later found old rest hkey ih =>
      rw [set_cons_of_ne hkey, List.cons_append, ih (Bool.or_eq_false_iff.mp h).2]

-- What entries that are set under some keys keep of those before them: the keys stay in their
-- order and the missing ones come behind them, and the entries under other keys stay as they are.
structure Keeps (keys : List String) (before after : List (Yaml × Yaml)) : Prop where
  keys_eq : after.map Prod.fst =
    before.map Prod.fst ++ (keys.filter fun key => !contains before key).map Yaml.string
  entry_eq : ∀ (place : Nat) (entry : Yaml × Yaml), before[place]? = some entry →
    (∀ key ∈ keys, entry.1 ≠ .string key) → after[place]? = some entry

theorem map_fst_set (entries : List (Yaml × Yaml)) (key : String) (value : Yaml) :
    (set entries key value).map Prod.fst =
      entries.map Prod.fst ++ if contains entries key then [] else [.string key] := by
  induction entries using set_induction key with
  | nil => rfl
  | here old rest =>
      rw [set_cons_of_key, contains_eq_true_iff.mpr List.mem_cons_self, if_pos rfl, List.append_nil]
      rfl
  | later found old rest hkey ih =>
      have hrest : contains ((found, old) :: rest) key = contains rest key := by
        rw [Bool.eq_iff_iff, contains_eq_true_iff, contains_eq_true_iff, List.map_cons,
          List.mem_cons, or_iff_right (Ne.symm hkey)]
      rw [set_cons_of_ne hkey, List.map_cons, ih, hrest, List.map_cons, List.cons_append]

theorem getElem?_set_of_ne (key : String) (value : Yaml) {place : Nat} {entry : Yaml × Yaml}
    (h : entries[place]? = some entry) (hkey : entry.1 ≠ .string key) :
    (set entries key value)[place]? = some entry := by
  induction entries using set_induction key generalizing place with
  | nil => cases h
  | here old rest =>
      rw [set_cons_of_key]
      cases place with
      | zero =>
          cases h
          exact absurd rfl hkey
      | succ place => exact h
  | later found old rest hfound ih =>
      rw [set_cons_of_ne hfound]
      cases place with
      | zero => exact h
      | succ place => exact ih h

theorem keeps_set (entries : List (Yaml × Yaml)) (key : String) (value : Yaml) :
    Keeps [key] entries (set entries key value) where
  keys_eq := by
    rw [map_fst_set]
    cases hkey : contains entries key <;> simp [hkey]
  entry_eq place entry h hkey := getElem?_set_of_ne key value h (hkey key List.mem_cons_self)

theorem Keeps.contains_eq {keys : List String} {before after : List (Yaml × Yaml)}
    (h : Keeps keys before after) (hkey : key ∉ keys) : contains after key = contains before key := by
  have hnew : Yaml.string key ∉
      (keys.filter fun key => !contains before key).map Yaml.string := by
    intro hm
    obtain ⟨other, hother, hsame⟩ := List.mem_map.mp hm
    exact hkey (Yaml.string.inj hsame ▸ (List.mem_filter.mp hother).1)
  rw [Bool.eq_iff_iff, contains_eq_true_iff, contains_eq_true_iff, h.keys_eq, List.mem_append,
    or_iff_left hnew]

theorem Keeps.trans {keys later : List String} {before between after : List (Yaml × Yaml)}
    (h : Keeps keys before between) (hlater : Keeps later between after)
    (hapart : ∀ key ∈ later, key ∉ keys) : Keeps (keys ++ later) before after where
  keys_eq := by
    have hmissing : later.filter (fun key => !contains between key) =
        later.filter fun key => !contains before key :=
      List.filter_congr fun key hkey => by rw [h.contains_eq (hapart key hkey)]
    rw [hlater.keys_eq, h.keys_eq, hmissing, List.filter_append, List.map_append, List.append_assoc]
  entry_eq place entry hentry hkeys := by
    obtain ⟨hfirst, hsecond⟩ := List.forall_mem_append.mp hkeys
    exact hlater.entry_eq place entry (h.entry_eq place entry hentry hfirst) hsecond

end Rollout.YamlEntries
