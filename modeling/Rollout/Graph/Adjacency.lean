import Rollout.Names

namespace Rollout

-- The neighbours of names, in one direction.
abbrev Adjacency := NameMap NameSet

namespace Adjacency

-- A name without a row has no neighbours.
def neighbours (rows : Adjacency) (name : String) : NameSet := (rows[name]?).getD ∅

-- A row for a name. One that is there stays.
def ensure (rows : Adjacency) (name : String) : Adjacency :=
  rows.alter name fun row => some (row.getD ∅)

-- A neighbour in the row of a name. There is none in a row that is not there.
def link (rows : Adjacency) (name neighbour : String) : Adjacency :=
  rows.modify name fun row => row.insert neighbour

def unlink (rows : Adjacency) (name neighbour : String) : Adjacency :=
  rows.modify name fun row => row.erase neighbour

-- A neighbour taken out of the rows of several names.
def unlinkAll (rows : Adjacency) (names : List String) (neighbour : String) : Adjacency :=
  names.foldl (fun rest name => rest.unlink name neighbour) rows

theorem mem_of_mem_neighbours {rows : Adjacency} {name neighbour : String}
    (h : neighbour ∈ rows.neighbours name) : name ∈ rows := by
  cases hr : rows[name]? with
  | none => simp [neighbours, hr] at h
  | some row => exact Std.ExtTreeMap.mem_iff_isSome_getElem?.mpr (by rw [hr]; rfl)

theorem getElem?_eq (rows : Adjacency) (name : String) :
    rows[name]? = if name ∈ rows then some (rows.neighbours name) else none := by
  simp only [neighbours, Std.ExtTreeMap.mem_iff_isSome_getElem?]
  cases rows[name]? <;> rfl

-- Nothing tells apart rows that have the same names and neighbours.
theorem eq_of_neighbours {rows others : Adjacency} (hkey : ∀ name, name ∈ rows ↔ name ∈ others)
    (hrow : ∀ name, rows.neighbours name = others.neighbours name) : rows = others := by
  refine Std.ExtTreeMap.ext_getElem? fun name => ?_
  simp only [getElem?_eq, hrow, hkey]

theorem toList_eq (rows : Adjacency) :
    rows.toList = rows.keys.map fun name => (name, rows.neighbours name) := by
  rw [← Std.ExtTreeMap.map_fst_toList_eq_keys, List.map_map]
  refine (List.map_id _).symm.trans (List.map_congr_left fun row hm => ?_)
  have hr : rows[row.1]? = some row.2 := Std.ExtTreeMap.mem_toList_iff_getElem?_eq_some.mp hm
  simp [neighbours, hr]

variable (rows : Adjacency) (name neighbour n x : String)

@[simp] theorem mem_ensure : n ∈ rows.ensure name ↔ n = name ∨ n ∈ rows := by
  simp only [ensure, Std.ExtTreeMap.mem_iff_isSome_getElem?, Std.ExtTreeMap.getElem?_alter,
    Std.compare_eq_iff_eq]
  by_cases h : name = n
  · simp [h]
  · simp [h, Ne.symm h]

@[simp] theorem neighbours_ensure : (rows.ensure name).neighbours n = rows.neighbours n := by
  simp only [ensure, neighbours, Std.ExtTreeMap.getElem?_alter, Std.compare_eq_iff_eq]
  split
  · rename_i h
    rw [h, Option.getD_some]
  · rfl

@[simp] theorem mem_link : n ∈ rows.link name neighbour ↔ n ∈ rows := Std.ExtTreeMap.mem_modify

@[simp] theorem mem_unlink : n ∈ rows.unlink name neighbour ↔ n ∈ rows := Std.ExtTreeMap.mem_modify

-- A change of one row shows in that row only, and only if it is there.
theorem neighbours_modify (change : NameSet → NameSet) :
    neighbours (rows.modify name change) n =
      if name = n ∧ n ∈ rows then change (rows.neighbours n) else rows.neighbours n := by
  simp only [neighbours, Std.ExtTreeMap.getElem?_modify, Std.compare_eq_iff_eq,
    Std.ExtTreeMap.mem_iff_isSome_getElem?]
  by_cases h : name = n
  · subst h
    cases rows[name]? <;> simp
  · simp [h]

theorem mem_neighbours_link :
    x ∈ (rows.link name neighbour).neighbours n ↔
      x ∈ rows.neighbours n ∨ n = name ∧ x = neighbour ∧ n ∈ rows := by
  rw [link, neighbours_modify]
  split
  · rename_i h
    simp [Std.ExtTreeSet.mem_insert, h.1, h.2, or_comm, eq_comm (a := x)]
  · rename_i h
    exact (or_iff_left fun hn => h ⟨hn.1.symm, hn.2.2⟩).symm

theorem mem_neighbours_unlink :
    x ∈ (rows.unlink name neighbour).neighbours n ↔
      x ∈ rows.neighbours n ∧ ¬ (n = name ∧ x = neighbour) := by
  rw [unlink, neighbours_modify]
  split
  · rename_i h
    simp [Std.ExtTreeSet.mem_erase, h.1, and_comm, eq_comm (a := x)]
  · rename_i h
    refine (and_iff_left_of_imp ?_).symm
    rintro hx ⟨rfl, -⟩
    exact h ⟨rfl, mem_of_mem_neighbours hx⟩

@[simp] theorem mem_unlinkAll (names : List String) : n ∈ rows.unlinkAll names neighbour ↔ n ∈ rows :=
  List.foldlRecOn names _ (motive := fun rest : Adjacency => n ∈ rest ↔ n ∈ rows) Iff.rfl
    fun rest hrest name _ => (rest.mem_unlink name neighbour n).trans hrest

theorem mem_neighbours_unlinkAll (names : List String) :
    x ∈ (rows.unlinkAll names neighbour).neighbours n ↔
      x ∈ rows.neighbours n ∧ ¬ (n ∈ names ∧ x = neighbour) := by
  unfold unlinkAll
  induction names generalizing rows with
  | nil => simp
  | cons name names ih =>
      rw [List.foldl_cons, ih, mem_neighbours_unlink, List.mem_cons]
      grind

theorem neighbours_erase :
    neighbours (rows.erase name) n = if name = n then ∅ else rows.neighbours n := by
  simp only [neighbours, Std.ExtTreeMap.getElem?_erase, Std.compare_eq_iff_eq]
  split <;> rfl

end Adjacency

end Rollout
