import BuildScript.Ordered
import Mathlib.Data.List.Sort
import Mathlib.Data.String.Basic

/-!
# Rows in ascending order

What is kept in ascending order is determined by what stands at each key. So it does not matter in
which order it was filled, and two tables are the same if nothing that is looked up in them differs.
-/

namespace BuildScript

namespace Names

@[simp] theorem mem_insertAll {x : String} {names set : List String} :
    x ∈ insertAll names set ↔ x ∈ names ∨ x ∈ set := by
  induction names generalizing set with
  | nil => simp [insertAll]
  | cons name names ih =>
    have hstep : insertAll (name :: names) set = insertAll names (insert name set) := rfl
    rw [hstep, ih, mem_insert, List.mem_cons]
    tauto

@[simp] theorem mem_ofList {x : String} {names : List String} : x ∈ ofList names ↔ x ∈ names := by
  simp [ofList]

theorem Ascending.ext {names others : List String} (h : Ascending names) (h' : Ascending others)
    (hmem : ∀ name, name ∈ names ↔ name ∈ others) : names = others :=
  List.Pairwise.eq_of_mem_iff h h' hmem

end Names

namespace NameSet

variable {set other : NameSet} {names names' : List String} {name : String}

theorem ext_mem (h : ∀ name, name ∈ set.names ↔ name ∈ other.names) : set = other :=
  NameSet.ext (set.ascending.ext other.ascending h)

@[simp] theorem mem_insertAll :
    name ∈ (set.insertAll names).names ↔ name ∈ names ∨ name ∈ set.names :=
  Names.mem_insertAll

@[simp] theorem mem_ofList : name ∈ (ofList names).names ↔ name ∈ names := Names.mem_ofList

theorem ofList_perm (h : names.Perm names') : ofList names = ofList names' := by
  apply ext_mem
  intro name
  rw [mem_ofList, mem_ofList, h.mem_iff]

theorem ofList_append (names names' : List String) :
    ofList (names ++ names') = (ofList names).insertAll names' := by
  apply ext_mem
  intro name
  rw [mem_ofList, mem_insertAll, mem_ofList, List.mem_append, or_comm]

theorem insertAll_comm (names names' : List String) (set : NameSet) :
    (set.insertAll names).insertAll names' = (set.insertAll names').insertAll names := by
  apply ext_mem
  intro name
  simp only [mem_insertAll]
  tauto

end NameSet

section Rows

variable {α : Type} {key : α → String} {k : String} {f : Option α → α}
    {rows others : List α} {row : α}

theorem find?_of_mem (h : Names.Ascending (rows.map key)) (hrow : row ∈ rows) :
    rows.find? (fun other => key other = key row) = some row := by
  induction rows with
  | nil => cases hrow
  | cons first rest ih =>
    obtain ⟨hfirst, hrest⟩ := List.pairwise_cons.mp h
    obtain rfl | hrow := List.mem_cons.mp hrow
    · exact List.find?_cons_of_pos (decide_eq_true rfl)
    · have hlt : key first < key row := hfirst _ (List.mem_map_of_mem hrow)
      rw [List.find?_cons_of_neg (by simp [hlt.ne]), ih hrest hrow]

theorem mem_iff_find? (h : Names.Ascending (rows.map key)) :
    row ∈ rows ↔ rows.find? (fun other => key other = key row) = some row :=
  ⟨find?_of_mem h, List.mem_of_find?_eq_some⟩

/-- Rows in ascending order are determined by what stands at each key. -/
theorem eq_of_find? (h : Names.Ascending (rows.map key)) (h' : Names.Ascending (others.map key))
    (hfind : ∀ k, rows.find? (fun row => key row = k) = others.find? fun row => key row = k) :
    rows = others := by
  rw [Names.Ascending, List.pairwise_map] at h h'
  have : Std.Asymm fun a b : α => key a < key b := ⟨fun _ _ => lt_asymm⟩
  have : Std.Irrefl fun a b : α => key a < key b := ⟨fun _ => lt_irrefl _⟩
  apply List.Pairwise.eq_of_mem_iff h h'
  intro row
  rw [mem_iff_find? (List.pairwise_map.mpr h), mem_iff_find? (List.pairwise_map.mpr h'), hfind]

/-- A change concerns the row of its key only. -/
theorem find?_place (hf : ∀ row, key (f row) = k) (h : Names.Ascending (rows.map key))
    (other : String) :
    (place key k f rows).find? (fun row => key row = other) =
      if k = other then some (f (rows.find? fun row => key row = k))
      else rows.find? fun row => key row = other := by
  induction rows with
  | nil => by_cases hk : k = other <;> simp [place, hf, hk]
  | cons first rest ih =>
    obtain ⟨hfirst, hrest⟩ := List.pairwise_cons.mp h
    rw [place]
    by_cases hlt : k < key first
    · -- All that follows is behind the key.
      have hnone : (first :: rest).find? (fun row => decide (key row = k)) = none := by
        simp only [List.find?_eq_none, List.forall_mem_cons, decide_eq_true_eq]
        exact ⟨hlt.ne', fun row hrow => (hlt.trans (hfirst _ (List.mem_map_of_mem hrow))).ne'⟩
      rw [if_pos hlt, hnone]
      by_cases hk : k = other
      · rw [if_pos hk, List.find?_cons_of_pos (by simp [hf, hk])]
      · rw [if_neg hk, List.find?_cons_of_neg (by simp [hf, hk])]
    · rw [if_neg hlt]
      by_cases heq : k = key first
      · by_cases hk : k = other <;> simp [← heq, hf, hk]
      · rw [if_neg heq, List.find?_cons, ih hrest, List.find?_cons, List.find?_cons]
        by_cases hfirst' : key first = other
        · have hk : k ≠ other := fun hk => heq (hk.trans hfirst'.symm)
          simp [hfirst', hk]
        · simp [hfirst', Ne.symm heq]

end Rows

namespace Table

variable {α : Type} {table other : Table α} {key : String} {f g : Option α → α}

theorem ext_get? (h : ∀ key, table.get? key = other.get? key) : table = other := by
  apply Table.ext
  apply eq_of_find? table.ascending other.ascending
  intro k
  have hvalue := h k
  simp only [get?] at hvalue
  cases hfound : table.entries.find? fun entry => entry.1 = k with
  | none =>
    rw [hfound, Option.map_none, eq_comm, Option.map_eq_none_iff] at hvalue
    exact hvalue.symm
  | some entry =>
    rw [hfound, Option.map_some, eq_comm, Option.map_eq_some_iff] at hvalue
    obtain ⟨entry', hfound', hsnd⟩ := hvalue
    have hkey : entry.1 = k := by simpa using List.find?_some hfound
    have hkey' : entry'.1 = k := by simpa using List.find?_some hfound'
    rw [hfound', Prod.ext (hkey.trans hkey'.symm) hsnd.symm]

@[simp] theorem get?_empty (key : String) : (empty : Table α).get? key = none := rfl

@[simp] theorem get?_update (table : Table α) (key : String) (f : Option α → α) (k : String) :
    (table.update key f).get? k = if key = k then some (f (table.get? key)) else table.get? k := by
  have hkey : ∀ entry : Option (String × α), Prod.fst (key, f (entry.map Prod.snd)) = key := by simp
  simp only [get?, update, find?_place hkey table.ascending]
  split_ifs <;> rfl

@[simp] theorem get?_put (table : Table α) (key : String) (a : α) (k : String) :
    (table.put key a).get? k = if key = k then some a else table.get? k := by
  rw [put, get?_update]

@[simp] theorem get?_putNew (table : Table α) (key : String) (a : α) (k : String) :
    (table.putNew key a).get? k = if key = k then some ((table.get? key).getD a)
      else table.get? k := by
  rw [putNew, get?_update]

/-- Changes commute if they do at one key. -/
theorem update_comm (h : ∀ a, f (some (g a)) = g (some (f a))) (table : Table α)
    (key key' : String) :
    (table.update key' g).update key f = (table.update key f).update key' g := by
  apply ext_get?
  intro k
  grind [get?_update]

def tabulate (names : NameSet) (value : String → α) : Table α :=
  ⟨names.names.map fun name => (name, value name),
    by simpa [Function.comp_def] using names.ascending⟩

@[simp] theorem get?_tabulate (names : NameSet) (value : String → α) (key : String) :
    (tabulate names value).get? key = if key ∈ names.names then some (value key) else none := by
  rw [tabulate, get?]
  split_ifs with hkey
  · have hentry : (key, value key) ∈ names.names.map fun name => (name, value name) :=
      List.mem_map_of_mem hkey
    rw [find?_of_mem (by simpa [Function.comp_def] using names.ascending) hentry]
    rfl
  · rw [List.find?_eq_none.mpr (by rintro _ hentry; grind), Option.map_none]

end Table

end BuildScript
