/-!
# Rows in ascending order

Sets of names, tables and graphs hold rows in ascending order of a key, one row for each key. One
pass finds the place of a key and changes what is there, and it keeps the order.
-/

namespace BuildScript

/-- Puts `f` of the row with the key `k`, or of nothing, at the place of the key. -/
def place {α : Type} (key : α → String) (k : String) (f : Option α → α) : List α → List α
  | [] => [f none]
  | row :: rest =>
    if k < key row then f none :: row :: rest
    else if k = key row then f (some row) :: rest
    else row :: place key k f rest

namespace Names

/-- Adds a name to a set. -/
def insert (name : String) (set : List String) : List String := place id name (fun _ => name) set

/-- Adds every name of a list to a set. -/
def insertAll (names set : List String) : List String :=
  names.foldl (fun set name => insert name set) set

/-- The set of the names in a list. -/
def ofList (names : List String) : List String := insertAll names []

/-- The names ascend, so none occurs twice. -/
def Ascending (names : List String) : Prop := names.Pairwise (· < ·)

instance (names : List String) : Decidable (Ascending names) :=
  inferInstanceAs (Decidable (names.Pairwise (· < ·)))

@[simp] theorem mem_insert {x name : String} {set : List String} :
    x ∈ insert name set ↔ x = name ∨ x ∈ set := by
  rw [insert]
  induction set with
  | nil => simp [place]
  | cons first rest ih =>
    rw [place]
    split
    · simp
    · split
      · rename_i h
        simp [h]
      · simp only [List.mem_cons, ih]
        grind

theorem ascending_nil : Ascending [] := List.Pairwise.nil

theorem Ascending.insert {set : List String} (h : Ascending set) (name : String) :
    Ascending (Names.insert name set) := by
  induction set with
  | nil => exact List.pairwise_singleton _ _
  | cons first rest ih =>
    obtain ⟨hfirst, hrest⟩ := List.pairwise_cons.mp h
    rw [Names.insert, place]
    split
    · rename_i hlt
      refine List.pairwise_cons.mpr ⟨?_, h⟩
      rw [List.forall_mem_cons]
      exact ⟨hlt, fun other hother => String.lt_trans hlt (hfirst other hother)⟩
    · rename_i hnlt
      split
      · rename_i heq
        rw [heq]
        exact h
      · rename_i hne
        have hgt : first < name := Std.lt_of_le_of_ne (String.not_lt.mp hnlt) (Ne.symm hne)
        refine List.pairwise_cons.mpr ⟨?_, ih hrest⟩
        intro other hother
        obtain rfl | hother := mem_insert.mp hother
        · exact hgt
        · exact hfirst other hother

theorem Ascending.insertAll {set : List String} (h : Ascending set) (names : List String) :
    Ascending (Names.insertAll names set) := by
  induction names generalizing set with
  | nil => exact h
  | cons name names ih => exact ih (h.insert name)

theorem ascending_ofList (names : List String) : Ascending (Names.ofList names) :=
  ascending_nil.insertAll names

end Names

section Place

variable {α : Type} {key : α → String} {k : String} {f : Option α → α}

theorem keys_place (hf : ∀ row, key (f row) = k) (rows : List α) :
    (place key k f rows).map key = Names.insert k (rows.map key) := by
  rw [Names.insert]
  induction rows with
  | nil => simp [place, hf]
  | cons row rest ih =>
    simp only [place, List.map_cons, id_eq]
    split
    · simp [hf]
    · split
      · simp [hf]
      · rw [List.map_cons, ih]

theorem ascending_place (hf : ∀ row, key (f row) = k) {rows : List α}
    (h : Names.Ascending (rows.map key)) : Names.Ascending ((place key k f rows).map key) := by
  rw [keys_place hf]
  exact h.insert k

end Place

@[ext]
structure NameSet where
  names : List String
  ascending : Names.Ascending names
  deriving DecidableEq, Repr

namespace NameSet

def empty : NameSet := ⟨[], Names.ascending_nil⟩

def insertAll (names : List String) (set : NameSet) : NameSet :=
  ⟨Names.insertAll names set.names, set.ascending.insertAll names⟩

def ofList (names : List String) : NameSet := ⟨Names.ofList names, Names.ascending_ofList names⟩

end NameSet

@[ext]
structure Table (α : Type) where
  entries : List (String × α)
  ascending : Names.Ascending (entries.map Prod.fst)
  deriving DecidableEq, Repr

namespace Table

variable {α : Type}

def empty : Table α := ⟨[], Names.ascending_nil⟩

def get? (key : String) (table : Table α) : Option α :=
  (table.entries.find? fun entry => entry.1 = key).map Prod.snd

/-- Changes the entry of a key, or makes one from the value `f none`. -/
def update (key : String) (f : Option α → α) (table : Table α) : Table α :=
  ⟨place Prod.fst key (fun entry => (key, f (entry.map Prod.snd))) table.entries,
    ascending_place (by simp) table.ascending⟩

def put (key : String) (a : α) (table : Table α) : Table α := table.update key fun _ => a

/-- Makes an entry, unless the key has one. -/
def putNew (key : String) (a : α) (table : Table α) : Table α :=
  table.update key fun old => old.getD a

end Table

end BuildScript
