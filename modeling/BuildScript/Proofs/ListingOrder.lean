import BuildScript.Proofs.DirectoryWalks
import BuildScript.Proofs.Lists
import Mathlib.Data.List.Lex
import Mathlib.Data.String.Basic

/-!
# The order of listings

A directory may list its entries in any order. The files below a root do not depend on this order
exactly if each of them lies in directories that only one way leads to. Otherwise the first way to a
directory decides which paths its files get, and the order of the listings decides which way is the
first.
-/

namespace BuildScript.FileTree

inductive SameEntry : FileTree → FileTree → Prop
  | file (content : ByteArray) : SameEntry (file content) (file content)
  | link (target : String) : SameEntry (link target) (link target)
  | directory {entries entries' : List (String × FileTree)} :
      (entries.map Prod.fst).Perm (entries'.map Prod.fst) →
      SameEntry (directory entries) (directory entries')

/-- Two trees with the same entries at all locations, which their directories may list in different
orders. -/
def Reordered (tree other : FileTree) : Prop :=
  ∀ location, Option.Rel SameEntry (tree.at? location) (other.at? location)

section Reordering

variable {tree other third : FileTree} {entries entries' : List (String × FileTree)}
    {location : Location}
  {name : String}

theorem SameEntry.refl : ∀ tree, SameEntry tree tree
  | .file content => .file content
  | .link target => .link target
  | .directory _ => .directory (.refl _)

theorem SameEntry.trans (h : SameEntry tree other) (h' : SameEntry other third) :
    SameEntry tree third := by
  cases h with
  | file => exact h'
  | link => exact h'
  | directory h =>
    cases h' with
    | directory h' => exact .directory (h.trans h')

theorem Reordered.refl (tree : FileTree) : Reordered tree tree := by
  intro location
  cases tree.at? location with
  | none => exact .none
  | some entry => exact .some (.refl entry)

theorem Reordered.trans (h : Reordered tree other) (h' : Reordered other third) :
    Reordered tree third := by
  intro location
  have hfirst := h location
  have hsecond := h' location
  generalize tree.at? location = entry at hfirst
  generalize other.at? location = entry' at hfirst hsecond
  cases hfirst with
  | none => exact hsecond
  | some hfirst =>
    generalize third.at? location = entry'' at hsecond
    cases hsecond with
    | some hsecond => exact .some (hfirst.trans hsecond)

/-- What two trees have at one location. -/
theorem Reordered.cases (h : Reordered tree other) (location : Location) :
    tree.at? location = none ∧ other.at? location = none ∨
      (∃ content, tree.at? location = some (file content) ∧
        other.at? location = some (file content)) ∨
      (∃ target, tree.at? location = some (link target) ∧ other.at? location = some (link target)) ∨
      ∃ entries entries', tree.at? location = some (directory entries) ∧
        other.at? location = some (directory entries') ∧
          (entries.map Prod.fst).Perm (entries'.map Prod.fst) := by
  have hentry := h location
  generalize tree.at? location = entry at hentry
  generalize other.at? location = entry' at hentry
  cases hentry with
  | none => exact Or.inl ⟨rfl, rfl⟩
  | some hentry =>
    cases hentry with
    | file content => exact Or.inr (Or.inl ⟨content, rfl, rfl⟩)
    | link target => exact Or.inr (Or.inr (Or.inl ⟨target, rfl, rfl⟩))
    | directory hnames => exact Or.inr (Or.inr (Or.inr ⟨_, _, rfl, rfl, hnames⟩))

theorem Reordered.names (h : Reordered tree other) (location : Location) :
    (tree.names location).Perm (other.names location) := by
  unfold FileTree.names
  obtain ⟨h₁, h₂⟩ | ⟨_, h₁, h₂⟩ | ⟨_, h₁, h₂⟩ | ⟨_, _, h₁, h₂, hnames⟩ := h.cases location
  · rw [h₁, h₂]
  · rw [h₁, h₂]
  · rw [h₁, h₂]
  · rw [h₁, h₂]
    exact hnames

theorem Reordered.isDirectoryAt (h : Reordered tree other) :
    other.isDirectoryAt = tree.isDirectoryAt := by
  funext location
  unfold FileTree.isDirectoryAt
  obtain ⟨h₁, h₂⟩ | ⟨_, h₁, h₂⟩ | ⟨_, h₁, h₂⟩ | ⟨_, _, h₁, h₂, -⟩ := h.cases location <;>
    rw [h₁, h₂]

theorem at?_concat (h : tree.at? location = some (directory entries)) :
    tree.at? (location ++ [name]) = child? name entries := by
  induction location generalizing tree with
  | nil =>
    cases h
    rw [List.nil_append, at?]
    cases child? name entries <;> rfl
  | cons first rest ih =>
    cases tree with
    | directory entries =>
      rw [at?] at h
      obtain ⟨below, hbelow, h⟩ := Option.bind_eq_some_iff.mp h
      rw [List.cons_append, at?, hbelow]
      exact ih h
    | file content => cases h
    | link target => cases h

theorem Reordered.follow (h : Reordered tree other) (location : Location) (names : List String) :
    other.follow location names = tree.follow location names := by
  induction names generalizing location with
  | nil => rfl
  | cons name names ih =>
    rw [FileTree.follow, FileTree.follow]
    obtain ⟨h₁, h₂⟩ | ⟨_, h₁, h₂⟩ | ⟨_, h₁, h₂⟩ | ⟨entries, entries', h₁, h₂, -⟩ := h.cases location
    · rw [h₁, h₂]
    · rw [h₁, h₂]
    · rw [h₁, h₂]
    · -- Whatever the name stands for in one tree it stands for in the other.
      have hchild := h (location ++ [name])
      rw [at?_concat h₁, at?_concat h₂] at hchild
      simp only [h₁, h₂, ih]
      generalize child? name entries = entry at hchild
      generalize child? name entries' = entry' at hchild
      cases hchild with
      | none => rfl
      | some hchild => cases hchild <;> rfl

theorem Reordered.locateWithin? (h : Reordered tree other) (links : Nat) (base : Location)
    (names : List String) :
    other.locateWithin? links base names = tree.locateWithin? links base names := by
  induction links generalizing base names with
  | zero =>
    rw [FileTree.locateWithin?, FileTree.locateWithin?, h.follow]
  | succ links ih =>
    rw [FileTree.locateWithin?, FileTree.locateWithin?, h.follow]
    cases tree.follow base names with
    | missing => rfl
    | found location => rfl
    | link holder target rest => exact ih _ _

theorem Reordered.directory? (h : Reordered tree other) : other.directory? = tree.directory? := by
  funext base names
  rw [FileTree.directory?, FileTree.directory?, locate?, locate?, h.locateWithin?, h.isDirectoryAt]

theorem Reordered.read? (h : Reordered tree other) (base : Location) (names : List String) :
    other.read? base names = tree.read? base names := by
  unfold FileTree.read? locate?
  rw [h.locateWithin?]
  cases tree.locateWithin? maxLinks base names with
  | none => rfl
  | some location =>
    obtain ⟨h₁, h₂⟩ | ⟨_, h₁, h₂⟩ | ⟨_, h₁, h₂⟩ | ⟨_, _, h₁, h₂, -⟩ := h.cases location <;>
      simp only [Option.bind_eq_bind, Option.bind_some, h₁, h₂]

theorem Reordered.ignoreRules (h : Reordered tree other) (root : Location) :
    other.ignoreRules root = tree.ignoreRules root := by
  rw [FileTree.ignoreRules, FileTree.ignoreRules, h.read?]

end Reordering

section Tours

variable {tree other : FileTree} {skips : Location → Bool → Bool} {root : Location} {v w : Visit}
    {vs : List Visit}

theorem Reordered.below? (h : Reordered tree other) :
    v.below? other skips root = v.below? tree skips root := by
  funext name
  unfold Visit.below?
  rw [h.directory?]

theorem Reordered.mem_children (h : Reordered tree other) :
    w ∈ v.children other skips root ↔ w ∈ v.children tree skips root := by
  rw [FileTree.mem_children, FileTree.mem_children, h.below?]
  simp only [(h.names v.location).mem_iff]

theorem Reordered.files (h : Reordered tree other) :
    (v.files tree skips root).Perm (v.files other skips root) := by
  have hshows : v.shows other skips root = v.shows tree skips root := by
    funext name
    unfold Visit.shows
    rw [h.directory?]
  unfold Visit.files
  rw [hshows]
  exact ((h.names v.location).filter _).map _

theorem Reordered.spans (h : Reordered tree other) {visits : List Visit}
    (hspans : Spans other skips root visits) :
    Spans tree skips root visits where
  once := hspans.once
  placed :=
    fun v hv => (hspans.placed v hv).imp_right fun ⟨u, hu, hv⟩ => ⟨u, hu, h.mem_children.mp hv⟩
  start := hspans.start
  closed := fun v hv w hw => hspans.closed v hv w (h.mem_children.mpr hw)

theorem Reordered.way (h : Reordered tree other) :
    Way other skips root vs ↔ Way tree skips root vs := by
  constructor
  · intro hway
    induction hway with
    | start => exact .start
    | step _ hchild hnew ih => exact ih.step (h.mem_children.mp hchild) hnew
  · intro hway
    induction hway with
    | start => exact .start
    | step _ hchild hnew ih => exact ih.step (h.mem_children.mpr hchild) hnew

end Tours

section Sorting

theorem partsLt_names (a b : Location) :
    Path.partsLt (a.map Path.Part.name) (b.map Path.Part.name) = decide (a < b) := by
  induction a generalizing b with
  | nil => cases b <;> simp [Path.partsLt]
  | cons x a ih =>
    cases b with
    | nil => simp [Path.partsLt]
    | cons y b => simp [Path.partsLt, ih, Path.Part.lt, Path.Part.rank, List.cons_lt_cons_iff]

theorem pathLe_iff {a b : Location} : pathLe a b = true ↔ a ≤ b := by
  rw [pathLe, partsLt_names]
  simp

/-- Sorting leaves nothing of the order in which paths were found. -/
theorem mergeSort_pathLe_eq {paths paths' : List Location} (h : paths.Perm paths') :
    paths.mergeSort pathLe = paths'.mergeSort pathLe := by
  have hsorted : ∀ l : List Location, (l.mergeSort pathLe).Pairwise fun a b =>
      pathLe a b = true := by
    apply List.pairwise_mergeSort
    · intro a b c hab hbc
      exact pathLe_iff.mpr ((pathLe_iff.mp hab).trans (pathLe_iff.mp hbc))
    · intro a b
      rw [Bool.or_eq_true, pathLe_iff, pathLe_iff]
      exact le_total a b
  apply List.Perm.eq_of_pairwise _ (hsorted paths) (hsorted paths')
  · exact (List.mergeSort_perm _ _).trans (h.trans (List.mergeSort_perm _ _).symm)
  · intro a b _ _ hab hba
    exact le_antisymm (pathLe_iff.mp hab) (pathLe_iff.mp hba)

end Sorting

section Independence

variable {tree other : FileTree} {skips : Location → Bool → Bool} {root : Location}

def leavesOut (tree : FileTree) (root : Location) (path : Location) : Bool → Bool :=
  IgnoreRule.ignores (tree.ignoreRules root) (Path.ofNames path)

theorem Reordered.leavesOut (h : Reordered tree other) (root : Location) :
    other.leavesOut root = tree.leavesOut root := by
  unfold FileTree.leavesOut
  rw [h.ignoreRules]

theorem filesBelow_perm (tree : FileTree) (root : Location) : (tree.filesBelow root).Perm
    ((tree.tourFrom (tree.leavesOut root) root).flatMap
      (Visit.files tree (tree.leavesOut root) root)) :=
  (List.mergeSort_perm _ _).trans (walk_files_perm _)

theorem filesBelow_eq_of_perm (h : ((tree.tourFrom (tree.leavesOut root) root).flatMap
      (Visit.files tree (tree.leavesOut root) root)).Perm
    ((other.tourFrom (other.leavesOut root) root).flatMap
      (Visit.files other (other.leavesOut root) root))) :
    tree.filesBelow root = other.filesBelow root :=
  mergeSort_pathLe_eq ((walk_files_perm _).trans (h.trans (walk_files_perm _).symm))

/-- Every file that is found along some way lies in directories that no other way leads to. -/
def Unambiguous (tree : FileTree) (skips : Location → Bool → Bool) (root : Location) : Prop :=
  ∀ v vs, Way tree skips root (v :: vs) → v.files tree skips root ≠ [] →
    ∀ u ∈ v :: vs, u.Only tree skips root

/-- If no file can be found along two ways, then every walk visits the same directories with
files. -/
theorem Unambiguous.mem_of_mem (h : tree.Unambiguous skips root) {visits visits' : List Visit}
    {v : Visit} (hspans : Spans tree skips root visits) (hspans' : Spans tree skips root visits')
    (hfiles : v.files tree skips root ≠ []) (hv : v ∈ visits) : v ∈ visits' := by
  obtain ⟨vs, hway, -⟩ := hspans.toSound.exists_way hv
  exact hspans'.subset_of_only hway (h v vs hway hfiles) List.mem_cons_self

theorem Unambiguous.files_perm (h : tree.Unambiguous skips root) (hre : Reordered tree other) :
    ((tree.tourFrom skips root).flatMap (Visit.files tree skips root)).Perm
      ((other.tourFrom skips root).flatMap (Visit.files other skips root)) := by
  have hspans := spans_tourFrom tree skips root
  have hspans' := hre.spans (spans_tourFrom other skips root)
  have hvisits : ((tree.tourFrom skips root).filter fun v => v.files tree skips root ≠ []).Perm
      ((other.tourFrom skips root).filter fun v => v.files tree skips root ≠ []) := by
    rw [List.perm_ext_iff_of_nodup (hspans.once.of_map.filter _) (hspans'.once.of_map.filter _)]
    intro v
    rw [List.mem_filter, List.mem_filter, decide_eq_true_eq]
    exact ⟨fun ⟨hv, hfiles⟩ => ⟨h.mem_of_mem hspans hspans' hfiles hv, hfiles⟩,
      fun ⟨hv, hfiles⟩ => ⟨h.mem_of_mem hspans' hspans hfiles hv, hfiles⟩⟩
  have hfiles := hvisits.flatMap_right (Visit.files tree skips root)
  rw [flatMap_filter_ne_nil, flatMap_filter_ne_nil] at hfiles
  exact hfiles.trans ((List.Perm.refl _).flatMap fun v _ => hre.files)

end Independence

section Promotion

variable {tree : FileTree} {entries entries' : List (String × FileTree)} {location : Location}
    {name : String}

/-- The entry with a name can be listed first, and then all names lead to the same entries as
before. -/
theorem exists_promoted (h : name ∈ entries.map Prod.fst) :
    ∃ entries' rest, entries'.map Prod.fst = name :: rest ∧
      (entries.map Prod.fst).Perm (entries'.map Prod.fst) ∧
      ∀ other, child? other entries' = child? other entries := by
  obtain ⟨entry, hentry⟩ : ∃ entry, entries.find? (fun entry => entry.1 = name) = some entry := by
    rw [← Option.isSome_iff_exists, List.find?_isSome]
    simpa using h
  obtain ⟨hname, before, after, rfl, hbefore⟩ := List.find?_eq_some_iff_append.mp hentry
  rw [decide_eq_true_eq] at hname
  subst hname
  refine ⟨entry :: (before ++ after), (before ++ after).map Prod.fst, rfl, ?_, ?_⟩
  · exact List.perm_middle.map Prod.fst
  · intro other
    by_cases hother : entry.1 = other
    · have hnone : before.find? (fun e => e.1 = entry.1) = none := by
        simpa using hbefore
      subst hother
      simp [child?, hnone]
    · simp [child?, hother]

theorem rel_reordered_refl : ∀ entry : Option FileTree, Option.Rel Reordered entry entry
  | none => .none
  | some entry => .some (.refl entry)

theorem reordered_directory (hnames : (entries.map Prod.fst).Perm (entries'.map Prod.fst))
    (hchild : ∀ name, Option.Rel Reordered (child? name entries) (child? name entries')) :
    Reordered (directory entries) (directory entries') := by
  intro location
  cases location with
  | nil => exact .some (.directory hnames)
  | cons name rest =>
    have h := hchild name
    rw [at?, at?]
    generalize child? name entries = below at h
    generalize child? name entries' = below' at h
    cases h with
    | none => exact .none
    | some h => exact h rest

theorem map_fst_put (entries : List (String × FileTree)) (name : String) (new : FileTree) :
    (entries.map fun entry => if entry.1 = name then (name, new) else entry).map Prod.fst =
      entries.map Prod.fst := by
  rw [List.map_map]
  apply List.map_congr_left
  intro entry _
  rw [Function.comp_apply]
  split_ifs with hname
  · exact hname.symm
  · rfl

theorem child?_cons (entry : String × FileTree) (entries : List (String × FileTree))
    (name : String) :
    child? name (entry :: entries) = if entry.1 = name then some entry.2
      else child? name entries := by
  unfold child?
  by_cases hname : entry.1 = name
  · simp [hname]
  · simp [hname]

theorem child?_put_of_ne {other : String} (h : other ≠ name) (new : FileTree) :
    child? other (entries.map fun entry => if entry.1 = name then (name, new) else entry) =
      child? other entries := by
  induction entries with
  | nil => rfl
  | cons entry entries ih =>
    rw [List.map_cons, child?_cons, child?_cons, ih]
    by_cases hname : entry.1 = name
    · simp [hname, Ne.symm h]
    · rw [if_neg hname]

theorem child?_put_self {below : FileTree} (h : child? name entries = some below) (new : FileTree) :
    child? name (entries.map fun entry => if entry.1 = name then (name, new) else entry) =
      some new := by
  induction entries with
  | nil => cases h
  | cons entry entries ih =>
    rw [child?_cons] at h
    rw [List.map_cons, child?_cons]
    by_cases hname : entry.1 = name
    · simp [hname]
    · rw [if_neg hname] at h
      rw [if_neg hname, if_neg hname, ih h]

theorem put_cons {below : FileTree} (h : child? name entries = some below) (rest : Location)
    (new : FileTree) :
    (directory entries).put (name :: rest) new =
      directory (entries.map fun entry =>
        if entry.1 = name then (name, below.put rest new) else entry) := by
  rw [put]
  simp only [h]

/-- Another order in one directory is another order in the tree, and all other directories list the
same. -/
theorem reordered_put (hat : tree.at? location = some (directory entries))
    (hnames : (entries.map Prod.fst).Perm (entries'.map Prod.fst))
    (hchild : ∀ name, child? name entries' = child? name entries) :
    Reordered tree (tree.put location (directory entries')) ∧
      (tree.put location (directory entries')).names location = entries'.map Prod.fst ∧
      ∀ other, other ≠ location →
        (tree.put location (directory entries')).names other = tree.names other := by
  induction location generalizing tree with
  | nil =>
    cases hat
    refine ⟨reordered_directory hnames fun name => hchild name ▸ rel_reordered_refl _, rfl, ?_⟩
    intro other hother
    obtain ⟨name, rest, rfl⟩ := List.exists_cons_of_ne_nil hother
    simp only [put, names, at?, hchild]
  | cons first rest ih =>
    cases tree with
    | file content => cases hat
    | link target => cases hat
    | directory siblings =>
      rw [at?] at hat
      obtain ⟨below, hbelow, hat⟩ := Option.bind_eq_some_iff.mp hat
      obtain ⟨hre, hlisted, hothers⟩ := ih hat
      rw [put_cons hbelow]
      refine ⟨reordered_directory (by rw [map_fst_put]) ?_, ?_, ?_⟩
      · intro name
        by_cases hname : name = first
        · subst hname
          rw [hbelow, child?_put_self hbelow]
          exact .some hre
        · rw [child?_put_of_ne hname]
          exact rel_reordered_refl _
      · simpa only [names, at?, child?_put_self hbelow, Option.bind_some] using hlisted
      · intro other hother
        cases other with
        | nil => exact map_fst_put _ _ _
        | cons name others =>
          by_cases hname : name = first
          · subst hname
            have hne : others ≠ rest := fun heq => hother (heq ▸ rfl)
            simpa only [names, at?, child?_put_self hbelow, hbelow,
              Option.bind_some] using hothers others hne
          · simp only [names, at?, child?_put_of_ne hname]

end Promotion

section Straight

variable {tree other : FileTree} {skips : Location → Bool → Bool} {root : Location} {fuel : Nat}
    {v w : Visit}
  {vs : List Visit}

inductive Straight (tree : FileTree) (skips : Location → Bool → Bool) (root : Location) :
    List Visit → Prop
  | start : Straight tree skips root [⟨root, []⟩]
  | step {v w : Visit} {vs : List Visit} : Straight tree skips root (v :: vs) →
      (v.children tree skips root).head? = some w → w.location ∉ (v :: vs).map Visit.location →
      Straight tree skips root (w :: v :: vs)

theorem Straight.way (h : Straight tree skips root vs) : Way tree skips root vs := by
  induction h with
  | start => exact .start
  | step _ hhead hnew ih => exact ih.step (List.mem_of_head? hhead) hnew

/-- The walk from the root goes on along a straight way, and it has used one unit of fuel for each
step. -/
theorem Straight.tour_subset (h : Straight tree skips root (v :: vs)) :
    tour tree skips root fuel v vs ⊆ tour tree skips root (fuel + vs.length) ⟨root, []⟩ [] := by
  generalize hway : v :: vs = way at h
  induction h generalizing v vs fuel with
  | start =>
    cases hway
    exact List.Subset.refl _
  | @step u w us hstraight hhead _ ih =>
    cases hway
    obtain ⟨others, hchildren⟩ := List.head?_eq_some_iff.mp hhead
    have hturn : tour tree skips root fuel w (u :: us) ⊆ tour tree skips root (fuel + 1) u us := by
      rw [tour_of_new hstraight.way.new, hchildren, List.foldl_cons]
      exact subset_foldl_tour (subset_tour fuel) _ _
    have hrest := List.Subset.trans hturn (ih rfl)
    rwa [Nat.add_right_comm, Nat.add_assoc] at hrest

theorem Straight.congr (h : Straight tree skips root (v :: vs))
    (hchildren : ∀ u ∈ vs, u.children other skips root = u.children tree skips root) :
    Straight other skips root (v :: vs) := by
  generalize hway : v :: vs = way at h
  induction h generalizing v vs with
  | start => exact .start
  | step _ hhead hnew ih =>
    cases hway
    rw [List.forall_mem_cons] at hchildren
    exact .step (ih hchildren.2 rfl) (hchildren.1 ▸ hhead) hnew

theorem exists_of_mem_names {location : Location} {name : String} (h : name ∈ tree.names location) :
    ∃ entries, tree.at? location = some (directory entries) := by
  unfold names at h
  split at h
  · exact ⟨_, ‹_›⟩
  · exact absurd h List.not_mem_nil

/-- Every way is straight in some order of the listings. -/
theorem Way.exists_straight (h : Way tree skips root vs) :
    ∃ other, Reordered tree other ∧ Straight other skips root vs := by
  induction h with
  | start => exact ⟨tree, .refl tree, .start⟩
  | @step v w vs hway hchild hnew ih =>
    obtain ⟨other, hre, hstraight⟩ := ih
    obtain ⟨name, hname, hbelow⟩ := mem_children.mp (hre.mem_children.mpr hchild)
    obtain ⟨entries, hat⟩ := exists_of_mem_names hname
    rw [names, hat] at hname
    obtain ⟨entries', rest, hfirst, hnames, hchildren⟩ := exists_promoted hname
    obtain ⟨hre', hlisted, hothers⟩ := reordered_put hat hnames hchildren
    refine ⟨_, hre.trans hre', .step (hstraight.congr ?_) ?_ hnew⟩
    · intro u hu
      have hne : u.location ≠ v.location := fun heq => hway.new (heq ▸ List.mem_map_of_mem hu)
      rw [Visit.children, Visit.children, hothers _ hne, hre'.below?]
    · rw [Visit.children, hlisted, hfirst, hre'.below?, List.filterMap_cons_some hbelow,
        List.head?_cons]

/-- Every way is the one that some order of the listings makes a walk take. -/
theorem Way.exists_mem_tour (h : Way tree skips root (v :: vs)) :
    ∃ other, Reordered tree other ∧ v ∈ other.tourFrom skips root := by
  obtain ⟨other, hre, hstraight⟩ := h.exists_straight
  refine ⟨other, hre, ?_⟩
  have hway := hre.way.mpr h
  have hlength := hway.length_le
  rw [List.length_cons] at hlength
  obtain ⟨fuel, hfuel⟩ : ∃ fuel, other.directoryCount + 1 = fuel + 1 + vs.length :=
    ⟨other.directoryCount - vs.length, by omega⟩
  rw [tourFrom, hfuel]
  exact hstraight.tour_subset (mem_tour_of_new hway.new)

end Straight

section Exactness

variable {tree : FileTree} {skips : Location → Bool → Bool} {root path : Location} {v : Visit}

theorem exists_of_mem_files (h : path ∈ v.files tree skips root) :
    ∃ name, path = v.path ++ [name] := by
  obtain ⟨name, -, rfl⟩ := List.mem_map.mp h
  exact ⟨name, rfl⟩

theorem mem_filesBelow : path ∈ tree.filesBelow root ↔
    ∃ v ∈ tree.tourFrom (tree.leavesOut root) root,
      path ∈ v.files tree (tree.leavesOut root) root := by
  rw [(filesBelow_perm tree root).mem_iff, List.mem_flatMap]

/-- The files below a root are the same in every order of the listings if and only if no file can be
found along two ways. -/
theorem filesBelow_independent_of_order_iff (tree : FileTree) (root : Location) :
    (∀ other, Reordered tree other → other.filesBelow root = tree.filesBelow root) ↔
      tree.Unambiguous (tree.leavesOut root) root := by
  constructor
  · intro hsame v vs hway hfiles u hu w ws hway' hlocation
    obtain ⟨path, hpath⟩ := List.exists_mem_of_ne_nil _ hfiles
    -- One order makes the walk find the file along the way to `v`, another makes it come to `w`.
    obtain ⟨first, hfirst, hv⟩ := hway.exists_mem_tour
    obtain ⟨second, hsecond, hw⟩ := hway'.exists_mem_tour
    have hfound : path ∈ second.filesBelow root := by
      rw [hsame second hsecond, ← hsame first hfirst, mem_filesBelow, hfirst.leavesOut]
      exact ⟨v, hv, hfirst.files.mem_iff.mp hpath⟩
    rw [mem_filesBelow, hsecond.leavesOut] at hfound
    obtain ⟨x, hx, hpath'⟩ := hfound
    have hspans := hsecond.spans (spans_tourFrom second (tree.leavesOut root) root)
    obtain ⟨xs, hxs, hvisited⟩ := hspans.toSound.exists_way hx
    -- So the second walk finds the file along the same way, on which it passes `u`.
    have hnames : x.path = v.path := by
      obtain ⟨name, rfl⟩ := exists_of_mem_files hpath
      obtain ⟨name', heq⟩ := exists_of_mem_files hpath'
      exact (List.append_inj' heq rfl).1.symm
    rw [hxs.eq_of_path hway hnames] at hvisited
    exact hspans.toSound.eq_of_location hw (hvisited hu) hlocation
  · intro h other hre
    symm
    apply filesBelow_eq_of_perm
    rw [hre.leavesOut]
    exact h.files_perm hre

def doubled : FileTree := directory [("a", directory [("x", file ⟨#[]⟩)]), ("b", link "a")]

def doubled' : FileTree := directory [("b", link "a"), ("a", directory [("x", file ⟨#[]⟩)])]

/-- The file in a directory is found under the name that is listed first. -/
theorem filesBelow_depends_on_order : Reordered doubled doubled' ∧
    doubled.filesBelow [] = [["a", "x"]] ∧ doubled'.filesBelow [] = [["b", "x"]] := by
  refine ⟨reordered_directory (.swap _ _ _) ?_, by decide +kernel, by decide +kernel⟩
  intro name
  have hchild : child? name [("b", link "a"), ("a", directory [("x", file ⟨#[]⟩)])] =
      child? name [("a", directory [("x", file ⟨#[]⟩)]), ("b", link "a")] := by
    simp only [child?_cons]
    by_cases hname : "a" = name
    · subst hname
      rfl
    · simp only [hname, if_false]
  rw [hchild]
  exact rel_reordered_refl _

end Exactness

end BuildScript.FileTree
