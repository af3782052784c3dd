import BuildScript.FileTree.Walk
import Mathlib.Algebra.GroupWithZero.Nat
import Mathlib.Data.List.Nodup
import Mathlib.Data.List.Perm.Subperm

/-!
# Walks through directories

A walk lists directories and goes on from each to those that its names lead to, but it lists none
twice. What it lists is given here as a tour: the directories with the names that led to them. All
files that a walk finds are those of the directories on its tour.
-/

namespace BuildScript.FileTree

/-- A directory that a walk comes to, and the names from the root that led it there. -/
structure Visit where
  location : Location
  path : Location
  deriving DecidableEq

namespace Visit

variable (tree : FileTree) (skips : Location → Bool → Bool) (root : Location)

/-- Where a name leads from a visited directory, unless it is a file or left out. -/
def below? (v : Visit) (name : String) : Option Visit :=
  match tree.directory? root (v.path ++ [name]) with
  | some below =>
    if isSkippedDirectoryName name || skips (v.path ++ [name]) true then none
    else some ⟨below, v.path ++ [name]⟩
  | none => none

def children (v : Visit) : List Visit :=
  (tree.names v.location).filterMap (v.below? tree skips root)

def shows (v : Visit) (name : String) : Bool :=
  (tree.directory? root (v.path ++ [name])).isNone && !skips (v.path ++ [name]) false

def files (v : Visit) : List Location :=
  ((tree.names v.location).filter (v.shows tree skips root)).map fun name => v.path ++ [name]

end Visit

section Tours

variable (tree : FileTree) (skips : Location → Bool → Bool) (root : Location)

/-- The visits of a walk, the latest first. -/
def tour : Nat → Visit → List Visit → List Visit
  | 0, _, visits => visits
  | fuel + 1, v, visits =>
    if v.location ∈ visits.map Visit.location then visits
    else (v.children tree skips root).foldl (fun visits w => tour fuel w visits) (v :: visits)

end Tours

section Agreement

variable {tree : FileTree} {skips : Location → Bool → Bool} {root : Location}
    {fuel : Nat} {v : Visit}
  {found found' : Found} {visits visits' : List Visit} {more : List Location}

def occurrences (tree : FileTree) (skips : Location → Bool → Bool) (root : Location)
    (visits : List Visit) (path : Location) : Nat :=
  (visits.flatMap (Visit.files tree skips root)).count path

theorem occurrences_cons (v : Visit) (visits : List Visit) (path : Location) :
    occurrences tree skips root (v :: visits) path =
      (v.files tree skips root).count path + occurrences tree skips root visits path := by
  rw [occurrences, List.flatMap_cons, List.count_append, occurrences]

/-- While the visits become more, a walk lists their directories and finds their files, and some
`more` files in a directory that was visited before. -/
structure Agrees (tree : FileTree) (skips : Location → Bool → Bool) (root : Location)
    (visits visits' : List Visit) (more : List Location) (found found' : Found) : Prop where
  listed : found'.listed = visits'.map Visit.location
  files : ∀ path, found'.files.count path + occurrences tree skips root visits path =
    found.files.count path + occurrences tree skips root visits' path + more.count path

def enter (tree : FileTree) (skips : Location → Bool → Bool) (root : Location) (fuel : Nat)
    (v : Visit) (found : Found) (name : String) : Found :=
  match v.below? tree skips root name with
  | some w => tree.walk skips root fuel w.location w.path found
  | none =>
    if v.shows tree skips root name then
      { found with files := found.files ++ [v.path ++ [name]] } else found

theorem walk_of_listed (h : v.location ∈ found.listed) :
    tree.walk skips root (fuel + 1) v.location v.path found = found := by
  rw [walk, if_pos (by simpa using h)]

theorem walk_of_not_listed (h : v.location ∉ found.listed) :
    tree.walk skips root (fuel + 1) v.location v.path found =
      (tree.names v.location).foldl (enter tree skips root fuel v)
        { found with listed := v.location :: found.listed } := by
  rw [walk, if_neg (by simpa using h)]
  congr 1
  funext found name
  unfold enter Visit.below? Visit.shows
  dsimp only
  cases tree.directory? root (v.path ++ [name]) with
  | none => cases skips (v.path ++ [name]) false <;> simp
  | some below =>
    by_cases hskipped : (isSkippedDirectoryName name || skips (v.path ++ [name]) true) = true
    · simp [hskipped]
    · simp [hskipped]

theorem shows_of_below? {name : String} {w : Visit} (h : v.below? tree skips root name = some w) :
    v.shows tree skips root name = false := by
  unfold Visit.below? at h
  unfold Visit.shows
  cases hdirectory : tree.directory? root (v.path ++ [name]) with
  | none => simp [hdirectory] at h
  | some below => rfl

/-- The names of a directory one after another, if walks agree with their tours. -/
theorem foldl_enter_agrees
    (hwalk : ∀ w visits found, found.listed = visits.map Visit.location →
      Agrees tree skips root visits (tour tree skips root fuel w visits) [] found
        (tree.walk skips root fuel w.location w.path found))
    (names : List String) (hlisted : found.listed = visits.map Visit.location) :
    Agrees tree skips root visits
      ((names.filterMap (v.below? tree skips root)).foldl
        (fun visits w => tour tree skips root fuel w visits) visits)
      ((names.filter (v.shows tree skips root)).map fun name => v.path ++ [name])
      found (names.foldl (enter tree skips root fuel v) found) := by
  induction names generalizing visits found with
  | nil => exact ⟨hlisted, fun path => rfl⟩
  | cons name names ih =>
    rw [List.foldl_cons, List.filterMap_cons]
    cases hbelow : v.below? tree skips root name with
    | some w =>
      have henter : enter tree skips root fuel v found name =
          tree.walk skips root fuel w.location w.path found := by
        rw [enter, hbelow]
      obtain ⟨hlisted', hfiles⟩ := hwalk w visits found hlisted
      rw [henter, List.filter_cons_of_neg (by simp [shows_of_below? hbelow])]
      obtain ⟨hlisted'', hfiles'⟩ := ih hlisted'
      refine ⟨hlisted'', fun path => ?_⟩
      have h := hfiles path
      have h' := hfiles' path
      rw [List.count_nil] at h
      rw [List.foldl_cons]
      omega
    | none =>
      by_cases hshows : v.shows tree skips root name = true
      · have henter : enter tree skips root fuel v found name =
            { found with files := found.files ++ [v.path ++ [name]] } := by
          rw [enter, hbelow, if_pos hshows]
        rw [henter, List.filter_cons_of_pos hshows]
        obtain ⟨hlisted', hfiles⟩ :=
          @ih { found with files := found.files ++ [v.path ++ [name]] } visits hlisted
        refine ⟨hlisted', fun path => ?_⟩
        have h := hfiles path
        simp only [List.count_append, List.map_cons, List.count_cons, List.count_nil] at h ⊢
        omega
      · have henter : enter tree skips root fuel v found name = found := by
          rw [enter, hbelow, if_neg hshows]
        rw [henter, List.filter_cons_of_neg hshows]
        exact ih hlisted

theorem walk_agrees (fuel : Nat) (v : Visit) (visits : List Visit) (found : Found)
    (hlisted : found.listed = visits.map Visit.location) :
    Agrees tree skips root visits (tour tree skips root fuel v visits) [] found
      (tree.walk skips root fuel v.location v.path found) := by
  induction fuel generalizing v visits found with
  | zero => exact ⟨hlisted, fun path => rfl⟩
  | succ fuel ih =>
    by_cases hseen : v.location ∈ visits.map Visit.location
    · rw [walk_of_listed (hlisted ▸ hseen), tour, if_pos hseen]
      exact ⟨hlisted, fun path => rfl⟩
    · rw [walk_of_not_listed (hlisted ▸ hseen), tour, if_neg hseen]
      -- All names are left to be looked at, and so all files of the directory are found.
      have hlisted' : v.location :: found.listed = (v :: visits).map Visit.location := by
        rw [hlisted, List.map_cons]
      obtain ⟨hlisted'', hfiles⟩ :=
        @foldl_enter_agrees tree skips root fuel v
          { found with listed := v.location :: found.listed } (v :: visits) ih
          (tree.names v.location) hlisted'
      refine ⟨hlisted'', fun path => ?_⟩
      have h := hfiles path
      rw [occurrences_cons] at h
      have hown : ((tree.names v.location).filter (v.shows tree skips root)).map
          (fun name => v.path ++ [name]) =
        v.files tree skips root := rfl
      rw [hown] at h
      simp only [List.count_nil, Visit.children] at h ⊢
      omega

/-- A walk finds the files of the directories on its tour. -/
theorem walk_files_perm (fuel : Nat) :
    (tree.walk skips root fuel root [] ⟨[], []⟩).files.Perm
      ((tour tree skips root fuel ⟨root, []⟩ []).flatMap (Visit.files tree skips root)) := by
  rw [List.perm_iff_count]
  intro path
  have h := (@walk_agrees tree skips root fuel ⟨root, []⟩ [] ⟨[], []⟩ rfl).files path
  simpa [occurrences] using h

end Agreement

section Room

mutual

def directories : FileTree → List Location
  | directory entries => [] :: directoriesOf entries
  | file _ => []
  | link _ => []

def directoriesOf : List (String × FileTree) → List Location
  | [] => []
  | (name, tree) :: rest => (directories tree).map (name :: ·) ++ directoriesOf rest

end

mutual

theorem length_directories (tree : FileTree) : (directories tree).length = tree.directoryCount := by
  cases tree with
  | directory entries =>
    rw [directories, List.length_cons, directoryCount, length_directoriesOf, Nat.add_comm]
  | file content => rfl
  | link target => rfl

theorem length_directoriesOf (entries : List (String × FileTree)) :
    (directoriesOf entries).length = directoryCounts entries := by
  cases entries with
  | nil => rfl
  | cons entry rest =>
    obtain ⟨name, tree⟩ := entry
    rw [directoriesOf, List.length_append, List.length_map, directoryCounts, length_directories,
      length_directoriesOf]

end

theorem mem_directoriesOf {entries : List (String × FileTree)} {name : String} {tree : FileTree}
    {rest : Location} (hentry : (name, tree) ∈ entries) (hrest : rest ∈ directories tree) :
    name :: rest ∈ directoriesOf entries := by
  induction entries with
  | nil => cases hentry
  | cons entry entries ih =>
    obtain ⟨first, tree'⟩ := entry
    rw [directoriesOf, List.mem_append]
    obtain heq | hentry := List.mem_cons.mp hentry
    · cases heq
      exact Or.inl (List.mem_map_of_mem hrest)
    · exact Or.inr (ih hentry)

theorem mem_of_child? {entries : List (String × FileTree)} {name : String} {tree : FileTree}
    (h : child? name entries = some tree) : (name, tree) ∈ entries := by
  obtain ⟨entry, hentry, rfl⟩ := Option.map_eq_some_iff.mp h
  have hname : entry.1 = name := by simpa using List.find?_some hentry
  rw [← hname]
  exact List.mem_of_find?_eq_some hentry

theorem mem_directories {tree : FileTree} {location : Location}
    (h : tree.isDirectoryAt location = true) :
    location ∈ directories tree := by
  induction location generalizing tree with
  | nil =>
    cases tree with
    | directory entries => exact List.mem_cons_self
    | file content => cases h
    | link target => cases h
  | cons name rest ih =>
    cases tree with
    | directory entries =>
      cases hchild : child? name entries with
      | none => simp [isDirectoryAt, at?, hchild] at h
      | some below =>
        have hbelow : below.isDirectoryAt rest = true := by
          simpa [isDirectoryAt, at?, hchild] using h
        exact List.mem_cons_of_mem _ (mem_directoriesOf (mem_of_child? hchild) (ih hbelow))
    | file content => cases h
    | link target => cases h

/-- The weight of those places that have not been listed. -/
def room (weight : Location → Nat) (places listed : List Location) : Nat :=
  (places.map fun place => if place ∈ listed then 0 else weight place).sum

variable {weight : Location → Nat} {places listed listed' : List Location} {location : Location}

theorem room_append (places places' listed : List Location) :
    room weight (places ++ places') listed =
      room weight places listed + room weight places' listed := by
  rw [room, List.map_append, List.sum_append, room, room]

theorem room_cons (place : Location) (places listed : List Location) :
    room weight (place :: places) listed =
      (if place ∈ listed then 0 else weight place) + room weight places listed := by
  rw [room, List.map_cons, List.sum_cons, room]

theorem room_le (h : listed ⊆ listed') :
    room weight places listed' ≤ room weight places listed := by
  induction places with
  | nil => exact Nat.le_refl _
  | cons place places ih =>
    rw [room_cons, room_cons]
    by_cases hplace : place ∈ listed
    · rw [if_pos hplace, if_pos (h hplace)]
      omega
    · rw [if_neg hplace]
      split_ifs <;> omega

/-- A place that is listed takes its weight away. -/
theorem room_list (hplace : location ∈ places) (hnew : location ∉ listed) :
    weight location + room weight places (location :: listed) ≤ room weight places listed := by
  obtain ⟨before, after, rfl⟩ := List.append_of_mem hplace
  have hbefore := @room_le weight before _ _ (List.subset_cons_self location listed)
  have hafter := @room_le weight after _ _ (List.subset_cons_self location listed)
  rw [room_append, room_append, room_cons, room_cons, if_pos List.mem_cons_self, if_neg hnew]
  omega

theorem seen_of_room (hplace : location ∈ places) (hroom : room (fun _ => 1) places listed = 0) :
    location ∈ listed := by
  by_contra hnew
  have hless := @room_list (fun _ => 1) places listed location hplace hnew
  omega

theorem room_one_le (places listed : List Location) :
    room (fun _ => 1) places listed ≤ places.length := by
  induction places with
  | nil => exact Nat.le_refl _
  | cons place places ih =>
    rw [room_cons, List.length_cons]
    split_ifs <;> omega

end Room

section Spanning

variable {tree : FileTree} {skips : Location → Bool → Bool} {root : Location} {fuel : Nat}
  {places : List Location} {visits visits' visits'' : List Visit} {u v w : Visit}

theorem mem_children :
    w ∈ v.children tree skips root ↔
      ∃ name ∈ tree.names v.location, v.below? tree skips root name = some w :=
  List.mem_filterMap

theorem path_of_below? {name : String} (h : v.below? tree skips root name = some w) :
    w.path = v.path ++ [name] := by
  unfold Visit.below? at h
  split at h
  · split_ifs at h
    cases h
    rfl
  · cases h

theorem isDirectoryAt_of_below? {name : String} (h : v.below? tree skips root name = some w) :
    tree.isDirectoryAt w.location = true := by
  unfold Visit.below? at h
  split at h
  · rename_i below hdirectory
    split_ifs at h
    cases h
    exact (Option.filter_eq_some_iff.mp hdirectory).2
  · cases h

theorem isDirectoryAt_of_mem_children (h : w ∈ v.children tree skips root) :
    tree.isDirectoryAt w.location = true := by
  obtain ⟨name, -, hbelow⟩ := mem_children.mp h
  exact isDirectoryAt_of_below? hbelow

theorem tour_of_seen (h : v.location ∈ visits.map Visit.location) :
    tour tree skips root (fuel + 1) v visits = visits := by
  rw [tour, if_pos h]

theorem tour_of_new (h : v.location ∉ visits.map Visit.location) :
    tour tree skips root (fuel + 1) v visits =
      (v.children tree skips root).foldl (fun visits w => tour tree skips root fuel w visits)
        (v :: visits) := by
  rw [tour, if_neg h]

theorem subset_foldl_tour (htour : ∀ w visits, visits ⊆ tour tree skips root fuel w visits)
    (ws visits : List Visit) :
    visits ⊆ ws.foldl (fun visits w => tour tree skips root fuel w visits) visits := by
  induction ws generalizing visits with
  | nil => exact List.Subset.refl visits
  | cons w ws ih => exact List.Subset.trans (htour w visits) (ih _)

theorem subset_tour (fuel : Nat) (v : Visit) (visits : List Visit) :
    visits ⊆ tour tree skips root fuel v visits := by
  induction fuel generalizing v visits with
  | zero => exact List.Subset.refl visits
  | succ fuel ih =>
    by_cases hseen : v.location ∈ visits.map Visit.location
    · rw [tour_of_seen hseen]
      exact List.Subset.refl visits
    · rw [tour_of_new hseen]
      exact List.Subset.trans (List.subset_cons_self v visits) (subset_foldl_tour ih _ _)

theorem mem_tour_of_new (h : v.location ∉ visits.map Visit.location) :
    v ∈ tour tree skips root (fuel + 1) v visits := by
  rw [tour_of_new h]
  exact subset_foldl_tour (subset_tour fuel) _ _ List.mem_cons_self

/-- The visits of a walk that may not be at its end: no directory is visited twice, and each but the
root was come to from another. -/
structure Sound (tree : FileTree) (skips : Location → Bool → Bool) (root : Location)
    (visits : List Visit) : Prop where
  once : (visits.map Visit.location).Nodup
  placed : ∀ v ∈ visits, v = ⟨root, []⟩ ∨ ∃ u ∈ visits, v ∈ u.children tree skips root

def Visit.Closed (tree : FileTree) (skips : Location → Bool → Bool) (root : Location)
    (visits : List Visit) (v : Visit) : Prop :=
  ∀ w ∈ v.children tree skips root, w.location ∈ visits.map Visit.location

structure Prolongs (tree : FileTree) (skips : Location → Bool → Bool) (root : Location)
    (visits visits' : List Visit) : Prop where
  kept : visits ⊆ visits'
  sound : Sound tree skips root visits'
  closed : ∀ v ∈ visits', v ∈ visits ∨ v.Closed tree skips root visits'

theorem Visit.Closed.mono (h : v.Closed tree skips root visits) (hsub : visits ⊆ visits') :
    v.Closed tree skips root visits' :=
  fun w hw => List.map_subset _ hsub (h w hw)

theorem Sound.cons (h : Sound tree skips root visits)
    (hnew : v.location ∉ visits.map Visit.location)
    (hplaced : v = ⟨root, []⟩ ∨ ∃ u ∈ visits, v ∈ u.children tree skips root) :
    Sound tree skips root (v :: visits) where
  once := List.nodup_cons.mpr ⟨hnew, h.once⟩
  placed := by
    rw [List.forall_mem_cons]
    constructor
    · exact hplaced.imp_right fun ⟨u, hu, hv⟩ => ⟨u, List.mem_cons_of_mem v hu, hv⟩
    · intro x hx
      exact (h.placed x hx).imp_right fun ⟨u, hu, hx⟩ => ⟨u, List.mem_cons_of_mem v hu, hx⟩

theorem Prolongs.refl (h : Sound tree skips root visits) : Prolongs tree skips root visits visits :=
  ⟨List.Subset.refl visits, h, fun _ hv => Or.inl hv⟩

theorem Prolongs.trans (h : Prolongs tree skips root visits visits')
    (h' : Prolongs tree skips root visits' visits'') :
    Prolongs tree skips root visits visits'' where
  kept := List.Subset.trans h.kept h'.kept
  sound := h'.sound
  closed := by
    intro v hv
    obtain hv | hclosed := h'.closed v hv
    · exact (h.closed v hv).imp_right fun hclosed => hclosed.mono h'.kept
    · exact Or.inr hclosed

def ToursTo (tree : FileTree) (skips : Location → Bool → Bool) (root : Location)
    (places : List Location) (fuel : Nat) : Prop :=
  ∀ v visits, Sound tree skips root visits →
    (v = ⟨root, []⟩ ∨ ∃ u ∈ visits, v ∈ u.children tree skips root) →
    v.location ∈ places → room (fun _ => 1) places (visits.map Visit.location) ≤ fuel →
    Prolongs tree skips root visits (tour tree skips root fuel v visits) ∧
      v.location ∈ (tour tree skips root fuel v visits).map Visit.location

theorem prolongs_foldl_tour (htour : ToursTo tree skips root places fuel) (ws : List Visit)
    (hsound : Sound tree skips root visits)
    (hplaced : ∀ w ∈ ws, ∃ u ∈ visits, w ∈ u.children tree skips root)
    (hplaces : ∀ w ∈ ws, w.location ∈ places)
    (hroom : room (fun _ => 1) places (visits.map Visit.location) ≤ fuel) :
    Prolongs tree skips root visits
      (ws.foldl (fun visits w => tour tree skips root fuel w visits) visits) ∧
      ∀ w ∈ ws, w.location ∈
        (ws.foldl (fun visits w => tour tree skips root fuel w visits) visits).map
          Visit.location := by
  induction ws generalizing visits with
  | nil => exact ⟨.refl hsound, fun w hw => absurd hw List.not_mem_nil⟩
  | cons w ws ih =>
    rw [List.forall_mem_cons] at hplaced hplaces
    obtain ⟨hprolongs, hseen⟩ := htour w visits hsound (Or.inr hplaced.1) hplaces.1 hroom
    have hplaced' : ∀ x ∈ ws, ∃ u ∈ tour tree skips root fuel w visits,
        x ∈ u.children tree skips root := by
      intro x hx
      obtain ⟨u, hu, hux⟩ := hplaced.2 x hx
      exact ⟨u, hprolongs.kept hu, hux⟩
    have hroom' := Nat.le_trans (room_le (List.map_subset Visit.location hprolongs.kept)) hroom
    obtain ⟨hprolongs', hseen'⟩ := ih hprolongs.sound hplaced' hplaces.2 hroom'
    refine ⟨hprolongs.trans hprolongs', ?_⟩
    rw [List.forall_mem_cons]
    exact ⟨List.map_subset _ hprolongs'.kept hseen, hseen'⟩

theorem toursTo (hplaces : ∀ location, tree.isDirectoryAt location = true → location ∈ places)
    (fuel : Nat) :
    ToursTo tree skips root places fuel := by
  induction fuel with
  | zero =>
    intro v visits hsound _ hplace hroom
    exact ⟨.refl hsound, seen_of_room hplace (Nat.le_zero.mp hroom)⟩
  | succ fuel ih =>
    intro v visits hsound hplaced hplace hroom
    by_cases hseen : v.location ∈ visits.map Visit.location
    · rw [tour_of_seen hseen]
      exact ⟨.refl hsound, hseen⟩
    · have hless : room (fun _ => 1) places ((v :: visits).map Visit.location) ≤ fuel := by
        have hcons := @room_list (fun _ => 1) places _ _ hplace hseen
        rw [List.map_cons]
        omega
      obtain ⟨hprolongs, hchildren⟩ :=
        prolongs_foldl_tour ih (v.children tree skips root) (hsound.cons hseen hplaced)
        (fun w hw => ⟨v, List.mem_cons_self, hw⟩)
          (fun w hw => hplaces _ (isDirectoryAt_of_mem_children hw)) hless
      rw [tour_of_new hseen]
      have hv := hprolongs.kept List.mem_cons_self
      have hkept := List.Subset.trans (List.subset_cons_self v visits) hprolongs.kept
      refine ⟨⟨hkept, hprolongs.sound, ?_⟩, List.mem_map_of_mem hv⟩
      intro x hx
      obtain hx | hclosed := hprolongs.closed x hx
      · obtain rfl | hx := List.mem_cons.mp hx
        · exact Or.inr hchildren
        · exact Or.inl hx
      · exact Or.inr hclosed

structure Spans (tree : FileTree) (skips : Location → Bool → Bool) (root : Location)
    (visits : List Visit) : Prop
    extends Sound tree skips root visits where
  start : ⟨root, []⟩ ∈ visits
  closed : ∀ v ∈ visits, v.Closed tree skips root visits

def tourFrom (tree : FileTree) (skips : Location → Bool → Bool) (root : Location) : List Visit :=
  tour tree skips root (tree.directoryCount + 1) ⟨root, []⟩ []

theorem spans_tourFrom (tree : FileTree) (skips : Location → Bool → Bool) (root : Location) :
    Spans tree skips root (tourFrom tree skips root) := by
  -- The root need not be a directory, and so it is one more place to visit.
  have hplaces : ∀ location, tree.isDirectoryAt location = true →
      location ∈ root :: directories tree :=
    fun location h => List.mem_cons_of_mem root (mem_directories h)
  have hroom : room (fun _ => 1) (root :: directories tree) [] ≤ tree.directoryCount + 1 := by
    rw [← length_directories, ← List.length_cons]
    exact room_one_le _ _
  obtain ⟨hprolongs, -⟩ :=
    @toursTo tree skips root _ hplaces (tree.directoryCount + 1) ⟨root, []⟩ []
    ⟨List.nodup_nil, by simp⟩ (Or.inl rfl) List.mem_cons_self hroom
  refine ⟨hprolongs.sound, mem_tour_of_new (by simp), ?_⟩
  intro v hv
  exact (hprolongs.closed v hv).resolve_left List.not_mem_nil

end Spanning

section Ways

variable {tree : FileTree} {skips : Location → Bool → Bool} {root : Location}
    {visits vs ws : List Visit}
  {u v w : Visit}

/-- A way from the root to a directory, the last visit first. It does not come back to a directory
that it has passed. -/
inductive Way (tree : FileTree) (skips : Location → Bool → Bool) (root : Location) :
    List Visit → Prop
  | start : Way tree skips root [⟨root, []⟩]
  | step {v w : Visit} {vs : List Visit} :
      Way tree skips root (v :: vs) → w ∈ v.children tree skips root →
      w.location ∉ (v :: vs).map Visit.location → Way tree skips root (w :: v :: vs)

theorem Way.new (h : Way tree skips root (v :: vs)) : v.location ∉ vs.map Visit.location := by
  cases h with
  | start => simp
  | step _ _ hnew => exact hnew

theorem Way.once (h : Way tree skips root vs) : (vs.map Visit.location).Nodup := by
  induction h with
  | start => simp
  | step _ _ hnew ih => exact List.nodup_cons.mpr ⟨hnew, ih⟩

theorem Way.isDirectoryAt (h : Way tree skips root vs) (hv : v ∈ vs) :
    v.location = root ∨ tree.isDirectoryAt v.location = true := by
  induction h with
  | start =>
    rw [List.mem_singleton.mp hv]
    exact Or.inl rfl
  | step _ hchild _ ih =>
    obtain rfl | hv := List.mem_cons.mp hv
    · exact Or.inr (isDirectoryAt_of_mem_children hchild)
    · exact ih hv

/-- A way passes no more directories than there are, the root apart. -/
theorem Way.length_le (h : Way tree skips root vs) : vs.length ≤ tree.directoryCount + 1 := by
  have hplaces : vs.map Visit.location ⊆ root :: directories tree := by
    intro location hlocation
    obtain ⟨v, hv, rfl⟩ := List.mem_map.mp hlocation
    exact List.mem_cons.mpr ((h.isDirectoryAt hv).imp_right mem_directories)
  have hlength := (List.subperm_of_subset h.once hplaces).length_le
  rwa [List.length_map, List.length_cons, length_directories] at hlength

theorem Way.path_length_le (h : Way tree skips root (v :: vs)) (hu : u ∈ v :: vs) :
    u.path.length ≤ v.path.length := by
  generalize hway : v :: vs = way at h hu
  induction h generalizing v vs with
  | start =>
    cases hway
    exact Nat.le_of_eq (congrArg (fun u : Visit => u.path.length) (List.mem_singleton.mp hu))
  | step _ hchild _ ih =>
    cases hway
    obtain ⟨name, -, hbelow⟩ := mem_children.mp hchild
    obtain rfl | hu := List.mem_cons.mp hu
    · exact Nat.le_refl _
    · have hless := ih rfl hu
      rw [path_of_below? hbelow, List.length_append]
      omega

/-- The names along a way determine it. -/
theorem Way.eq_of_path (h : Way tree skips root (v :: vs)) (h' : Way tree skips root (w :: ws))
    (hpath : v.path = w.path) : v :: vs = w :: ws := by
  generalize hway : v :: vs = way at h
  induction h generalizing v vs w ws with
  | start =>
    cases hway
    cases h' with
    | start => rfl
    | step _ hchild _ =>
      obtain ⟨name, -, hbelow⟩ := mem_children.mp hchild
      rw [path_of_below? hbelow] at hpath
      simp at hpath
  | @step u _ us _ hchild _ ih =>
    cases hway
    obtain ⟨name, -, hbelow⟩ := mem_children.mp hchild
    cases h' with
    | start =>
      rw [path_of_below? hbelow] at hpath
      simp at hpath
    | step h' hchild' _ =>
      obtain ⟨name', -, hbelow'⟩ := mem_children.mp hchild'
      rw [path_of_below? hbelow, path_of_below? hbelow'] at hpath
      obtain ⟨hfront, hname⟩ := List.append_inj' hpath rfl
      cases hname
      have heq := ih h' hfront rfl
      cases heq
      rw [hbelow] at hbelow'
      cases hbelow'
      rfl

theorem Sound.eq_of_location (h : Sound tree skips root visits) (hv : v ∈ visits) (hw : w ∈ visits)
    (hlocation : v.location = w.location) : v = w :=
  List.inj_on_of_nodup_map h.once hv hw hlocation

/-- A walk comes to every directory on a way through directories that it has visited before. -/
theorem Sound.exists_way (h : Sound tree skips root visits) (hv : v ∈ visits) :
    ∃ vs, Way tree skips root (v :: vs) ∧ v :: vs ⊆ visits := by
  induction hlength : v.path.length using Nat.strongRecOn generalizing v with
  | ind length ih =>
    obtain rfl | ⟨u, hu, hchild⟩ := h.placed v hv
    · exact ⟨[], .start, by simpa using hv⟩
    · obtain ⟨name, -, hbelow⟩ := mem_children.mp hchild
      have hless : u.path.length < v.path.length := by
        rw [path_of_below? hbelow, List.length_append, List.length_singleton]
        omega
      obtain ⟨us, hway, hsub⟩ := ih u.path.length (hlength ▸ hless) hu rfl
      refine ⟨u :: us, hway.step hchild ?_, List.cons_subset.mpr ⟨hv, hsub⟩⟩
      intro hpassed
      -- A directory that the way has passed was visited along fewer names.
      obtain ⟨x, hx, hlocation⟩ := List.mem_map.mp hpassed
      have hle := hway.path_length_le hx
      rw [h.eq_of_location (hsub hx) hv hlocation] at hle
      omega

def Visit.Only (tree : FileTree) (skips : Location → Bool → Bool) (root : Location) (v : Visit) :
    Prop :=
  ∀ w ws, Way tree skips root (w :: ws) → w.location = v.location → w = v

/-- Directories that only one way leads to are visited along this way. -/
theorem Spans.subset_of_only (h : Spans tree skips root visits) (hway : Way tree skips root vs)
    (honly : ∀ v ∈ vs, v.Only tree skips root) : vs ⊆ visits := by
  induction hway with
  | start => simpa using h.start
  | @step v w vs _ hchild _ ih =>
    rw [List.forall_mem_cons] at honly
    have hvisited := ih honly.2
    refine List.cons_subset.mpr ⟨?_, hvisited⟩
    obtain ⟨x, hx, hlocation⟩ := List.mem_map.mp (h.closed v (hvisited List.mem_cons_self) w hchild)
    obtain ⟨xs, hway, -⟩ := h.toSound.exists_way hx
    rw [← honly.1 x xs hway hlocation]
    exact hx

end Ways

end BuildScript.FileTree
