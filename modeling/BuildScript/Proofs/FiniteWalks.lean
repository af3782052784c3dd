import BuildScript.Proofs.DirectoryWalks
import Mathlib.Logic.Function.Iterate

/-!
# Walks end

Links may lead back up the tree, so it is not the depth of a tree that bounds a walk. The walk is
taken apart here into single steps without any fuel; the directories that it has entered and not yet
left are a stack of tasks. Each step uses up some of the work that is left, because no directory is
listed twice and so each of its names is looked at once. The walk with fuel finds the same and never
runs out of it.
-/

namespace BuildScript.FileTree

inductive Task where
  /-- To enter a directory, unless it was listed before. -/
  | enter (v : Visit)
  /-- To look at the names of a listed directory that are left. -/
  | look (v : Visit) (names : List String)

/-- A walk between two steps. The innermost task comes first. The log has the visits at which the
names of a directory were listed, the latest first. -/
structure Progress where
  tasks : List Task
  found : Found
  log : List Visit

namespace Progress

def start (v : Visit) (found : Found) : Progress := ⟨[.enter v], found, []⟩

end Progress

section Steps

variable (tree : FileTree) (skips : Location → Bool → Bool) (root : Location)

def Task.ahead : Task → List Visit
  | enter v => [v]
  | look v names => names.filterMap (v.below? tree skips root)

def Progress.ahead (p : Progress) : List Visit := p.tasks.flatMap (Task.ahead tree skips root)

def Progress.step : Progress → Progress
  | ⟨[], found, log⟩ => ⟨[], found, log⟩
  | ⟨.enter v :: tasks, found, log⟩ =>
    if found.listed.contains v.location then ⟨tasks, found, log⟩
    else
      ⟨.look v (tree.names v.location) :: tasks,
        { found with listed := v.location :: found.listed }, v :: log⟩
  | ⟨.look _ [] :: tasks, found, log⟩ => ⟨tasks, found, log⟩
  | ⟨.look v (name :: names) :: tasks, found, log⟩ =>
    match v.below? tree skips root name with
    | some w => ⟨.enter w :: .look v names :: tasks, found, log⟩
    | none =>
      ⟨.look v names :: tasks,
        if v.shows tree skips root name then
          { found with files := found.files ++ [v.path ++ [name]] } else found,
        log⟩

inductive Progress.Step : Progress → Progress → Prop
  | seen {v : Visit} {tasks : List Task} {found : Found} {log : List Visit} :
      v.location ∈ found.listed → Step ⟨.enter v :: tasks, found, log⟩ ⟨tasks, found, log⟩
  | list {v : Visit} {tasks : List Task} {found : Found} {log : List Visit} :
      v.location ∉ found.listed →
      Step ⟨.enter v :: tasks, found, log⟩
        ⟨.look v (tree.names v.location) :: tasks,
          { found with listed := v.location :: found.listed }, v :: log⟩
  | leave {v : Visit} {tasks : List Task} {found : Found} {log : List Visit} :
      Step ⟨.look v [] :: tasks, found, log⟩ ⟨tasks, found, log⟩
  | descend {v w : Visit} {name : String} {names : List String} {tasks : List Task} {found : Found}
      {log : List Visit} : v.below? tree skips root name = some w →
      Step ⟨.look v (name :: names) :: tasks, found,
        log⟩ ⟨.enter w :: .look v names :: tasks, found, log⟩
  | pass {v : Visit} {name : String} {names : List String} {tasks : List Task}
      {found found' : Found} {log : List Visit} :
      v.below? tree skips root name = none → found'.listed = found.listed →
      Step ⟨.look v (name :: names) :: tasks, found, log⟩ ⟨.look v names :: tasks, found', log⟩

end Steps

namespace Progress

variable {tree : FileTree} {skips : Location → Bool → Bool} {root : Location}
    {before : List Location}
  {p q : Progress} {v w : Visit} {found : Found} {tasks : List Task} {log : List Visit}
  {name : String}
  {names : List String}

theorem step_of_done (h : p.tasks = []) : step tree skips root p = p := by
  obtain ⟨tasks, found, log⟩ := p
  cases h
  rfl

theorem step_enter_of_seen (h : v.location ∈ found.listed) :
    step tree skips root ⟨.enter v :: tasks, found, log⟩ = ⟨tasks, found, log⟩ := by
  rw [step, if_pos (by simpa using h)]

theorem step_enter_of_new (h : v.location ∉ found.listed) :
    step tree skips root ⟨.enter v :: tasks, found, log⟩ =
      ⟨.look v (tree.names v.location) :: tasks,
        { found with listed := v.location :: found.listed }, v :: log⟩ := by
  rw [step, if_neg (by simpa using h)]

theorem step_look_of_below (h : v.below? tree skips root name = some w) :
    step tree skips root ⟨.look v (name :: names) :: tasks, found, log⟩ =
      ⟨.enter w :: .look v names :: tasks, found, log⟩ := by
  rw [step, h]

/-- A name that leads to no directory is dealt with at once, as in a walk with fuel. -/
theorem step_look_of_none (fuel : Nat) (h : v.below? tree skips root name = none) :
    step tree skips root ⟨.look v (name :: names) :: tasks, found, log⟩ =
      ⟨.look v names :: tasks, FileTree.enter tree skips root fuel v found name, log⟩ := by
  rw [step, FileTree.enter, h]

theorem step_spec (h : p.tasks ≠ []) : Step tree skips root p (step tree skips root p) := by
  obtain ⟨_ | ⟨v | ⟨v, _ | ⟨name, names⟩⟩, tasks⟩, found, log⟩ := p
  · exact absurd rfl h
  · by_cases hseen : v.location ∈ found.listed
    · rw [step_enter_of_seen hseen]
      exact .seen hseen
    · rw [step_enter_of_new hseen]
      exact .list hseen
  · exact .leave
  · cases hbelow : v.below? tree skips root name with
    | some w =>
      rw [step_look_of_below hbelow]
      exact .descend hbelow
    | none =>
      rw [step, hbelow]
      refine .pass hbelow ?_
      split_ifs <;> rfl

/-- A walk turns to the first directory ahead, or it only goes on to the next name. -/
theorem Step.turns (h : Step tree skips root p q) :
    (q.ahead tree skips root = p.ahead tree skips root ∧ q.found.listed = p.found.listed ∧
      q.log = p.log) ∨
    (∃ v, v.location ∈ p.found.listed ∧ p.ahead tree skips root = v :: q.ahead tree skips root ∧
      q.found.listed = p.found.listed ∧ q.log = p.log) ∨
    ∃ v rest, v.location ∉ p.found.listed ∧ p.ahead tree skips root = v :: rest ∧
      q.ahead tree skips root = v.children tree skips root ++ rest ∧
      q.found.listed = v.location :: p.found.listed ∧ q.log = v :: p.log := by
  cases h with
  | seen hseen => exact Or.inr (Or.inl ⟨_, hseen, rfl, rfl, rfl⟩)
  | list hnew => exact Or.inr (Or.inr ⟨_, _, hnew, rfl, rfl, rfl, rfl⟩)
  | leave => exact Or.inl ⟨rfl, rfl, rfl⟩
  | descend hbelow =>
    refine Or.inl ⟨?_, rfl, rfl⟩
    simp only [ahead, List.flatMap_cons, Task.ahead, List.filterMap_cons_some hbelow,
      List.cons_append, List.nil_append]
  | pass hbelow hlisted =>
    refine Or.inl ⟨?_, hlisted, rfl⟩
    simp only [ahead, List.flatMap_cons, Task.ahead, List.filterMap_cons_none hbelow]

def Covers (tree : FileTree) (skips : Location → Bool → Bool) (root : Location) (p : Progress)
    (w : Visit) : Prop :=
  w.location ∈ p.found.listed ∨ w ∈ p.ahead tree skips root

theorem Covers.step (h : Covers tree skips root p w) (hstep : Step tree skips root p q) :
    Covers tree skips root q w := by
  unfold Covers at h ⊢
  obtain ⟨hahead, hlisted, -⟩ | ⟨v, hseen, hahead, hlisted, -⟩ | ⟨v, rest, -, hahead, hahead',
    hlisted, -⟩ :=
    hstep.turns
  · rwa [hahead, hlisted]
  · rw [hahead, List.mem_cons] at h
    rw [hlisted]
    obtain h | rfl | h := h
    · exact Or.inl h
    · exact Or.inl hseen
    · exact Or.inr h
  · rw [hahead, List.mem_cons] at h
    rw [hlisted, hahead', List.mem_cons, List.mem_append]
    obtain h | rfl | h := h
    · exact Or.inl (Or.inr h)
    · exact Or.inl (Or.inl rfl)
    · exact Or.inr (Or.inr h)

theorem Covers.listed_of_done (h : Covers tree skips root p w) (hdone : p.tasks = []) :
    w.location ∈ p.found.listed := by
  refine h.resolve_right ?_
  rw [ahead, hdone]
  exact List.not_mem_nil

/-- What holds all along a walk from a directory, if some others were listed `before`. -/
structure Orderly (tree : FileTree) (skips : Location → Bool → Bool) (root : Location) (v : Visit)
    (before : List Location) (p : Progress) : Prop where
  placed : ∀ w, w ∈ p.ahead tree skips root ∨ w ∈ p.log →
    w.location = v.location ∨ tree.isDirectoryAt w.location = true
  listed : p.found.listed = p.log.map Visit.location ++ before
  once : (p.log.map Visit.location).Nodup
  new : ∀ u ∈ p.log, u.location ∉ before
  start : Covers tree skips root p v
  closed : ∀ u ∈ p.log, ∀ w ∈ u.children tree skips root, Covers tree skips root p w

theorem orderly_start (tree : FileTree) (skips : Location → Bool → Bool) (root : Location)
    (v : Visit) (found : Found) :
    Orderly tree skips root v found.listed (start v found) where
  placed := by
    rintro w (hw | hw)
    · rw [List.mem_singleton.mp hw]
      exact Or.inl rfl
    · exact absurd hw List.not_mem_nil
  listed := rfl
  once := List.nodup_nil
  new := fun _ h => absurd h List.not_mem_nil
  start := Or.inr List.mem_cons_self
  closed := fun _ h => absurd h List.not_mem_nil

theorem Orderly.step (h : Orderly tree skips root v before p) (hstep : Step tree skips root p q) :
    Orderly tree skips root v before q := by
  have hstart := h.start.step hstep
  have hclosed : ∀ u ∈ p.log, ∀ w ∈ u.children tree skips root, Covers tree skips root q w :=
    fun u hu w hw => (h.closed u hu w hw).step hstep
  obtain ⟨hahead, hlisted, hlog⟩ | ⟨u, -, hahead, hlisted, hlog⟩ | ⟨u, rest, hnew, hahead, hahead',
    hlisted, hlog⟩ :=
    hstep.turns
  · rw [← hlog] at hclosed
    exact ⟨hahead ▸ hlog ▸ h.placed, hlisted ▸ hlog ▸ h.listed, hlog ▸ h.once, hlog ▸ h.new,
      hstart, hclosed⟩
  · rw [← hlog] at hclosed
    refine ⟨?_, hlisted ▸ hlog ▸ h.listed, hlog ▸ h.once, hlog ▸ h.new, hstart, hclosed⟩
    intro w hw
    rw [hlog] at hw
    exact h.placed w (hw.imp_left fun hw => hahead ▸ List.mem_cons_of_mem u hw)
  · -- What is listed now was in the log or listed before, and this directory is neither.
    have hu := h.placed u (Or.inl (hahead ▸ List.mem_cons_self))
    rw [h.listed, List.mem_append, not_or] at hnew
    refine ⟨?_, ?_, ?_, ?_, hstart, ?_⟩
    · intro w hw
      rw [hahead', hlog, List.mem_append, List.mem_cons] at hw
      obtain (hw | hw) | rfl | hw := hw
      · exact Or.inr (isDirectoryAt_of_mem_children hw)
      · exact h.placed w (Or.inl (hahead ▸ List.mem_cons_of_mem u hw))
      · exact hu
      · exact h.placed w (Or.inr hw)
    · rw [hlisted, hlog, h.listed, List.map_cons, List.cons_append]
    · rw [hlog, List.map_cons, List.nodup_cons]
      exact ⟨hnew.1, h.once⟩
    · rw [hlog, List.forall_mem_cons]
      exact ⟨hnew.2, h.new⟩
    · rw [hlog, List.forall_mem_cons]
      refine ⟨?_, hclosed⟩
      intro w hw
      exact Or.inr (hahead' ▸ List.mem_append_left rest hw)

theorem Orderly.iterate (h : Orderly tree skips root v before p) (n : Nat) :
    Orderly tree skips root v before ((Progress.step tree skips root)^[n] p) := by
  induction n with
  | zero => exact h
  | succ n ih =>
    rw [Function.iterate_succ_apply']
    by_cases hdone : ((Progress.step tree skips root)^[n] p).tasks = []
    · rwa [step_of_done hdone]
    · exact ih.step (step_spec hdone)

end Progress

section Work

/-- The steps that a task takes, if all directories that it leads to have been listed. -/
def Task.work : Task → Nat
  | enter _ => 1
  | look _ names => 2 * names.length + 1

def toll (tree : FileTree) (location : Location) : Nat := 2 * (tree.names location).length + 1

def reach (tree : FileTree) (first : Location) : List Location := (directories tree).insert first

def walkBound (tree : FileTree) (first : Location) : Nat :=
  ((tree.reach first).map tree.toll).sum + 1

def Progress.work (tree : FileTree) (first : Location) (p : Progress) : Nat :=
  (p.tasks.map Task.work).sum + room tree.toll (tree.reach first) p.found.listed

variable {tree : FileTree} {skips : Location → Bool → Bool} {root first location : Location}
  {before : List Location} {p q : Progress} {v : Visit} {n : Nat}

theorem mem_reach (h : location = first ∨ tree.isDirectoryAt location = true) :
    location ∈ tree.reach first :=
  List.mem_insert_iff.mpr (h.imp_right mem_directories)

theorem length_reach_le (tree : FileTree) (first : Location) :
    (tree.reach first).length ≤ tree.directoryCount + 1 := by
  rw [reach, ← length_directories, List.length_insert]
  split_ifs <;> omega

theorem Task.work_pos (task : Task) : 0 < task.work := by
  cases task with
  | enter v => exact Nat.one_pos
  | look v names => exact Nat.succ_pos _

namespace Progress

theorem work_start_le (tree : FileTree) (v : Visit) (found : Found) :
    (start v found).work tree v.location ≤ tree.walkBound v.location := by
  have hroom := @room_le tree.toll (tree.reach v.location) _ _ (List.nil_subset found.listed)
  have hall : room tree.toll (tree.reach v.location) [] =
      ((tree.reach v.location).map tree.toll).sum := by
    simp [room]
  have htasks : ((start v found).tasks.map Task.work).sum = 1 := rfl
  rw [work, htasks, walkBound, ← hall, Nat.add_comm]
  exact Nat.add_le_add_right hroom 1

theorem Step.work_lt (h : Step tree skips root p q) (hp : Orderly tree skips root v before p) :
    q.work tree v.location < p.work tree v.location := by
  cases h with
  | seen _ =>
    simp only [work, List.map_cons, List.sum_cons, Task.work]
    omega
  | @list u _ _ _ hnew =>
    -- The names that are to be looked at now are paid for by the directory, which is not listed
    -- again.
    have hroom :=
      @room_list tree.toll _ _ _ (mem_reach (hp.placed u (Or.inl List.mem_cons_self))) hnew
    simp only [work, List.map_cons, List.sum_cons, Task.work, toll] at hroom ⊢
    omega
  | leave =>
    simp only [work, List.map_cons, List.sum_cons, Task.work]
    omega
  | descend _ =>
    simp only [work, List.map_cons, List.sum_cons, Task.work, List.length_cons]
    omega
  | pass _ hsame =>
    simp only [work, List.map_cons, List.sum_cons, Task.work, List.length_cons, hsame]
    omega

/-- Once all work is done there is no task left. -/
theorem tasks_iterate (hp : Orderly tree skips root v before p) (h : p.work tree v.location ≤ n) :
    ((step tree skips root)^[n] p).tasks = [] := by
  induction n generalizing p with
  | zero =>
    by_contra htasks
    obtain ⟨task, tasks, heq⟩ := List.exists_cons_of_ne_nil htasks
    have hpos := task.work_pos
    rw [Function.iterate_zero_apply] at heq
    rw [work, heq, List.map_cons, List.sum_cons] at h
    omega
  | succ n ih =>
    rw [Function.iterate_succ_apply]
    by_cases hdone : p.tasks = []
    · rw [step_of_done hdone, Function.iterate_fixed (step_of_done hdone)]
      exact hdone
    · have hstep := @step_spec tree skips root p hdone
      have hless := hstep.work_lt hp
      exact ih (hp.step hstep) (by omega)

/-- A walk ends in one way only. -/
theorem iterate_eq_of_done {n m : Nat} (hn : ((step tree skips root)^[n] p).tasks = [])
    (hm : ((step tree skips root)^[m] p).tasks = []) :
    (step tree skips root)^[n] p = (step tree skips root)^[m] p := by
  wlog hle : n ≤ m generalizing n m
  · exact (this hm hn (Nat.le_of_not_le hle)).symm
  · obtain ⟨k, rfl⟩ := Nat.exists_eq_add_of_le' hle
    rw [Function.iterate_add_apply, Function.iterate_fixed (step_of_done hn)]

end Progress

end Work

section Simulation

variable {tree : FileTree} {skips : Location → Bool → Bool} {root first : Location}

/-- A walk lists directories and forgets none. -/
theorem listed_subset_walk (fuel : Nat) (v : Visit) (found : Found) :
    found.listed ⊆ (tree.walk skips root fuel v.location v.path found).listed := by
  have hlisted : found.listed =
      (found.listed.map fun location => Visit.mk location []).map Visit.location := by
    rw [List.map_map]
    exact (List.map_id _).symm
  rw [(walk_agrees fuel v _ found hlisted).listed]
  nth_rewrite 1 [hlisted]
  exact List.map_subset _ (subset_tour fuel v _)

/-- With enough fuel, a walk does what the steps do until they have dealt with one task. -/
def Simulates (tree : FileTree) (skips : Location → Bool → Bool) (root first : Location)
    (fuel : Nat) : Prop :=
  ∀ v tasks found log, v.location ∈ tree.reach first →
    room (fun _ => 1) (tree.reach first) found.listed ≤ fuel →
    ∃ n log', (Progress.step tree skips root)^[n] ⟨.enter v :: tasks, found, log⟩ =
      ⟨tasks, tree.walk skips root fuel v.location v.path found, log'⟩

theorem exists_iterate_look {fuel : Nat} (hwalk : Simulates tree skips root first fuel) (v : Visit)
    (names : List String) (tasks : List Task) (found : Found) (log : List Visit)
    (hroom : room (fun _ => 1) (tree.reach first) found.listed ≤ fuel) :
    ∃ n log', (Progress.step tree skips root)^[n] ⟨.look v names :: tasks, found, log⟩ =
      ⟨tasks, names.foldl (enter tree skips root fuel v) found, log'⟩ := by
  induction names generalizing found log with
  | nil => exact ⟨1, log, rfl⟩
  | cons name names ih =>
    rw [List.foldl_cons]
    cases hbelow : v.below? tree skips root name with
    | some w =>
      have henter : enter tree skips root fuel v found name =
          tree.walk skips root fuel w.location w.path found := by
        rw [enter, hbelow]
      have hplace : w.location ∈ tree.reach first :=
        mem_reach (Or.inr (isDirectoryAt_of_below? hbelow))
      obtain ⟨n, log', hn⟩ := hwalk w (.look v names :: tasks) found log hplace hroom
      -- The walk below forgets nothing that was listed, so the fuel is still enough for the names
      -- behind.
      obtain ⟨m, log'', hm⟩ := ih (tree.walk skips root fuel w.location w.path found) log'
        (Nat.le_trans (room_le (listed_subset_walk fuel w found)) hroom)
      refine ⟨m + n + 1, log'', ?_⟩
      rw [Function.iterate_succ_apply, Progress.step_look_of_below hbelow,
        Function.iterate_add_apply, hn, hm, henter]
    | none =>
      have hlisted : (enter tree skips root fuel v found name).listed = found.listed := by
        rw [enter, hbelow]
        dsimp only
        split_ifs <;> rfl
      obtain ⟨n, log', hn⟩ := ih (enter tree skips root fuel v found name) log (hlisted ▸ hroom)
      refine ⟨n + 1, log', ?_⟩
      rw [Function.iterate_succ_apply, Progress.step_look_of_none fuel hbelow, hn]

theorem simulates (tree : FileTree) (skips : Location → Bool → Bool) (root first : Location)
    (fuel : Nat) :
    Simulates tree skips root first fuel := by
  induction fuel with
  | zero =>
    intro v tasks found log hplace hroom
    -- There is no fuel needed where all places have been listed.
    have hseen := seen_of_room hplace (Nat.le_zero.mp hroom)
    refine ⟨1, log, ?_⟩
    rw [Function.iterate_one, Progress.step_enter_of_seen hseen, walk]
  | succ fuel ih =>
    intro v tasks found log hplace hroom
    by_cases hseen : v.location ∈ found.listed
    · refine ⟨1, log, ?_⟩
      rw [Function.iterate_one, Progress.step_enter_of_seen hseen, walk_of_listed hseen]
    · have hless := @room_list (fun _ => 1) _ _ _ hplace hseen
      obtain ⟨n, log', hn⟩ := exists_iterate_look ih v (tree.names v.location) tasks
        { found with listed := v.location :: found.listed } (v :: log) (by dsimp only; omega)
      refine ⟨n + 1, log', ?_⟩
      rw [Function.iterate_succ_apply, Progress.step_enter_of_new hseen, hn,
        walk_of_not_listed hseen]

/-- A walk ends wherever the links lead to: it takes one step for each directory, two for each of
its names and one more, at most. All fuel above the number of directories is enough. Then the
directories that it came to have been listed. At no point has the walk listed a directory twice, or
one that was listed before it began. -/
theorem walk_ends_and_lists_once (tree : FileTree) (skips : Location → Bool → Bool)
    (root : Location) (v : Visit) (found : Found) :
    (∀ n fuel, tree.walkBound v.location ≤ n → tree.directoryCount < fuel →
      ∃ log, (Progress.step tree skips root)^[n] (.start v found) =
          ⟨[], tree.walk skips root fuel v.location v.path found, log⟩ ∧
        (tree.walk skips root fuel v.location v.path found).listed =
          log.map Visit.location ++ found.listed ∧
        v.location ∈ (tree.walk skips root fuel v.location v.path found).listed ∧
        ∀ u ∈ log, ∀ w ∈ u.children tree skips root,
          w.location ∈ (tree.walk skips root fuel v.location v.path found).listed) ∧
    ∀ n, (((Progress.step tree skips root)^[n] (.start v found)).log.map Visit.location).Nodup ∧
      ∀ u ∈ ((Progress.step tree skips root)^[n] (.start v found)).log,
        u.location ∉ found.listed ∧
          (u.location = v.location ∨ tree.isDirectoryAt u.location = true) := by
  have hstart := Progress.orderly_start tree skips root v found
  constructor
  · intro n fuel hn hfuel
    have hroom := room_one_le (tree.reach v.location) found.listed
    have hlength := length_reach_le tree v.location
    obtain ⟨m, log, hm⟩ :=
      simulates tree skips root v.location fuel v [] found [] (mem_reach (Or.inl rfl)) (by omega)
    have hdone :=
      Progress.tasks_iterate hstart (Nat.le_trans (Progress.work_start_le tree v found) hn)
    have hend := (Progress.iterate_eq_of_done hdone (congrArg Progress.tasks hm)).trans hm
    have h := hstart.iterate n
    rw [hend] at h
    exact ⟨log, hend, h.listed, h.start.listed_of_done rfl,
      fun u hu w hw => (h.closed u hu w hw).listed_of_done rfl⟩
  · intro n
    have h := hstart.iterate n
    exact ⟨h.once, fun u hu => ⟨h.new u hu, h.placed u (Or.inr hu)⟩⟩

def circle : FileTree := directory [("a", directory [("up", link ".."), ("x", file ⟨#[]⟩)])]

/-- The link back up leads to a directory that has been listed, and the walk goes on behind it. -/
theorem walk_ends_and_lists_once_in_circle :
    let found := circle.walk (fun _ _ => false) [] 3 [] [] ⟨[], []⟩
    circle.walkBound [] = 9 ∧ circle.directoryCount < 3 ∧ found.listed = [["a"], []] ∧
      found.files = [["a", "x"]] ∧
      ∃ log, (Progress.step circle (fun _ _ => false) [])^[9] (.start ⟨[], []⟩ ⟨[], []⟩) = ⟨[],
        found, log⟩ ∧
        log.map Visit.location = found.listed ∧ (log.map Visit.location).Nodup := by
  intro found
  obtain ⟨hends, honce⟩ := walk_ends_and_lists_once circle (fun _ _ => false) [] ⟨[], []⟩ ⟨[], []⟩
  obtain ⟨log, hend, hlisted, -⟩ := hends 9 3 (by decide +kernel) (by decide +kernel)
  have hlog := (honce 9).1
  rw [hend] at hlog
  rw [List.append_nil] at hlisted
  exact ⟨by decide +kernel, by decide +kernel, by decide +kernel, by decide +kernel, log, hend,
    hlisted.symm, hlog⟩

end Simulation

end BuildScript.FileTree
