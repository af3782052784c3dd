import BuildScript.Proofs.ScanOrder
import BuildScript.Recipe.Run
import Mathlib.Data.List.Perm.Basic

/-!
# Schedules

The threads of a run take their steps in an order that nobody controls. Each thread keeps its own
order, and altogether the same steps are taken. What threads note in a scan does not depend on more
than that, so a scan finds the same under every schedule. The warnings of a visit come in some order
in which those of each file follow each other.
-/

namespace BuildScript

namespace Schedule

variable {α : Type} {threads : List (List α)} {thread : List α}

/-- A schedule lets all steps be taken, and no others. -/
theorem arrange_perm (schedule : Schedule) (threads : List (List α)) :
    (schedule.arrange threads).Perm threads.flatten := by
  induction schedule generalizing threads with
  | nil => exact .refl _
  | cons i schedule ih =>
    rw [arrange]
    split
    · rename_i step left hthread
      obtain ⟨hi, hget⟩ := List.getElem?_eq_some_iff.mp hthread
      have hthreads : threads = threads.take i ++ (step :: left) :: threads.drop (i + 1) := by
        rw [← hget, List.getElem_cons_drop, List.take_append_drop]
      refine ((ih _).cons step).trans ?_
      rw [List.set_eq_take_append_cons_drop, if_pos hi]
      conv_rhs => rw [hthreads]
      simp only [List.flatten_append, List.flatten_cons, List.cons_append]
      exact List.perm_middle.symm
    · exact ih threads

@[simp] theorem arrange_no_threads (schedule : Schedule) :
    schedule.arrange ([] : List (List α)) = [] :=
  (schedule.arrange_perm []).eq_nil

/-- The steps of each thread are taken in their order. -/
theorem sublist_arrange (schedule : Schedule) (h : thread ∈ threads) :
    thread.Sublist (schedule.arrange threads) := by
  obtain ⟨j, hj⟩ := List.getElem?_of_mem h
  clear h
  induction schedule generalizing threads thread with
  | nil => exact List.sublist_flatten_of_mem (List.mem_of_getElem? hj)
  | cons i schedule ih =>
    rw [arrange]
    split
    · rename_i step left hthread
      by_cases hij : i = j
      · subst hij
        obtain rfl : thread = step :: left := Option.some.inj (hj.symm.trans hthread)
        refine (ih ?_).cons_cons step
        rw [List.getElem?_set_self (List.getElem?_eq_some_iff.mp hj).1]
      · refine .cons step (ih ?_)
        rw [List.getElem?_set_ne hij, hj]
    · exact ih hj

theorem head?_arrange {first : α} (schedule : Schedule)
    (h : ∀ thread ∈ threads, thread.head? = some first) (hne : threads ≠ []) :
    (schedule.arrange threads).head? = some first := by
  induction schedule with
  | nil =>
    obtain ⟨thread, rest, rfl⟩ := List.exists_cons_of_ne_nil hne
    rw [arrange, List.flatten_cons, List.head?_append, h thread List.mem_cons_self, Option.some_or]
  | cons i schedule ih =>
    rw [arrange]
    split
    · rename_i step left hthread
      have hfirst := h (step :: left) (List.mem_of_getElem? hthread)
      rwa [List.head?_cons] at hfirst ⊢
    · exact ih

end Schedule

namespace Run

def Scans.apply (r : Recipe) (s : Scanned) : Scans → Scanned
  | look => s
  | note file step => r.scanStep s file step

def Visits.warning? : Visits → Option Warning
  | look => none
  | warn w => some w

variable {r : Recipe} {run : Run} {ctx : Context} {files edited : List SourceFile} {found : Scanned}

section Scanning

theorem scanning_of_cancelled (h : ctx.cancelled = true) (run : Run) (found : Scanned)
    (steps : List Scans) :
    scanning r ctx run found steps = (.error .cancelled, { run with state := .cancelled }) := by
  fun_induction scanning r ctx run found steps with
  | case1 => rfl
  | case2 _ hgoes => exact absurd h hgoes
  | case3 => rfl
  | case4 _ _ hgoes => exact absurd h hgoes
  | case5 _ _ _ _ ih => exact ih

theorem scanning_of_not_cancelled (h : ctx.cancelled = false) (run : Run) (found : Scanned)
    (steps : List Scans) :
    scanning r ctx run found steps =
      (.ok (), ⟨.scanned, some (steps.foldl (Scans.apply r) found)⟩) := by
  fun_induction scanning r ctx run found steps with
  | case1 _ hstops => exact absurd hstops (by simp [h])
  | case2 => rfl
  | case3 _ _ hstops => exact absurd hstops (by simp [h])
  | case4 _ _ _ ih => exact ih
  | case5 _ _ _ _ ih => exact ih

/-- Different files can be scanned in either order, step by step. -/
instance (r : Recipe) : RightCommutative (Scans.apply r) where
  right_comm := by
    intro s a b
    cases a with
    | look => rfl
    | note file step =>
      cases b with
      | look => rfl
      | note file' step' =>
        simp only [Scans.apply, Recipe.scanStep]
        cases file.project? with
        | none => rfl
        | some project =>
          cases file'.project? with
          | none => rfl
          | some project' =>
            -- Steps of different kinds change different tables.
            cases step <;> cases step' <;> try rfl
            · simp only [Recipe.scanTypeUse_eq]
              rw [Table.update_comm (by simp [Bool.or_right_comm])]
            · simp only [Recipe.scanConfiguration]
              rw [Table.update_comm (by simp [NameSet.insertAll_comm])]
            · simp only [Recipe.scanSuites]
              split_ifs <;> try rfl
              rw [Table.update_comm (by simp [NameSet.insertAll_comm])]

theorem foldl_flatten_scans (r : Recipe) (files : List SourceFile) (s : Scanned) :
    (files.map scans).flatten.foldl (Scans.apply r) s = files.foldl r.scanFile s := by
  induction files generalizing s with
  | nil => rfl
  | cons file files ih =>
    rw [List.map_cons, List.flatten_cons, List.foldl_append, ih]
    rfl

/-- Under every schedule a scan finds what it finds if it takes one file after the other. -/
theorem foldl_arrange_scans (r : Recipe) (schedule : Schedule) (files : List SourceFile) :
    (schedule.arrange (files.map scans)).foldl (Scans.apply r) .empty = r.scan files := by
  rw [(schedule.arrange_perm _).foldl_eq, foldl_flatten_scans]
  rfl

theorem scan_of_cancelled (hstate : run.state = .initialized) (h : ctx.cancelled = true)
    (r : Recipe) (files : List SourceFile) (schedule : Schedule) :
    run.scan r files ctx schedule = (.error .cancelled, { run with state := .cancelled }) := by
  simp [scan, hstate, scanning_of_cancelled h]

theorem scan_of_not_cancelled (hstate : run.state = .initialized) (h : ctx.cancelled = false)
    (r : Recipe) (files : List SourceFile) (schedule : Schedule) :
    run.scan r files ctx schedule = (.ok (), ⟨.scanned, some (r.scan files)⟩) := by
  simp [scan, hstate, scanning_of_not_cancelled h, foldl_arrange_scans]

end Scanning

section Visiting

theorem visiting_of_not_cancelled (h : ctx.cancelled = false) (edited : List SourceFile) (run : Run)
    (steps : List Visits) :
    visiting edited run ctx steps = (.ok edited, { run with state := .done },
      { ctx with warnings := ctx.warnings ++ steps.filterMap Visits.warning? }) := by
  induction steps generalizing ctx with
  | nil => simp [visiting]
  | cons step steps ih =>
    cases step with
    | look => simp [visiting, h, ih, List.filterMap_cons, Visits.warning?]
    | warn w =>
      rw [visiting, ih (by exact h)]
      simp [Context.warn, Visits.warning?]

def noted (schedule : Schedule) (warned : List (List Warning)) : List Warning :=
  (schedule.arrange (warned.map fun warnings => .look :: warnings.map Visits.warn)).filterMap
    Visits.warning?

theorem filterMap_warning? (warnings : List Warning) :
    (Visits.look :: warnings.map Visits.warn).filterMap Visits.warning? = warnings := by
  rw [List.filterMap_cons_none rfl, List.filterMap_map]
  exact List.filterMap_some

theorem flatMap_filterMap_warning? (warned : List (List Warning)) :
    (warned.map fun warnings => Visits.look :: warnings.map Visits.warn).flatten.filterMap
      Visits.warning? =
      warned.flatten := by
  rw [List.filterMap_flatten, List.map_map]
  congr 1
  exact (List.map_congr_left fun warnings _ => filterMap_warning? warnings).trans (List.map_id _)

@[simp] theorem noted_nil (warned : List (List Warning)) : noted [] warned = warned.flatten :=
  flatMap_filterMap_warning? warned

/-- Under every schedule the same warnings are given. -/
theorem noted_perm (schedule : Schedule) (warned : List (List Warning)) :
    (noted schedule warned).Perm warned.flatten := by
  rw [← flatMap_filterMap_warning?]
  exact (schedule.arrange_perm _).filterMap _

/-- The warnings of each file come in their order. -/
theorem sublist_noted (schedule : Schedule) {warned : List (List Warning)} {warnings : List Warning}
    (h : warnings ∈ warned) : warnings.Sublist (noted schedule warned) := by
  have hthread := schedule.sublist_arrange (List.mem_map_of_mem (f := fun warnings =>
    Visits.look :: warnings.map Visits.warn) h)
  rw [← filterMap_warning? warnings]
  exact hthread.filterMap _

/-- What files leave in warnings that were noted under a schedule, if each leaves its own. -/
structure Notes (own : SourceFile → List Warning) (files : List SourceFile) (schedule : Schedule)
    (noted : List Warning) : Prop where
  perm : noted.Perm (files.flatMap own)
  sublist : ∀ f ∈ files, (own f).Sublist noted
  /-- One file after the other leaves its warnings. -/
  unscheduled : schedule = [] → noted = files.flatMap own

theorem notes_noted (own : SourceFile → List Warning) (files : List SourceFile)
    (schedule : Schedule) :
    Notes own files schedule (noted schedule (files.map own)) where
  perm := noted_perm schedule (files.map own)
  sublist := fun _ hf => sublist_noted schedule (List.mem_map_of_mem hf)
  unscheduled := by
    rintro rfl
    exact noted_nil (files.map own)

/-- A visit that is cancelled before a file is taken up gives no warning. -/
theorem visiting_of_cancelled (h : ctx.cancelled = true) (edited : List SourceFile) (run : Run)
    (schedule : Schedule) {visited : List (SourceFile × List Warning)} (hne : visited ≠ []) :
    visiting edited run ctx (schedule.arrange (visited.map visits)) =
      (.error .cancelled, { run with state := .cancelled }, ctx) := by
  have hlook : ∀ thread ∈ visited.map visits, thread.head? = some Visits.look := by
    rw [List.forall_mem_map]
    exact fun _ _ => rfl
  obtain ⟨left, hsteps⟩ :=
    List.head?_eq_some_iff.mp (schedule.head?_arrange hlook (by simpa using hne))
  rw [hsteps, visiting, if_pos h]

end Visiting

end Run

end BuildScript
