import BuildScript.Proofs.Subtrees
import BuildScript.SourceFile.Cursor

/-!
# What visitors see

A visitor that replaces nothing only reads. It leaves every tree as it is, and what it knows in the
end comes from the nodes that it was asked about: from a node first, and then from the children if
it went on with them. One that always goes on is asked about all places of a file, each before those
inside it.
-/

namespace BuildScript

theorem run_bind_of_run {σ α β : Type} {x : StateM σ α} {f : α → StateM σ β} {s s' : σ} {a : α}
    (h : x.run s = (a, s')) : (x >>= f).run s = (f a).run s' := by
  rw [StateT.run_bind, h]
  rfl

namespace Node

@[simp] theorem sameAll_self (nodes : List Node) : sameAll nodes nodes = true := by
  induction nodes with
  | nil => rfl
  | cons n nodes ih => simp [sameAll, same, ih]

theorem rebuild_self (n : Node) : n.rebuild n = n := by
  rw [rebuild, sameAll_self, if_pos rfl]

theorem run_ask {σ : Type} (v : Visitor (StateM σ)) (above : List Node) (n : Node)
    (walk : StateM σ Node) (s : σ) :
    (ask v above n walk).run s =
      match (v above n).run s with
      | (some other, s') => (other, s')
      | (none, s') => walk.run s' := by
  rw [ask, StateT.run_bind]
  rcases (v above n).run s with ⟨_ | other, s'⟩ <;> rfl

end Node

namespace Visitor

variable {σ : Type} {v : Visitor (StateM σ)} {P : σ → Prop} {above nodes : List Node}
    {n : Node} {s : σ}

/-- In a state with `P` the visitor replaces nothing, it goes on with the children of a node or
leaves it as it is. And `P` holds again then. -/
structure Reads (v : Visitor (StateM σ)) (P : σ → Prop) : Prop where
  same : ∀ above n s, P s → ∀ other ∈ ((v above n).run s).1, other = n
  holds : ∀ above n s, P s → P ((v above n).run s).2

def after (v : Visitor (StateM σ)) (above : List Node) (n : Node) (s : σ) : σ :=
  ((n.visit v above).run s).2

def afterAll (v : Visitor (StateM σ)) (above nodes : List Node) (s : σ) : σ :=
  nodes.foldl (fun s n => v.after above n s) s

@[simp] theorem afterAll_nil : v.afterAll above [] s = s := rfl

@[simp] theorem afterAll_cons :
    v.afterAll above (n :: nodes) s = v.afterAll above nodes (v.after above n s) := rfl

theorem afterAll_append (more : List Node) :
    v.afterAll above (nodes ++ more) s = v.afterAll above more (v.afterAll above nodes s) :=
  List.foldl_append

def Leaves (v : Visitor (StateM σ)) (P : σ → Prop) (above : List Node) (n : Node) : Prop :=
  ∀ s, P s → (n.visit v above).run s = (n, v.after above n s) ∧ P (v.after above n s)

theorem run_visitAll (h : ∀ n ∈ nodes, v.Leaves P above n) (hs : P s) :
    (Node.visitAll v above nodes).run s = (nodes, v.afterAll above nodes s) ∧
      P (v.afterAll above nodes s) := by
  induction nodes generalizing s with
  | nil => exact ⟨rfl, hs⟩
  | cons n nodes ih =>
    rw [List.forall_mem_cons] at h
    obtain ⟨hfirst, hP⟩ := h.1 s hs
    obtain ⟨hrest, hP⟩ := ih h.2 hP
    refine ⟨?_, hP⟩
    rw [Node.visitAll, run_bind_of_run hfirst, run_bind_of_run hrest]
    rfl

theorem run_visitItems {items : List (Argument Node)}
    (h : ∀ n ∈ items.map Argument.node, v.Leaves P above n) (hs : P s) :
    (Node.visitItems v above items).run s = (items, v.afterAll above (items.map Argument.node) s) ∧
      P (v.afterAll above (items.map Argument.node) s) := by
  induction items generalizing s with
  | nil => exact ⟨rfl, hs⟩
  | cons item items ih =>
    rw [List.map_cons, List.forall_mem_cons] at h
    obtain ⟨hfirst, hP⟩ := h.1 s hs
    obtain ⟨hrest, hP⟩ := ih h.2 hP
    refine ⟨?_, hP⟩
    rw [Node.visitItems, run_bind_of_run hfirst, run_bind_of_run hrest]
    rfl

theorem run_visitArguments {c : Call Node} (h : ∀ n ∈ c.argumentNodes, v.Leaves P above n)
    (hs : P s) :
    (Node.visitArguments v above c.arguments).run s =
      (c.arguments, v.afterAll above c.argumentNodes s) ∧
      P (v.afterAll above c.argumentNodes s) := by
  rcases c with ⟨name, types, _ | arguments, trailing, delegate⟩
  · exact ⟨rfl, hs⟩
  · obtain ⟨hitems, hP⟩ := run_visitItems h hs
    refine ⟨?_, hP⟩
    rw [Node.visitArguments, run_bind_of_run hitems]
    rfl

theorem run_visitClosure {body : Option Node} (h : ∀ n ∈ body.toList, v.Leaves P above n)
    (hs : P s) :
    (Node.visitClosure v above body).run s = (body, v.afterAll above body.toList s) ∧
      P (v.afterAll above body.toList s) := by
  cases body with
  | none => exact ⟨rfl, hs⟩
  | some body =>
    obtain ⟨hbody, hP⟩ := h body (by simp) s hs
    refine ⟨?_, hP⟩
    rw [Node.visitClosure, run_bind_of_run hbody]
    rfl

theorem run_visitCall {c : Call Node}
    (h : ∀ n ∈ c.argumentNodes ++ c.closure.toList, v.Leaves P above n) (hs : P s) :
    (Node.visitCall v above c).run s =
      (c, v.afterAll above (c.argumentNodes ++ c.closure.toList) s) ∧
      P (v.afterAll above (c.argumentNodes ++ c.closure.toList) s) := by
  rw [List.forall_mem_append] at h
  obtain ⟨harguments, hP⟩ := run_visitArguments h.1 hs
  obtain ⟨hclosure, hP⟩ := run_visitClosure h.2 hP
  rw [afterAll_append]
  refine ⟨?_, hP⟩
  rw [Node.visitCall, run_bind_of_run harguments, run_bind_of_run hclosure]
  rfl

/-- Each kind of node visits its children and is put together from them again. -/
theorem exists_walk (v : Visitor (StateM σ)) (P : σ → Prop) (above : List Node) (n : Node) :
    ∃ walk, n.visit v above = Node.ask v above n walk ∧
      ((∀ c ∈ n.children, v.Leaves P (n :: above) c) → ∀ s, P s →
        walk.run s = (n, v.afterAll (n :: above) n.children s) ∧
          P (v.afterAll (n :: above) n.children s)) := by
  cases n with
  | call head c =>
    refine ⟨_, rfl, fun h s hs => ?_⟩
    obtain ⟨hcall, hP⟩ := run_visitCall h hs
    refine ⟨?_, hP⟩
    rw [run_bind_of_run hcall, Node.rebuild_self]
    rfl
  | closure head statements tail =>
    refine ⟨_, rfl, fun h s hs => ?_⟩
    obtain ⟨hall, hP⟩ := run_visitAll h hs
    refine ⟨?_, hP⟩
    rw [Node.children] at hall
    rw [run_bind_of_run hall, Node.rebuild_self]
    rfl
  | named head name colonLead value =>
    refine ⟨_, rfl, fun h s hs => ?_⟩
    obtain ⟨hvalue, hP⟩ := h value (by simp [Node.children]) s hs
    refine ⟨?_, hP⟩
    rw [run_bind_of_run hvalue, Node.rebuild_self]
    rfl
  | assignment head target operatorLead value =>
    refine ⟨_, rfl, fun h s hs => ?_⟩
    obtain ⟨htarget, hP⟩ := h target (by simp [Node.children]) s hs
    obtain ⟨hvalue, hP⟩ := h value (by simp [Node.children]) _ hP
    refine ⟨?_, hP⟩
    rw [run_bind_of_run htarget, run_bind_of_run hvalue, Node.rebuild_self]
    rfl
  | literal | identifier | raw => exact ⟨_, rfl, fun _ s hs => ⟨rfl, hs⟩⟩

namespace Reads

theorem run_visit (hv : v.Reads P) (h : ∀ c ∈ n.children, v.Leaves P (n :: above) c) (hs : P s) :
    (n.visit v above).run s =
      match (v above n).run s with
      | (some _, s') => (n, s')
      | (none, s') => (n, v.afterAll (n :: above) n.children s') := by
  obtain ⟨walk, hvisit, hwalk⟩ := exists_walk v P above n
  have hsame := hv.same above n s hs
  have hholds := hv.holds above n s hs
  rw [hvisit, Node.run_ask]
  rcases hask : (v above n).run s with ⟨_ | other, s'⟩ <;> rw [hask] at hsame hholds
  · exact (hwalk h s' hholds).1
  · rw [hsame other rfl]

/-- A visit that only reads leaves every node as it is. -/
theorem leaves (hv : v.Reads P) (above : List Node) (n : Node) : v.Leaves P above n := by
  induction n using Node.induct_children generalizing above with
  | _ n ih =>
    intro s hs
    have hchildren := fun c hc => ih c hc (n :: above)
    have hrun := hv.run_visit hchildren hs
    have hholds := hv.holds above n s hs
    rw [after, hrun]
    rcases hask : (v above n).run s with ⟨_ | other, s'⟩ <;> rw [hask] at hholds
    · obtain ⟨walk, -, hwalk⟩ := exists_walk v P above n
      exact ⟨rfl, (hwalk hchildren s' hholds).2⟩
    · exact ⟨rfl, hholds⟩

/-- What is known after a node comes from the node, and from the children if the visitor goes on
with them. -/
theorem after_eq (hv : v.Reads P) (above : List Node) (n : Node) (hs : P s) :
    v.after above n s =
      match (v above n).run s with
      | (some _, s') => s'
      | (none, s') => v.afterAll (n :: above) n.children s' := by
  rw [after, hv.run_visit (fun c _ => hv.leaves (n :: above) c) hs]
  rcases (v above n).run s with ⟨_ | other, s'⟩ <;> rfl

theorem visit_file (hv : v.Reads P) (file : SourceFile) (hs : P s) :
    (file.visit v).run s = (file, v.afterAll [] file.statements s) ∧
      P (v.afterAll [] file.statements s) := by
  obtain ⟨hall, hP⟩ := run_visitAll (fun n (_ : n ∈ file.statements) => hv.leaves [] n) hs
  refine ⟨?_, hP⟩
  rw [SourceFile.visit, run_bind_of_run hall, Node.sameAll_self, if_pos rfl]
  rfl

end Reads

end Visitor

namespace Node

variable {above path outer nodes : List Node} {n : Node}

theorem pathFinder_reads : pathFinder.Reads fun _ => True where
  same := by
    rintro above n s - other ⟨⟩
  holds := fun _ _ _ _ => trivial

/-- The paths to a node and to those below it, in the order in which they are written. -/
def paths (above : List Node) (n : Node) : List (List Node) := (pathFinder.after above n []).reverse

theorem pathFinder_after_eq (above : List Node) (n : Node) (s : List (List Node)) :
    pathFinder.after above n s = pathFinder.afterAll (n :: above) n.children ((n :: above) :: s) :=
  pathFinder_reads.after_eq above n trivial

theorem pathFinder_afterAll_of_after
    (h : ∀ n ∈ nodes, ∀ s, pathFinder.after above n s = pathFinder.after above n [] ++ s)
    (s : List (List Node)) :
    pathFinder.afterAll above nodes s = pathFinder.afterAll above nodes [] ++ s := by
  induction nodes generalizing s with
  | nil => rfl
  | cons n nodes ih =>
    rw [List.forall_mem_cons] at h
    simp only [Visitor.afterAll_cons]
    rw [h.1 s, ih h.2, ih h.2 (pathFinder.after above n []), List.append_assoc]

/-- New paths come in front of those that are known. -/
theorem pathFinder_after (above : List Node) (n : Node) (s : List (List Node)) :
    pathFinder.after above n s = pathFinder.after above n [] ++ s := by
  induction n using induct_children generalizing above s with
  | _ n ih =>
    have hchildren :=
      @pathFinder_afterAll_of_after (n :: above) n.children fun c hc => ih c hc (n :: above)
    rw [pathFinder_after_eq, pathFinder_after_eq, hchildren, hchildren [n :: above],
      List.append_assoc]
    rfl

theorem pathFinder_afterAll (above nodes : List Node) (s : List (List Node)) :
    pathFinder.afterAll above nodes s = (nodes.flatMap (paths above)).reverse ++ s := by
  induction nodes generalizing s with
  | nil => rfl
  | cons n nodes ih =>
    rw [Visitor.afterAll_cons, ih, pathFinder_after, List.flatMap_cons, List.reverse_append,
      List.append_assoc, paths, List.reverse_reverse]

/-- The path to a node comes first, then those to the nodes below its children. -/
theorem paths_eq (above : List Node) (n : Node) :
    n.paths above = (n :: above) :: n.children.flatMap (paths (n :: above)) := by
  rw [paths, pathFinder_after_eq, pathFinder_afterAll, List.reverse_append, List.reverse_reverse]
  rfl

theorem mem_paths :
    path ∈ n.paths above ↔ path = n :: above ∨ ∃ c ∈ n.children, path ∈ c.paths (n :: above) := by
  rw [paths_eq, List.mem_cons, List.mem_flatMap]

end Node

theorem Cursor.all_eq (file : SourceFile) :
    all file = ⟨file, []⟩ :: (file.statements.flatMap (Node.paths [])).map fun path =>
      ⟨file, path⟩ := by
  rw [all, (Node.pathFinder_reads.visit_file file trivial).1, Node.pathFinder_afterAll,
    List.append_nil, List.reverse_reverse]

end BuildScript
