import BuildScript.Proofs.Targets
import BuildScript.Workspace.Project

/-!
# What declarations cover

A declaration is requested by its configuration and by all that inherit from it, and is visible in
them. If the declarations of a dependency become more, then no configuration becomes a target of a
recipe for it that was none before: what still needs the dependency inherits from nothing that has
received it, so whatever made it redundant before still needs the dependency, too.
-/

namespace BuildScript

/-- Dependencies of a coordinate are added to others unless there is one. -/
theorem Dependency.exists_add (ds : List Dependency) (d : Dependency) (k : Coordinate) :
    (∃ x ∈ if (ds.find? (·.isOf d.toCoordinate)).isSome then ds else ds ++ [d],
      x.toCoordinate = k) ↔
      (∃ x ∈ ds, x.toCoordinate = k) ∨ d.toCoordinate = k := by
  split_ifs with hknown
  · have hknown : ∃ x ∈ ds, x.toCoordinate = d.toCoordinate := by simpa [isOf] using hknown
    refine ⟨Or.inl, ?_⟩
    rintro (h | rfl)
    · exact h
    · exact hknown
  · simp [or_and_right, exists_or]

theorem Configuration.exists_requested_request (c : Configuration) (d : Dependency)
    (k : Coordinate) :
    (∃ x ∈ (c.request d).requested, x.toCoordinate = k) ↔
      (∃ x ∈ c.requested, x.toCoordinate = k) ∨ d.toCoordinate = k := by
  rw [← Dependency.exists_add, request, requested?, apply_ite Configuration.requested]

theorem Configuration.exists_resolved_foldl (ds : List Dependency) (c : Configuration)
    (k : Coordinate) :
    (∃ x ∈ (ds.foldl resolve c).resolved, x.toCoordinate = k) ↔
      (∃ x ∈ c.resolved, x.toCoordinate = k) ∨ ∃ x ∈ ds, x.toCoordinate = k := by
  induction ds generalizing c with
  | nil => simp
  | cons d ds ih =>
    have hstep : (∃ x ∈ (c.resolve d).resolved, x.toCoordinate = k) ↔
        (∃ x ∈ c.resolved, x.toCoordinate = k) ∨ d.toCoordinate = k := by
      rw [← Dependency.exists_add, resolve, resolved?, apply_ite Configuration.resolved]
    rw [List.foldl_cons, ih, hstep, or_assoc]
    simp

namespace DependencyGraph

variable {g : DependencyGraph} {x name : String} {k : Coordinate} {d : Dependency}

def Requests (g : DependencyGraph) (name : String) (k : Coordinate) : Prop :=
  ∃ c, g.configuration? name = some c ∧ ∃ d ∈ c.requested, d.toCoordinate = k

def Sees (g : DependencyGraph) (name : String) (k : Coordinate) : Prop :=
  ∃ c, g.configuration? name = some c ∧ ∃ d ∈ c.resolved, d.toCoordinate = k

theorem contains_request :
    (g.request name d).contains x = true ↔ x = name ∨ g.contains x = true := by
  unfold contains
  rw [configuration?_request]
  split_ifs with h
  · simp [h]
  · have hne : x ≠ name := fun heq => h heq.symm
    simp [hne]

theorem requests_request :
    (g.request name d).Requests x k ↔ g.Requests x k ∨ x = name ∧ d.toCoordinate = k := by
  unfold Requests
  rw [configuration?_request]
  split_ifs with h
  · subst h
    simp only [Option.some.injEq, exists_eq_left', Configuration.exists_requested_request, true_and]
    cases g.configuration? name with
    | none => simp
    | some c => simp
  · have hne : x ≠ name := fun heq => h heq.symm
    simp [hne]

theorem sees_request : (g.request name d).Sees x k ↔ g.Sees x k := by
  have hresolved : ∀ c : Configuration, (c.request d).resolved = c.resolved := by
    intro c
    unfold Configuration.request
    split <;> rfl
  unfold Sees
  rw [configuration?_request]
  split_ifs with h
  · subst h
    cases g.configuration? name <;> simp [hresolved]
  · rfl

/-- A graph with the same edges and some more configurations and requests. -/
structure Gains (more : String → Prop) (requests : String → Coordinate → Prop)
    (g g' : DependencyGraph) : Prop where
  parents : g'.parents = g.parents
  contains : ∀ x, g'.contains x = true ↔ g.contains x = true ∨ more x
  requests : ∀ x k, g'.Requests x k ↔ g.Requests x k ∨ requests x k
  sees : ∀ x k, g'.Sees x k ↔ g.Sees x k

theorem Gains.reaches {more : String → Prop} {requests : String → Coordinate → Prop}
    {g' : DependencyGraph} (h : Gains more requests g g') :
    g'.Reaches = g.Reaches := by
  rw [Reaches, Reaches, extends_congr h.parents]

theorem gains_requests (names : List String) (d : Dependency) (g : DependencyGraph) :
    Gains (· ∈ names) (fun x k => x ∈ names ∧ d.toCoordinate = k) g
      (names.foldl (fun g name => g.request name d) g) := by
  induction names generalizing g with
  | nil => exact ⟨rfl, by simp, by simp, by simp⟩
  | cons name names ih =>
    have hrest := ih (g.request name d)
    refine ⟨hrest.parents.trans (parents_request g name d), fun x => ?_, fun x k => ?_,
      fun x k => ?_⟩
    · rw [List.foldl_cons, hrest.contains, contains_request, List.mem_cons]
      tauto
    · rw [List.foldl_cons, hrest.requests, requests_request, List.mem_cons]
      tauto
    · rw [List.foldl_cons, hrest.sees, sees_request]

section Declaring

variable {declaration : Declaration}

/-- Whatever inherits from a name is the name or exists. -/
theorem contains_of_reaches {y : String} (h : g.Reaches x y) : x = y ∨ g.contains x = true := by
  obtain rfl | ⟨z, hedge, -⟩ := h.cases_head
  · exact Or.inl rfl
  · exact Or.inr (contains_iff.mpr (mem_names_of_extends hedge))

theorem mem_declare_names :
    x ∈ (g.extending declaration.configuration true).map Configuration.name ++
      [declaration.configuration] ↔
      g.Reaches x declaration.configuration := by
  simp only [List.mem_append, List.mem_map, mem_extending, List.mem_singleton]
  constructor
  · rintro (⟨c, ⟨-, -, hreach⟩, rfl⟩ | rfl)
    · exact hreach
    · exact .refl
  · intro hreach
    by_cases hname : x = declaration.configuration
    · exact Or.inr hname
    · obtain ⟨c, hc, rfl⟩ :=
        List.mem_map.mp (contains_iff.mp ((contains_of_reaches hreach).resolve_left hname))
      exact Or.inl ⟨c, ⟨hc, hname, hreach⟩, rfl⟩

theorem gains_declare (g : DependencyGraph) (declaration : Declaration) :
    Gains (· = declaration.configuration)
      (fun x k => g.Reaches x declaration.configuration ∧ declaration.dependency.toCoordinate = k) g
      (Project.declare g declaration) := by
  have hgains :=
    gains_requests ((g.extending declaration.configuration true).map Configuration.name ++
    [declaration.configuration]) declaration.dependency g
  refine ⟨hgains.parents, fun x => ?_, fun x k => ?_, hgains.sees⟩
  · rw [Project.declare, hgains.contains, mem_declare_names]
    constructor
    · rintro (h | h)
      · exact Or.inl h
      · exact (contains_of_reaches h).symm
    · rintro (h | rfl)
      · exact Or.inl h
      · exact Or.inr .refl
  · rw [Project.declare, hgains.requests, mem_declare_names]

/-- Every declaration is requested by all that inherit from its configuration. -/
theorem gains_declareAll (declarations : List Declaration) (g : DependencyGraph) :
    Gains (fun x => ∃ d ∈ declarations, x = d.configuration)
      (fun x k => ∃ d ∈ declarations, g.Reaches x d.configuration ∧ d.dependency.toCoordinate = k) g
      (declarations.foldl Project.declare g) := by
  induction declarations generalizing g with
  | nil => exact ⟨rfl, by simp, by simp, by simp⟩
  | cons declaration declarations ih =>
    have hstep := gains_declare g declaration
    have hrest := ih (Project.declare g declaration)
    rw [hstep.reaches] at hrest
    refine ⟨hrest.parents.trans hstep.parents, fun x => ?_, fun x k => ?_, fun x k => ?_⟩
    · rw [List.foldl_cons, hrest.contains, hstep.contains, or_assoc]
      simp
    · rw [List.foldl_cons, hrest.requests, hstep.requests, or_assoc]
      simp
    · rw [List.foldl_cons, hrest.sees, hstep.sees]

end Declaring

theorem contains_resolveInherited : g.resolveInherited.contains x = g.contains x := by
  rw [contains, contains, configuration?_resolveInherited, Option.isSome_map]

theorem requests_resolveInherited : g.resolveInherited.Requests x k ↔ g.Requests x k := by
  unfold Requests
  rw [configuration?_resolveInherited]
  simp

theorem mem_inherited :
    d ∈ g.inherited name ↔
      ∃ y, g.Reaches name y ∧ ∃ c, g.configuration? y = some c ∧ d ∈ c.requested := by
  simp only [inherited, List.mem_flatMap, mem_ancestors]
  refine exists_congr fun y => and_congr_right fun _ => ?_
  cases g.configuration? y with
  | none => simp
  | some c => simp

/-- What is declared in a configuration that another one inherits from is visible there. -/
theorem sees_resolveInherited :
    g.resolveInherited.Sees x k ↔
      g.Sees x k ∨ g.contains x = true ∧ ∃ y, g.Reaches x y ∧ g.Requests y k := by
  have hinherited : ∀ name, (∃ d ∈ g.inherited name, d.toCoordinate = k) ↔
      ∃ y, g.Reaches name y ∧ g.Requests y k := by
    intro name
    constructor
    · rintro ⟨d, hd, hk⟩
      obtain ⟨y, hreach, c, hc, hrequested⟩ := mem_inherited.mp hd
      exact ⟨y, hreach, c, hc, d, hrequested, hk⟩
    · rintro ⟨y, hreach, c, hc, d, hrequested, hk⟩
      exact ⟨d, mem_inherited.mpr ⟨y, hreach, c, hc, hrequested⟩, hk⟩
  unfold Sees contains
  rw [configuration?_resolveInherited]
  cases hx : g.configuration? x with
  | none => simp
  | some c =>
    obtain rfl := (mem_of_configuration? hx).2
    simp only [Option.map_some, Option.some.injEq, exists_eq_left',
      Configuration.exists_resolved_foldl, hinherited, Option.isSome_some, true_and]

end DependencyGraph

namespace Project

open DependencyGraph

theorem baseGraph_of_undescribed {p : Project} (h : p.config = none) (script : SourceFile)
    (sourceSets : List String) :
    p.baseGraph script sourceSets = .ok (java (sourceSets ++ script.suites false)) := by
  simp only [baseGraph, h, bind, Except.bind, pure, Except.pure, Option.getD_none]

def graphWith (base : DependencyGraph) (declarations : List Declaration) : DependencyGraph :=
  (declarations.foldl Project.declare base).resolveInherited

variable {base : DependencyGraph} {declarations : List Declaration} {x : String} {k : Coordinate}

theorem contains_graphWith :
    (graphWith base declarations).contains x = true ↔
      base.contains x = true ∨ ∃ d ∈ declarations, x = d.configuration := by
  rw [graphWith, contains_resolveInherited, (gains_declareAll declarations base).contains]

theorem requests_graphWith :
    (graphWith base declarations).Requests x k ↔
      base.Requests x k ∨ ∃ d ∈ declarations, base.Reaches x d.configuration ∧
        d.dependency.toCoordinate = k := by
  rw [graphWith, requests_resolveInherited, (gains_declareAll declarations base).requests]

theorem reaches_graphWith : (graphWith base declarations).Reaches = base.Reaches := by
  rw [graphWith, Reaches, extends_congr (parents_resolveInherited _)]
  exact (gains_declareAll declarations base).reaches

theorem sees_graphWith :
    (graphWith base declarations).Sees x k ↔
      base.Sees x k ∨ (graphWith base declarations).contains x = true ∧
        ∃ y, base.Reaches x y ∧ (graphWith base declarations).Requests y k := by
  have hgains := gains_declareAll declarations base
  simp only [graphWith, sees_resolveInherited, hgains.sees, hgains.reaches,
    contains_resolveInherited, requests_resolveInherited]

end Project

namespace Recipe

open DependencyGraph Project

variable {r : Recipe} {g : DependencyGraph} {accumulated : List String} {name : String}

theorem needs_iff :
    r.Needs g accumulated name ↔ r.Candidate accumulated name ∧ g.contains name = true ∧
      ¬ g.Requests name r.coordinate ∧
        (r.options.acceptTransitive = true → ¬ g.Sees name r.coordinate) := by
  unfold Needs Requests Sees contains
  cases g.configuration? name with
  | none => simp
  | some c => simp

/-- More declarations of the dependency make no configuration a target that was none. -/
theorem mem_targetConfigurations_of_adds {base : DependencyGraph} {old new : List Declaration}
    (hkeeps : ∀ d ∈ old, d ∈ new)
    (honly : ∀ d ∈ new, d ∈ old ∨ d.dependency.toCoordinate = r.coordinate)
    (h : name ∈ r.targetConfigurations (graphWith base new) accumulated) :
    name ∈ r.targetConfigurations (graphWith base old) accumulated := by
  have hrequests : ∀ x, (graphWith base old).Requests x r.coordinate →
      (graphWith base new).Requests x r.coordinate := by
    intro x hx
    rw [requests_graphWith] at hx ⊢
    exact hx.imp_right fun ⟨d, hd, hreach⟩ => ⟨d, hkeeps d hd, hreach⟩
  have hcontains : ∀ x, (graphWith base old).contains x = true →
      (graphWith base new).contains x = true := by
    intro x hx
    rw [contains_graphWith] at hx ⊢
    exact hx.imp_right fun ⟨d, hd, hname⟩ => ⟨d, hkeeps d hd, hname⟩
  have hsees : ∀ x, (graphWith base old).Sees x r.coordinate →
      (graphWith base new).Sees x r.coordinate := by
    intro x hx
    rw [sees_graphWith] at hx ⊢
    exact hx.imp_right fun ⟨hexists, y, hreach, hy⟩ =>
      ⟨hcontains x hexists, y, hreach, hrequests y hy⟩
  rw [mem_targetConfigurations, reaches_graphWith] at h ⊢
  obtain ⟨hneeds, hlow⟩ := h
  obtain ⟨hcandidate, hexists, hnot, hunseen⟩ := needs_iff.mp hneeds
  -- A configuration that exists only now was made for the dependency, so it would not need it.
  have hbefore : (graphWith base old).contains name = true := by
    rw [contains_graphWith] at hexists ⊢
    obtain hexists | ⟨d, hd, rfl⟩ := hexists
    · exact Or.inl hexists
    · obtain hold | hcoordinate := honly d hd
      · exact Or.inr ⟨d, hold, rfl⟩
      · exact absurd (requests_graphWith.mpr (Or.inr ⟨d, hd, .refl, hcoordinate⟩)) hnot
  refine ⟨needs_iff.mpr ⟨hcandidate, hbefore, fun hreq => hnot (hrequests name hreq), ?_⟩, ?_⟩
  · exact fun haccept hseen => hunseen haccept (hsees name hseen)
  · -- What made it redundant would still do so, unless it has received the dependency and passes
    -- it on.
    intro other hother hne hreach
    obtain ⟨hcandidate', hexists', hnot', hunseen'⟩ := needs_iff.mp hother
    refine hlow other (needs_iff.mpr ⟨hcandidate', hcontains other hexists', ?_, ?_⟩) hne hreach
    · intro hreq
      rw [requests_graphWith] at hreq hnot' hnot
      push Not at hnot hnot'
      obtain hbase | ⟨d, hd, hup, hcoordinate⟩ := hreq
      · exact hnot'.1 hbase
      · exact hnot.2 d hd (hreach.trans hup) hcoordinate
    · intro haccept hseen
      rw [sees_graphWith] at hseen
      obtain hbase | ⟨-, y, hup, hy⟩ := hseen
      · exact hunseen' haccept (sees_graphWith.mpr (Or.inl hbase))
      · exact hunseen haccept (sees_graphWith.mpr (Or.inr ⟨hexists, y, hreach.trans hup, hy⟩))

end Recipe

end BuildScript
