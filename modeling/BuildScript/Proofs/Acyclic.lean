import BuildScript.Proofs.Inheritance
import Mathlib.Data.List.Nodup
import Mathlib.Data.List.Perm.Subperm
import Mathlib.Order.WellFounded

/-!
# Acyclic graphs

A graph that passes validation has no chain of edges that goes on forever, and no operation on
graphs brings one about.
-/

namespace BuildScript

namespace Configuration

@[simp] theorem request_name (c : Configuration) (d : Dependency) :
    (c.request d).name = c.name := by
  unfold request
  split <;> rfl

@[simp] theorem request_extendsFrom (c : Configuration) (d : Dependency) :
    (c.request d).extendsFrom = c.extendsFrom := by
  unfold request
  split <;> rfl

/-- Making dependencies visible leaves everything else as it is. -/
theorem foldl_resolve (ds : List Dependency) (c : Configuration) :
    ∃ resolved, ds.foldl resolve c = { c with resolved } := by
  induction ds generalizing c with
  | nil => exact ⟨c.resolved, rfl⟩
  | cons d ds ih =>
    obtain ⟨resolved, h⟩ := ih (c.resolve d)
    refine ⟨resolved, ?_⟩
    rw [List.foldl_cons, h]
    unfold resolve
    split <;> rfl

@[simp] theorem foldl_resolve_extendsFrom (ds : List Dependency) (c : Configuration) :
    (ds.foldl resolve c).extendsFrom = c.extendsFrom := by
  obtain ⟨resolved, h⟩ := foldl_resolve ds c
  rw [h]

@[simp] theorem foldl_resolve_requested (ds : List Dependency) (c : Configuration) :
    (ds.foldl resolve c).requested = c.requested := by
  obtain ⟨resolved, h⟩ := foldl_resolve ds c
  rw [h]

end Configuration

namespace DependencyGraph

def Closed (g : DependencyGraph) : Prop := ∀ child parent, g.Extends child parent → parent ∈ g.names

def Grounded (g : DependencyGraph) : Prop := WellFounded fun parent child => g.Extends child parent

theorem mem_names_of_extends {g : DependencyGraph} {child parent : String}
    (h : g.Extends child parent) :
    child ∈ g.names := by
  unfold Extends parents at h
  split at h
  · rename_i c hc
    obtain ⟨hmem, rfl⟩ := mem_of_configuration? hc
    exact List.mem_map_of_mem hmem
  · simp at h

theorem contains_iff {g : DependencyGraph} {name : String} :
    g.contains name = true ↔ name ∈ g.names := by
  simp [contains, configuration?, names]

theorem closed_of_danglingEdge? {g : DependencyGraph} (h : g.danglingEdge? = none) : g.Closed := by
  intro child parent hedge
  unfold Extends parents at hedge
  split at hedge
  · rename_i c hc
    have hmem := (mem_of_configuration? hc).1
    have hnone := List.findSome?_eq_none_iff.mp h c hmem
    rw [Option.map_eq_none_iff, List.find?_eq_none] at hnone
    have hparent := hnone parent hedge
    simpa [contains_iff] using hparent
  · simp at hedge

section Follow

variable {g : DependencyGraph}

/-- What following a name establishes: it and all names that are done start no endless chain. -/
def Followed (g : DependencyGraph) (done : List String) : Prop :=
  ∀ x ∈ done, Acc (fun parent child => g.Extends child parent) x

/-- Following some names one after another, when following each of them is known to be right. -/
theorem followed_foldlM {step : List String → String → Except String (List String)}
    {names : List String}
    (hstep : ∀ name ∈ names, ∀ done done', g.Followed done → step done name = .ok done' →
      g.Followed done' ∧ Acc (fun parent child => g.Extends child parent) name)
    {done done' : List String} (hdone : g.Followed done) (h : names.foldlM step done = .ok done') :
    g.Followed done' ∧ g.Followed names := by
  induction names generalizing done with
  | nil =>
    obtain rfl : done = done' := by simpa [pure, Except.pure] using h
    exact ⟨hdone, by simp [Followed]⟩
  | cons name names ih =>
    rw [List.foldlM_cons] at h
    cases hs : step done name with
    | error e => simp [hs, bind, Except.bind] at h
    | ok middle =>
      obtain ⟨hmiddle, hname⟩ := hstep name List.mem_cons_self done middle hdone hs
      have hrest : names.foldlM step middle = .ok done' := by simpa [hs, bind, Except.bind] using h
      obtain ⟨hdone', hnames⟩ := ih (fun n hn => hstep n (List.mem_cons_of_mem _ hn)) hmiddle hrest
      refine ⟨hdone', ?_⟩
      intro x hx
      obtain rfl | hx := List.mem_cons.mp hx
      · exact hname
      · exact hnames x hx

/-- The names that led here are different and all in the graph, so they are fewer than the fuel. -/
theorem followed_of_follow (hclosed : g.Closed) {fuel : Nat} {path done done' : List String}
    {name : String} (hnodup : path.Nodup) (hpath : path ⊆ g.names) (hname : name ∈ g.names)
    (hfuel : g.names.length < fuel + path.length) (hdone : g.Followed done)
    (h : g.follow fuel path done name = .ok done') :
    g.Followed done' ∧ Acc (fun parent child => g.Extends child parent) name := by
  induction fuel generalizing path done done' name with
  | zero =>
    have hlen := (List.subperm_of_subset hnodup hpath).length_le
    omega
  | succ fuel ih =>
    simp only [follow] at h
    split at h
    · rename_i hmem
      obtain rfl : done = done' := by simpa using h
      exact ⟨hdone, hdone name (by simpa using hmem)⟩
    · split at h
      · cases h
      · rename_i hnew
        have hnew : name ∉ path := by simpa using hnew
        cases hfold : (g.parents name).foldlM
            (fun done parent => g.follow fuel (name :: path) done parent) done with
        | error e => simp [hfold, bind, Except.bind] at h
        | ok middle =>
          have hparents := followed_foldlM (fun parent hparent d d' hd hf =>
            ih (List.nodup_cons.mpr ⟨hnew, hnodup⟩) (List.cons_subset.mpr ⟨hname, hpath⟩)
              (hclosed name parent hparent) (by rw [List.length_cons]; omega) hd hf) hdone hfold
          have hacc : Acc (fun parent child => g.Extends child parent) name :=
            Acc.intro name fun parent hparent => hparents.2 parent hparent
          obtain rfl : name :: middle = done' := by simpa [hfold, bind, Except.bind] using h
          refine ⟨?_, hacc⟩
          intro x hx
          obtain rfl | hx := List.mem_cons.mp hx
          · exact hacc
          · exact hparents.1 x hx

end Follow

/-- Validation refuses every graph in which a name leads back to itself. -/
theorem grounded_of_validate {g : DependencyGraph} (h : g.validate = .ok ()) :
    g.Closed ∧ g.Grounded := by
  unfold validate at h
  cases hd : g.danglingEdge? with
  | some edge => simp [hd] at h
  | none =>
    have hclosed := closed_of_danglingEdge? hd
    refine ⟨hclosed, ?_⟩
    rw [hd] at h
    have hcycle : g.cycle? = none := by
      cases hc : g.cycle? with
      | none => rfl
      | some name => simp [hc] at h
    unfold cycle? at hcycle
    split at hcycle
    · rename_i done hfold
      have hall := (followed_foldlM (fun name hname d d' hd hf =>
        followed_of_follow hclosed List.nodup_nil (List.nil_subset _) hname (by simp) hd hf)
        (by simp [Followed]) hfold).2
      refine ⟨fun name => Acc.intro name fun parent hparent => ?_⟩
      exact hall parent (hclosed name parent hparent)
    · cases hcycle

theorem configuration?_of_mem {g : DependencyGraph} {c : Configuration} (h : c ∈ g.configurations) :
    g.configuration? c.name = some c :=
  find?_of_mem g.ascending h

/-- A graph is determined by what is found in it. -/
theorem ext_configuration? {g g' : DependencyGraph}
    (h : ∀ name, g.configuration? name = g'.configuration? name) : g = g' :=
  DependencyGraph.ext (eq_of_find? g.ascending g'.ascending h)

theorem configuration?_updated (g : DependencyGraph) (c : Configuration) (name : String) :
    (g.updated c).configuration? name = if name = c.name then some c
      else g.configuration? name := by
  rw [updated, configuration?, find?_place (by simp) g.ascending]
  simp only [eq_comm, configuration?]

theorem names_updated (g : DependencyGraph) (c : Configuration) :
    (g.updated c).names = Names.insert c.name g.names :=
  keys_place (by simp) g.configurations

theorem mem_ofList {c : Configuration} {cs : List Configuration}
    (h : c ∈ (ofList cs).configurations) :
    c ∈ cs := by
  have hfold : ∀ g : DependencyGraph, c ∈ (cs.foldl updated g).configurations →
      c ∈ cs ∨ c ∈ g.configurations := by
    clear h
    induction cs with
    | nil => exact fun g h => Or.inr h
    | cons first rest ih =>
      intro g h
      obtain h | h := ih (g.updated first) h
      · exact Or.inl (List.mem_cons_of_mem _ h)
      · have hfound := configuration?_of_mem h
        rw [configuration?_updated] at hfound
        split_ifs at hfound
        · cases hfound
          exact Or.inl List.mem_cons_self
        · exact Or.inr (mem_of_configuration? hfound).1
  simpa [empty] using hfold empty h

theorem configuration?_request (g : DependencyGraph) (name : String) (d : Dependency) (x : String) :
    (g.request name d).configuration? x =
      if name = x then some (((g.configuration? x).getD { name }).request d)
        else g.configuration? x := by
  have hname : ((g.configuration? name).getD { name }).name = name := by
    cases h : g.configuration? name with
    | none => rfl
    | some c => exact (mem_of_configuration? h).2
  rw [request, configuration?_updated, Configuration.request_name, hname]
  by_cases h : name = x
  · rw [if_pos h, if_pos h.symm, h]
  · rw [if_neg h, if_neg (Ne.symm h)]

/-- A request adds no edge. -/
@[simp] theorem parents_request (g : DependencyGraph) (name : String) (d : Dependency) :
    (g.request name d).parents = g.parents := by
  funext x
  simp only [parents, configuration?_request]
  by_cases h : name = x
  · subst h
    cases g.configuration? name <;> simp
  · rw [if_neg h]

theorem configuration?_resolveInherited (g : DependencyGraph) (x : String) :
    g.resolveInherited.configuration? x =
      (g.configuration? x).map fun c => (g.inherited c.name).foldl Configuration.resolve c := by
  simp only [resolveInherited, configuration?, List.find?_map]
  congr 2
  funext c
  simp

/-- Making inherited dependencies visible adds no edge. -/
@[simp] theorem parents_resolveInherited (g : DependencyGraph) :
    g.resolveInherited.parents = g.parents := by
  funext x
  simp only [parents, configuration?_resolveInherited]
  cases g.configuration? x <;> simp

theorem names_resolveInherited (g : DependencyGraph) : g.resolveInherited.names = g.names := by
  simp [names, resolveInherited, Function.comp_def]

theorem extends_congr {g g' : DependencyGraph} (h : g'.parents = g.parents) :
    g'.Extends = g.Extends := by
  funext child parent
  simp only [Extends, h]

/-- A name's place among the configurations of a Java project; each one extends earlier ones
only. -/
def javaRank (name : String) : Nat := javaBase.findIdx fun c => c.name = name

theorem javaRank_lt :
    ∀ c ∈ javaBase, ∀ parent ∈ c.extendsFrom, javaRank parent < javaRank c.name := by
  decide +kernel

/-- The edges of a Java project are those between its plain configurations. -/
theorem java_extends {sourceSets : List String} {child parent : String}
    (h : (java sourceSets).Extends child parent) :
    ∃ c ∈ javaBase, c.name = child ∧ parent ∈ c.extendsFrom := by
  unfold Extends parents at h
  split at h
  · rename_i c hc
    obtain ⟨hmem, hname⟩ := mem_of_configuration? hc
    obtain hbase | hset := List.mem_append.mp (mem_ofList hmem)
    · exact ⟨c, hbase, hname, h⟩
    · obtain ⟨sourceSet, -, hset⟩ := List.mem_flatMap.mp hset
      unfold sourceSetConfigurations at hset
      split at hset
      · simp at hset
      · have hnone : c.extendsFrom = [] := by
          simp only [List.mem_cons, List.not_mem_nil, or_false] at hset
          obtain rfl | rfl | rfl := hset <;> rfl
        rw [hnone] at h
        simp at h
  · simp at h

inductive Built : DependencyGraph → Prop
  | new {cs : List Configuration} {g : DependencyGraph} (h : DependencyGraph.new cs = .ok g) :
      Built g
  | java (sourceSets : List String) : Built (DependencyGraph.java sourceSets)
  | insert {g g' : DependencyGraph} {c : Configuration} (prior : Built g)
      (h : g.insert c = .ok g') : Built g'
  | request {g : DependencyGraph} (name : String) (d : Dependency) (prior : Built g) :
      Built (g.request name d)
  | resolveInherited {g : DependencyGraph} (prior : Built g) : Built g.resolveInherited

theorem java_grounded (sourceSets : List String) : (java sourceSets).Grounded := by
  refine Subrelation.wf ?_ (measure javaRank).wf
  intro parent child h
  obtain ⟨c, hc, rfl, hparent⟩ := java_extends h
  exact javaRank_lt c hc parent hparent

theorem new_eq (cs : List Configuration) :
    new cs = (ofList cs).validate.map fun _ => ofList cs := by
  unfold new
  cases (ofList cs).validate with
  | ok _ => rfl
  | error _ => rfl

theorem insert_eq (g : DependencyGraph) (c : Configuration) :
    g.insert c = (g.updated c).validate.map fun _ => g.updated c := by
  unfold insert
  cases (g.updated c).validate with
  | ok _ => rfl
  | error _ => rfl

/-- A graph that is given out once it is checked is the one that was checked. -/
theorem eq_of_checked {g g' : DependencyGraph} (h : (g.validate.map fun _ => g) = .ok g') :
    g' = g ∧ g'.validate = .ok () := by
  cases hv : g.validate with
  | error e =>
    rw [hv] at h
    cases h
  | ok _ =>
    rw [hv] at h
    obtain rfl : g = g' := by simpa [Except.map] using h
    exact ⟨rfl, hv⟩

theorem eq_of_new {cs : List Configuration} {g : DependencyGraph} (h : new cs = .ok g) :
    g = ofList cs ∧ g.validate = .ok () := by
  rw [new_eq] at h
  exact eq_of_checked h

theorem eq_of_insert {g g' : DependencyGraph} {c : Configuration} (h : g.insert c = .ok g') :
    g' = g.updated c ∧ g'.validate = .ok () := by
  rw [insert_eq] at h
  exact eq_of_checked h

/-- In a graph that the operations built, every chain of edges ends. -/
theorem Built.grounded {g : DependencyGraph} (h : Built g) : g.Grounded := by
  induction h with
  | new h => exact (grounded_of_validate (eq_of_new h).2).2
  | java sourceSets => exact java_grounded sourceSets
  | insert _ h _ => exact (grounded_of_validate (eq_of_insert h).2).2
  | request name d _ ih =>
    unfold Grounded at ih ⊢
    rwa [extends_congr (parents_request _ name d)]
  | resolveInherited _ ih =>
    unfold Grounded at ih ⊢
    rwa [extends_congr (parents_resolveInherited _)]

end DependencyGraph

end BuildScript
