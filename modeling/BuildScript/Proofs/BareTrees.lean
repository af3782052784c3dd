import BuildScript.Proofs.Declaring

/-!
# What readers find in bare trees

No reader looks at the names of nodes: a scan finds the same suites in a tree and in the bare one, a
loader the same declarations, and an insertion the same blocks. So whatever is settled in a file is
settled in every file that is written in the same way.
-/

namespace BuildScript

theorem Call.alike_bare (c : Call Node) : (c.map Node.bare).Alike c := by
  simp [Alike, Call.map_map]

namespace Node

variable {blocksOnly : Bool} {above : List (Call Node)}

@[simp] theorem closureStatements_bare (n : Node) :
    n.bare.closureStatements = n.closureStatements.map bare := by
  cases n <;> simp [closureStatements]

@[simp] theorem statements_map_bare (c : Call Node) :
    (c.map bare).statements = c.statements.map bare := by
  rcases c with ⟨name, types, arguments, _ | body, delegate⟩
  · rfl
  · exact closureStatements_bare body

theorem suites_bare (n : Node) : n.bare.suites blocksOnly above = n.suites blocksOnly above := by
  induction n using Node.induct generalizing above with
  | call h c ihitems ihbody =>
    have halike := Call.alike_bare c
    have hnames : Call.SameNames (c.map bare :: above) (c :: above) := .cons rfl halike
    have hany : (c.map bare).statements.any callsDependencies =
        c.statements.any callsDependencies :=
      any_callsDependencies (by simp)
    have hitems : (c.map bare).argumentNodes.flatMap (suites blocksOnly (c.map bare :: above)) =
        c.argumentNodes.flatMap (suites blocksOnly (c :: above)) := by
      rw [Call.argumentNodes_map, List.flatMap_map]
      exact List.flatMap_congr fun a ha => (ihitems a ha).trans (suites_congr hnames a)
    have hbody : (c.map bare).closure.toList.flatMap (suites blocksOnly (c.map bare :: above)) =
        c.closure.toList.flatMap (suites blocksOnly (c :: above)) := by
      cases hclosure : c.closure with
      | none => simp [Call.map, hclosure]
      | some b => simpa [Call.map, hclosure] using (ihbody b hclosure).trans (suites_congr hnames b)
    rw [bare_call, suites_call, suites_call, Call.placedSuite?_congr rfl halike, hany,
      hitems, hbody]
  | closure h statements tail ih =>
    simp only [bare_closure, suites, allSuites_eq, List.flatMap_map]
    exact List.flatMap_congr fun s hs => ih s hs
  | named h name colonLead value ih => simp only [bare_named, suites, ih]
  | assignment h target operatorLead value ihtarget ihvalue =>
    simp only [bare_assignment, suites, ihtarget, ihvalue]
  | literal h value source => simp [suites]
  | identifier h name => simp [suites]
  | raw h text => simp [suites]

theorem inBlock_bare (c : Call Node) :
    Declaration.inBlock (c.map bare) = Declaration.inBlock c := by
  rw [Declaration.inBlock, Declaration.inBlock, statements_map_bare]
  exact Declaration.filterMap_ofStatement? (by simp)

theorem blockDeclarations_bare (n : Node) : n.bare.blockDeclarations = n.blockDeclarations := by
  cases n with
  | call h c => simp [blockDeclarations, call?, inBlock_bare, (Call.alike_bare c).simpleName]
  | _ => simp [blockDeclarations, call?]

theorem suiteDeclarations_bare (n : Node) :
    n.bare.suiteDeclarations = n.suiteDeclarations ∧
      n.bare.bodySuiteDeclarations = n.bodySuiteDeclarations := by
  induction n using Node.induct with
  | call h c ihitems ihbody =>
    refine ⟨?_, by simp [bodySuiteDeclarations]⟩
    have hblocks : (c.map bare).statements.flatMap blockDeclarations =
        c.statements.flatMap blockDeclarations := by
      rw [statements_map_bare, List.flatMap_map]
      exact List.flatMap_congr fun s _ => blockDeclarations_bare s
    have hbody : (c.map bare).closure.toList.flatMap bodySuiteDeclarations =
        c.closure.toList.flatMap bodySuiteDeclarations := by
      cases hclosure : c.closure with
      | none => simp [Call.map, hclosure]
      | some b => simpa [Call.map, hclosure] using (ihbody b hclosure).2
    rw [bare_call, suiteDeclarations_call, suiteDeclarations_call, (Call.alike_bare c).suiteName?,
      hblocks, hbody]
  | closure h statements tail ih =>
    refine ⟨by simp [suiteDeclarations], ?_⟩
    simp only [bare_closure, bodySuiteDeclarations, allSuiteDeclarations_eq, List.flatMap_map]
    exact List.flatMap_congr fun s hs => (ih s hs).1
  | _ => simp [suiteDeclarations, bodySuiteDeclarations]

end Node

namespace Scope

variable {scope : Scope} {enclosing : Option (Call Node)}

def bareFound (found : Head × Call Node) : Head × Call Node :=
  (Head.new 0 found.1.lead, found.2.map Node.bare)

theorem seekAll_bare_of {nodes : List Node}
    (h : ∀ n ∈ nodes, scope.seek enclosing n.bare = (scope.seek enclosing n).map bareFound) :
    scope.seekAll enclosing (nodes.map Node.bare) =
      (scope.seekAll enclosing nodes).map bareFound := by
  induction nodes with
  | nil => rfl
  | cons n nodes ih =>
    rw [List.forall_mem_cons] at h
    rw [List.map_cons, seekAll, seekAll, h.1, ih h.2, Option.map_or]

theorem seek_bare (n : Node) :
    scope.seek enclosing n.bare = (scope.seek enclosing n).map bareFound := by
  induction n using Node.induct generalizing enclosing with
  | call h c ihitems ihbody =>
    have halike := Call.alike_bare c
    have hcontains : scope.contains (some (c.map Node.bare)) = scope.contains (some c) :=
      (AlikeAround.some halike).contains
    rw [Node.bare_call, seek_call, seek_call, halike.isBlock]
    split_ifs
    · rfl
    · have hitems : scope.seekAll (some (c.map Node.bare)) (c.map Node.bare).argumentNodes =
          (scope.seekAll (some c) c.argumentNodes).map bareFound := by
        rw [Call.argumentNodes_map, seekAll_congr hcontains]
        exact seekAll_bare_of fun a ha => ihitems a ha
      have hbody : (c.map Node.bare).closure.bind (scope.seek (some (c.map Node.bare))) =
          (c.closure.bind (scope.seek (some c))).map bareFound := by
        cases hclosure : c.closure with
        | none => simp [Call.map, hclosure]
        | some b =>
          simpa [Call.map, hclosure] using (seek_congr hcontains b.bare).trans (ihbody b hclosure)
      rw [hitems, hbody, Option.map_or]
  | closure h statements tail ih =>
    simp only [Node.bare_closure, seek]
    exact seekAll_bare_of fun s hs => ih s hs
  | named h name colonLead value ih => simp only [Node.bare_named, seek, ih]
  | assignment h target operatorLead value ihtarget ihvalue =>
    simp only [Node.bare_assignment, seek, ihtarget, ihvalue, Option.map_or]
  | literal h value source => simp [seek]
  | identifier h name => simp [seek]
  | raw h text => simp [seek]

end Scope

section Files

variable {f f' : SourceFile} {coordinate : Coordinate} {t : Target} {statements others : List Node}

theorem Settled.of_bare (hsettled : Settled coordinate t statements)
    (hbare : others.map Node.bare = statements.map Node.bare) : Settled coordinate t others := by
  have hseek : ∀ nodes : List Node, (Recipe.Target.scope t).seekAll none (nodes.map Node.bare) =
      ((Recipe.Target.scope t).seekAll none nodes).map Scope.bareFound :=
    fun nodes => Scope.seekAll_bare_of fun n _ => Scope.seek_bare n
  have hsame : ((Recipe.Target.scope t).seekAll none others).map Scope.bareFound =
      ((Recipe.Target.scope t).seekAll none statements).map Scope.bareFound := by
    rw [← hseek, hbare, hseek]
  cases hsettled with
  | @declared h block x found is configuration dependency =>
    rw [found, Option.map_some, Option.map_eq_some_iff] at hsame
    obtain ⟨⟨h', block'⟩, hfound, hblock⟩ := hsame
    have hinBlock : Declaration.inBlock block' = Declaration.inBlock block := by
      rw [← Node.inBlock_bare block', (Prod.mk.inj hblock).2, Node.inBlock_bare]
    exact .declared hfound (hinBlock ▸ is) configuration dependency
  | nowhere missing suite =>
    rw [missing, Option.map_none, Option.map_eq_none_iff] at hsame
    exact .nowhere hsame suite

theorem flatMap_of_bare {α : Type} {g : Node → List α} (hg : ∀ n : Node, g n.bare = g n)
    (hbare : others.map Node.bare = statements.map Node.bare) :
    others.flatMap g = statements.flatMap g := by
  have hmap : ∀ nodes : List Node, (nodes.map Node.bare).flatMap g = nodes.flatMap g := by
    intro nodes
    rw [List.flatMap_map]
    exact List.flatMap_congr fun n _ => hg n
  rw [← hmap, hbare, hmap]

theorem SourceFile.suites_of_bare (hbare : f'.statements.map Node.bare = f.statements.map Node.bare)
    (blocksOnly : Bool) : f'.suites blocksOnly = f.suites blocksOnly := by
  rw [SourceFile.suites_eq, SourceFile.suites_eq,
    flatMap_of_bare (fun n => Node.suites_bare n) hbare]

theorem SourceFile.declarations_of_bare
    (hbare : f'.statements.map Node.bare = f.statements.map Node.bare) :
    f'.declarations = f.declarations := by
  rw [declarations_eq, declarations_eq, flatMap_of_bare Node.blockDeclarations_bare hbare,
    flatMap_of_bare (fun n => (Node.suiteDeclarations_bare n).1) hbare]

end Files

end BuildScript
