import BuildScript.Proofs.Growth

/-!
# What readers find after an insertion

A scan finds the same suites in a tree in which a block has grown, and the declarations that it
finds are those from before and at most the inserted one.
-/

namespace BuildScript

namespace Call

variable {c d : Call Node} {above around : List (Call Node)}

def SameNames (above around : List (Call Node)) : Prop :=
  above.map simpleName = around.map simpleName

theorem SameNames.cons (hnames : SameNames above around) (halike : c.Alike d) :
    SameNames (c :: above) (d :: around) := by
  simp only [SameNames, List.map_cons, List.cons.injEq]
  exact ⟨halike.simpleName, hnames⟩

theorem placedSuite?_congr (hnames : SameNames above around) (halike : c.Alike d) :
    c.placedSuite? above = d.placedSuite? around := by
  have hplace : ∀ (c : Call Node) (above : List (Call Node)),
      isSuitePlace above c = (((above.map simpleName).head?.any fun name => name = "suites") &&
        (c.simpleName :: above.map simpleName).any fun name => name = "testing") := by
    intro c above
    simp [isSuitePlace, Option.any_map, List.any_map, Function.comp_def]
  have hsame : above.map simpleName = around.map simpleName := hnames
  rw [placedSuite?, placedSuite?, hplace, hplace, hsame, halike.simpleName, halike.suiteName?]

end Call

namespace Node

variable {blocksOnly : Bool} {above around : List (Call Node)}

def callsDependencies (n : Node) : Bool := n.call?.any fun c => c.simpleName = "dependencies"

theorem callsDependencies_outline (n : Node) :
    n.outline.callsDependencies = n.callsDependencies := by
  cases n <;> rfl

theorem isEmpty_dependencyBlocks (statements : List Node) :
    (Call.dependencyBlocks statements).isEmpty = !statements.any callsDependencies := by
  induction statements with
  | nil => rfl
  | cons s rest ih =>
    rw [List.any_cons, Bool.not_or, ← ih]
    cases hcall : s.call? with
    | none => simp [Call.dependencyBlocks, hcall, callsDependencies]
    | some c =>
      by_cases hname : c.simpleName = "dependencies" <;>
        simp [Call.dependencyBlocks, hcall, callsDependencies, hname]

theorem any_callsDependencies {statements others : List Node}
    (h : statements.map outline = others.map outline) :
    statements.any callsDependencies = others.any callsDependencies := by
  have houtline : ∀ nodes : List Node,
      nodes.any callsDependencies = (nodes.map outline).any callsDependencies := by
    intro nodes
    simp [List.any_map, Function.comp_def, callsDependencies_outline]
  rw [houtline, h, ← houtline]

mutual

/-- The suites registered in a node, with the calls around it, one by one. Nothing inside a suite
counts. -/
def suites (blocksOnly : Bool) (above : List (Call Node)) : Node → List String
  | call _ ⟨name, typeArguments, arguments, trailing, delegate⟩ =>
    let c : Call Node := ⟨name, typeArguments, arguments, trailing, delegate⟩
    match c.placedSuite? above with
    | some suite =>
      if !blocksOnly || !(Call.dependencyBlocks c.statements).isEmpty then [suite] else []
    | none =>
      (match arguments with
        | none => []
        | some ⟨_, _, items, _⟩ => itemSuites blocksOnly (c :: above) items) ++
      (match trailing with
        | none => []
        | some body => suites blocksOnly (c :: above) body)
  | closure _ statements _ => allSuites blocksOnly above statements
  | named _ _ _ value => suites blocksOnly above value
  | assignment _ target _ value => suites blocksOnly above target ++ suites blocksOnly above value
  | literal _ _ _ => []
  | identifier _ _ => []
  | raw _ _ => []

def itemSuites (blocksOnly : Bool) (above : List (Call Node)) : List (Argument Node) → List String
  | [] => []
  | ⟨node, _⟩ :: rest => suites blocksOnly above node ++ itemSuites blocksOnly above rest

def allSuites (blocksOnly : Bool) (above : List (Call Node)) : List Node → List String
  | [] => []
  | node :: rest => suites blocksOnly above node ++ allSuites blocksOnly above rest

end

@[simp] theorem allSuites_eq (nodes : List Node) :
    allSuites blocksOnly above nodes = nodes.flatMap (suites blocksOnly above) := by
  induction nodes with
  | nil => rfl
  | cons node nodes ih => rw [allSuites, ih, List.flatMap_cons]

@[simp] theorem itemSuites_eq (items : List (Argument Node)) :
    itemSuites blocksOnly above items =
      (items.map Argument.node).flatMap (suites blocksOnly above) := by
  induction items with
  | nil => rfl
  | cons item items ih => rw [itemSuites, ih, List.map_cons, List.flatMap_cons]

theorem suites_call (h : Head) (c : Call Node) :
    suites blocksOnly above (call h c) =
      match c.placedSuite? above with
      | some suite => if !blocksOnly || c.statements.any callsDependencies then [suite] else []
      | none => c.argumentNodes.flatMap (suites blocksOnly (c :: above)) ++
          c.closure.toList.flatMap (suites blocksOnly (c :: above)) := by
  have hblocks := isEmpty_dependencyBlocks c.statements
  cases hplaced : c.placedSuite? above <;>
    rcases c with ⟨name, types, _ | ⟨parenthesized, lead, items, tail⟩, _ | body, delegate⟩ <;>
    simp [suites, hplaced, hblocks, Call.argumentNodes]

def placedSuite? (above : List Node) (n : Node) : Option String :=
  n.call?.bind (Call.placedSuite? (above.filterMap call?))

theorem suites_eq (above : List Node) (n : Node) :
    n.suites blocksOnly (above.filterMap call?) =
      match n.placedSuite? above with
      | some suite =>
        if !blocksOnly || n.call?.any fun c =>
          c.statements.any callsDependencies then [suite] else []
      | none => n.children.flatMap (suites blocksOnly ((n :: above).filterMap call?)) := by
  cases n with
  | call h c =>
    have hinside : (call h c :: above).filterMap call? = c :: above.filterMap call? := rfl
    rw [suites_call, hinside, children, List.flatMap_append]
    rfl
  | closure h statements tail =>
    rw [suites, allSuites_eq]
    rfl
  | named h name colonLead value => exact (List.append_nil _).symm
  | assignment h target operatorLead value =>
    exact congrArg (suites _ _ target ++ ·) (List.append_nil _).symm
  | literal h value source => rfl
  | identifier h name => rfl
  | raw h text => rfl

theorem run_suiteFinder (above : List Node) (n : Node) (s : List String) :
    (Call.suiteFinder blocksOnly above n).run s =
      match n.placedSuite? above with
      | some suite =>
        (some n, if !blocksOnly || n.call?.any fun c =>
          c.statements.any callsDependencies then Names.insert suite s else s)
      | none => (none, s) := by
  cases n with
  | call h c =>
    have hplaced : (call h c).placedSuite? above = c.placedSuite? (above.filterMap call?) := rfl
    rw [hplaced]
    cases hsuite : c.placedSuite? (above.filterMap call?) with
    | none =>
      simp only [Call.suiteFinder, hsuite]
      rfl
    | some suite =>
      cases hblock : !blocksOnly || c.statements.any callsDependencies <;>
        simp only [Call.suiteFinder, hsuite, isEmpty_dependencyBlocks, Bool.not_not, call?,
          Option.any_some, hblock, Bool.false_eq_true, if_true, if_false] <;> rfl
  | _ => rfl

theorem suiteFinder_reads : (Call.suiteFinder blocksOnly).Reads fun _ => True where
  same := by
    intro above n s _ other hother
    rw [run_suiteFinder] at hother
    cases hplaced : n.placedSuite? above <;> rw [hplaced] at hother <;> cases hother
    rfl
  holds := fun _ _ _ _ => trivial

theorem suiteFinder_afterAll {above nodes : List Node}
    (h : ∀ n ∈ nodes, ∀ s, (Call.suiteFinder blocksOnly).after above n s =
      Names.insertAll (n.suites blocksOnly (above.filterMap call?)) s) (s : List String) :
    (Call.suiteFinder blocksOnly).afterAll above nodes s =
      Names.insertAll (nodes.flatMap (suites blocksOnly (above.filterMap call?))) s := by
  induction nodes generalizing s with
  | nil => rfl
  | cons n nodes ih =>
    rw [List.forall_mem_cons] at h
    rw [Visitor.afterAll_cons, h.1, ih h.2, List.flatMap_cons, Names.insertAll, Names.insertAll,
      Names.insertAll, List.foldl_append]

/-- A finder adds the suites of a node to those that it knows. -/
theorem suiteFinder_after (above : List Node) (n : Node) (s : List String) :
    (Call.suiteFinder blocksOnly).after above n s =
      Names.insertAll (n.suites blocksOnly (above.filterMap call?)) s := by
  induction n using induct_children generalizing above s with
  | _ n ih =>
    rw [suiteFinder_reads.after_eq above n trivial, run_suiteFinder, suites_eq]
    cases n.placedSuite? above with
    | some suite =>
      simp only
      split_ifs <;> rfl
    | none => exact suiteFinder_afterAll (fun c hc => ih c hc (n :: above)) s

theorem suites_congr (hnames : Call.SameNames above around) (n : Node) :
    suites blocksOnly above n = suites blocksOnly around n := by
  induction n using Node.induct generalizing above around with
  | call h c ihitems ihbody =>
    have hinside := hnames.cons (Call.Alike.refl c)
    rw [suites_call, suites_call, Call.placedSuite?_congr hnames (Call.Alike.refl c)]
    have hitems : c.argumentNodes.flatMap (suites blocksOnly (c :: above)) =
        c.argumentNodes.flatMap (suites blocksOnly (c :: around)) :=
      List.flatMap_congr fun a ha => ihitems a ha hinside
    have hbody : c.closure.toList.flatMap (suites blocksOnly (c :: above)) =
        c.closure.toList.flatMap (suites blocksOnly (c :: around)) :=
      List.flatMap_congr fun b hb => ihbody b (by simpa using hb) hinside
    rw [hitems, hbody]
  | closure h statements tail ih =>
    simp only [suites, allSuites_eq]
    exact List.flatMap_congr fun s hs => ih s hs hnames
  | named h name colonLead value ih => simp only [suites, ih hnames]
  | assignment h target operatorLead value ihtarget ihvalue =>
    simp only [suites, ihtarget hnames, ihvalue hnames]
  | literal h value source => rfl
  | identifier h name => rfl
  | raw h text => rfl

end Node

theorem SourceFile.suites_eq (file : SourceFile) (blocksOnly : Bool) :
    file.suites blocksOnly =
      Names.ofList (file.statements.flatMap (Node.suites blocksOnly [])) := by
  rw [suites, (Node.suiteFinder_reads.visit_file file trivial).1]
  exact Node.suiteFinder_afterAll (fun n _ => Node.suiteFinder_after [] n) []

namespace Scope

variable {scope : Scope} {h : Head} {block : Call Node} {d new n m : Node}
    {enclosing : Option (Call Node)}
  {above around : List (Call Node)} {blocksOnly : Bool}

theorem suiteName?_leaf {head : Head} {c : Call Node} (hd : (Node.call head c).IsLeaf) :
    c.suiteName? = none := by
  cases hd with
  | mk plain untyped alone one => simp [Call.suiteName?, plain, untyped, one, Call.isSuiteType]

theorem suites_leaf (hd : d.IsLeaf) : d.suites blocksOnly above = [] := by
  cases hd with
  | @mk h _ c _ _ plain untyped alone one =>
    have hname : c.suiteName? = none := @suiteName?_leaf h c (.mk plain untyped alone one)
    simp [Node.suites_call, Call.placedSuite?, hname, alone, one, Node.suites]

/-- A scan finds the same suites after an insertion. A suite of the name `dependencies` could be
taken for one with a block of its own only if a call of that name went into a block with a call
around it. -/
theorem Replaces.suites (hreplaces : scope.Replaces h block new enclosing n m)
    (hgrows : Grows d h block new) (hd : d.IsLeaf)
    (hname : scope = .topLevel ∨ d.callsDependencies = false) (henclosing : enclosing = above.head?)
    (hnames : Call.SameNames around above) :
    m.suites blocksOnly around = n.suites blocksOnly above := by
  induction hreplaces generalizing above around with
  | here is inside =>
    cases hgrows with
    | @mk ch _ statements tail is' =>
      generalize Insertion.brokenTail ((lineIndent? h.lead).getD "") tail = tail'
      have halike : Call.Alike
          { block with closure := some (.closure ch.revised (statements ++ [d]) tail') } block :=
        Call.alike_closure is' rfl
      rw [Node.suites_call, Node.suites_call, Call.placedSuite?_congr hnames halike]
      cases hplaced : block.placedSuite? above with
      | some suite =>
        have hnot : d.callsDependencies = false := by
          refine hname.resolve_left ?_
          rintro rfl
          cases above with
          | nil => simp [Call.placedSuite?, Call.isSuitePlace] at hplaced
          | cons c above => simp [henclosing, contains] at inside
        simp [Call.statements, is', Node.closureStatements, hnot]
      | none =>
        have hsame : Node.suites blocksOnly (_ :: around) =
            Node.suites blocksOnly (block :: above) :=
          funext (Node.suites_congr (hnames.cons halike))
        simp only [Call.argumentNodes, is', Option.toList_some, List.flatMap_singleton, Node.suites,
          Node.allSuites_eq, List.flatMap_append, hsame, suites_leaf hd, List.append_nil]
  | @argument _ head c parenthesized lead tail trail before after a b skipped is earlier
    inside ih =>
    have halike := Call.alike_argument is (Node.face_of_outline (inside.unchanged hgrows).outline)
    rw [Node.suites_call, Node.suites_call, Call.placedSuite?_congr hnames halike]
    have hsame : Node.suites blocksOnly (_ :: around) = Node.suites blocksOnly (c :: above) :=
      funext (Node.suites_congr (hnames.cons halike))
    have hnodes : c.argumentNodes = before.map Argument.node ++ a :: after.map Argument.node := by
      simp [Call.argumentNodes, is]
    have hinside := @ih (c :: above) (c :: above) rfl rfl
    cases hplaced : c.placedSuite? above with
    | some suite => rfl
    | none =>
      rw [hnodes]
      simp only [Call.argumentNodes, List.map_append, List.map_cons, List.flatMap_append,
        List.flatMap_cons, hsame, hinside]
  | @body _ head c a b skipped earlier is inside ih =>
    have hsame' := inside.unchanged hgrows
    have halike := Call.alike_closure is (Node.face_of_outline hsame'.outline)
    rw [Node.suites_call, Node.suites_call, Call.placedSuite?_congr hnames halike]
    have hsame : Node.suites blocksOnly (_ :: around) = Node.suites blocksOnly (c :: above) :=
      funext (Node.suites_congr (hnames.cons halike))
    have hinside := @ih (c :: above) (c :: above) rfl rfl
    cases hplaced : c.placedSuite? above with
    | some suite => simp only [Call.statements, is, Node.any_callsDependencies hsame'.inside]
    | none =>
      simp only [Call.argumentNodes, is, Option.toList_some, List.flatMap_singleton, hsame, hinside]
  | @statement _ head before after a b tail earlier inside ih =>
    have hinside := ih henclosing hnames
    have hsame : Node.suites blocksOnly around = Node.suites blocksOnly above :=
      funext (Node.suites_congr hnames)
    simp only [Node.suites, Node.allSuites_eq, List.flatMap_append, List.flatMap_cons, hinside]
    simp only [hsame]
  | named inside ih =>
    simp only [Node.suites]
    exact ih henclosing hnames
  | @target _ _ _ a b value inside ih =>
    simp only [Node.suites]
    rw [ih henclosing hnames, Node.suites_congr hnames value]
  | @value _ _ _ a b target earlier inside ih =>
    simp only [Node.suites]
    rw [ih henclosing hnames, Node.suites_congr hnames target]

end Scope

namespace Declaration

/-- The new declarations are the old ones and at most some more of one coordinate. -/
structure Adds (coordinate : Coordinate) (old new : List Declaration) : Prop where
  keeps : ∀ x ∈ old, x ∈ new
  only : ∀ x ∈ new, x ∈ old ∨ x.dependency.toCoordinate = coordinate

variable {coordinate : Coordinate} {old new old' new' : List Declaration}

theorem Adds.refl (list : List Declaration) : Adds coordinate list list :=
  ⟨fun _ hx => hx, fun _ hx => Or.inl hx⟩

theorem Adds.append (h : Adds coordinate old new) (h' : Adds coordinate old' new') :
    Adds coordinate (old ++ old') (new ++ new') := by
  constructor
  · intro x hx
    rw [List.mem_append] at hx ⊢
    exact hx.imp (h.keeps x) (h'.keeps x)
  · intro x hx
    rw [List.mem_append] at hx ⊢
    obtain hx | hx := hx
    · exact (h.only x hx).imp_left Or.inl
    · exact (h'.only x hx).imp_left Or.inr

theorem Adds.trans {newer : List Declaration} (h : Adds coordinate old new)
    (h' : Adds coordinate new newer) :
    Adds coordinate old newer := by
  refine ⟨fun x hx => h'.keeps x (h.keeps x hx), fun x hx => ?_⟩
  obtain hx | hx := h'.only x hx
  · exact h.only x hx
  · exact Or.inr hx

theorem Adds.inSuite (h : Adds coordinate old new) (suite : String) :
    Adds coordinate (old.map (Declaration.inSuite suite))
      (new.map (Declaration.inSuite suite)) := by
  constructor
  · intro x hx
    obtain ⟨y, hy, rfl⟩ := List.mem_map.mp hx
    exact List.mem_map_of_mem (h.keeps y hy)
  · intro x hx
    obtain ⟨y, hy, rfl⟩ := List.mem_map.mp hx
    exact (h.only y hy).imp_left List.mem_map_of_mem

end Declaration

namespace Node

def blockDeclarations (n : Node) : List Declaration :=
  match n.call? with
  | some c => if c.simpleName = "dependencies" then Declaration.inBlock c else []
  | none => []

theorem flatMap_dependencyBlocks (statements : List Node) :
    (Call.dependencyBlocks statements).flatMap Declaration.inBlock =
      statements.flatMap blockDeclarations := by
  induction statements with
  | nil => rfl
  | cons s rest ih =>
    rw [List.flatMap_cons, ← ih]
    cases hcall : s.call? with
    | none => simp [Call.dependencyBlocks, hcall, blockDeclarations]
    | some c =>
      by_cases hname : c.simpleName = "dependencies" <;>
        simp [Call.dependencyBlocks, hcall, blockDeclarations, hname]

@[simp] theorem allSuiteDeclarations_eq (nodes : List Node) :
    allSuiteDeclarations nodes = nodes.flatMap suiteDeclarations := by
  induction nodes with
  | nil => rfl
  | cons node nodes ih => rw [allSuiteDeclarations, ih, List.flatMap_cons]

theorem suiteDeclarations_call (h : Head) (c : Call Node) :
    suiteDeclarations (call h c) =
      match c.suiteName? with
      | some suite => (c.statements.flatMap blockDeclarations).map (Declaration.inSuite suite)
      | none => c.closure.toList.flatMap bodySuiteDeclarations := by
  have hblocks := flatMap_dependencyBlocks c.statements
  cases hname : c.suiteName? with
  | none =>
    rcases c with ⟨name, types, arguments, _ | body, delegate⟩ <;> simp [suiteDeclarations, hname]
  | some suite =>
    simp only [← hblocks, List.map_flatMap]
    rcases c with ⟨name, types, arguments, _ | body, delegate⟩
    · rw [suiteDeclarations]
      simp only [hname]
    · rw [suiteDeclarations]
      simp only [hname]

end Node

def SourceFile.declarations (f : SourceFile) : List Declaration :=
  f.topLevelDeclarations ++ f.suiteDeclarations

theorem SourceFile.declarations_eq (f : SourceFile) :
    f.declarations = f.statements.flatMap Node.blockDeclarations ++
      f.statements.flatMap Node.suiteDeclarations := by
  rw [declarations, topLevelDeclarations, SourceFile.suiteDeclarations,
    Node.flatMap_dependencyBlocks, Node.allSuiteDeclarations_eq]

namespace Scope

variable {scope : Scope} {h : Head} {block : Call Node} {d new n m : Node}
    {enclosing : Option (Call Node)}
  {configuration : String} {coordinate : Coordinate} {dependency : Dependency}

structure AddsTo (coordinate : Coordinate) (n m : Node) : Prop where
  block : Declaration.Adds coordinate n.blockDeclarations m.blockDeclarations
  blocks : Declaration.Adds coordinate (n.closureStatements.flatMap Node.blockDeclarations)
    (m.closureStatements.flatMap Node.blockDeclarations)
  suites : Declaration.Adds coordinate n.suiteDeclarations m.suiteDeclarations
  body : Declaration.Adds coordinate n.bodySuiteDeclarations m.bodySuiteDeclarations

theorem addsTo_leaf (hd : d.IsLeaf) : d.blockDeclarations = [] ∧ d.suiteDeclarations = [] := by
  cases hd with
  | @mk h _ c _ _ plain untyped alone one =>
    have hname : c.suiteName? = none := @suiteName?_leaf h c (.mk plain untyped alone one)
    have hblock : Declaration.inBlock c = [] := by
      simp [Declaration.inBlock, Call.statements, alone]
    constructor
    · simp [Node.blockDeclarations, Node.call?, hblock]
    · simp [Node.suiteDeclarations_call, hname, alone]

/-- A call that is alike adds to the declarations of another one what its closure does. -/
theorem addsTo_call {head head' : Head} {c c' : Call Node} (halike : c'.Alike c)
    (hblock : Declaration.Adds coordinate (Declaration.inBlock c) (Declaration.inBlock c'))
    (hblocks : Declaration.Adds coordinate (c.statements.flatMap Node.blockDeclarations)
      (c'.statements.flatMap Node.blockDeclarations))
    (hbody : Declaration.Adds coordinate (c.closure.toList.flatMap Node.bodySuiteDeclarations)
      (c'.closure.toList.flatMap Node.bodySuiteDeclarations)) :
    AddsTo coordinate (.call head c) (.call head' c') := by
  refine ⟨?_, .refl _, ?_, .refl _⟩
  · simp only [Node.blockDeclarations, Node.call?, halike.simpleName]
    split
    · exact hblock
    · exact .refl _
  · rw [Node.suiteDeclarations_call, Node.suiteDeclarations_call, halike.suiteName?]
    cases c.suiteName? with
    | some suite => exact hblocks.inSuite suite
    | none => exact hbody

theorem Replaces.addsTo (hreplaces : scope.Replaces h block new enclosing n m)
    (hgrows : Grows d h block new) (hd : d.IsLeaf)
    (hdeclares : Declaration.ofStatement? d = some ⟨configuration, dependency⟩) :
    AddsTo dependency.toCoordinate n m := by
  obtain ⟨hleaf, hleaf'⟩ := addsTo_leaf hd
  induction hreplaces with
  | here is inside =>
    obtain ⟨grown, hnew, halike, hinBlock⟩ := grows_alike hgrows
    cases hgrows with
    | @mk ch _ statements tail is' =>
      obtain rfl := (Node.call.inj hnew).2
      refine addsTo_call halike ?_ ?_ ?_
      · rw [hinBlock, hdeclares]
        refine ⟨fun x hx => List.mem_append_left _ hx, fun x hx => ?_⟩
        obtain hx | hx := List.mem_append.mp hx
        · exact Or.inl hx
        · simp only [Option.toList_some, List.mem_singleton] at hx
          exact Or.inr (by rw [hx])
      · simp only [Call.statements, is', Node.closureStatements, List.flatMap_append,
          List.flatMap_singleton, hleaf, List.append_nil]
        exact .refl _
      · simp only [is', Option.toList_some, List.flatMap_singleton, Node.bodySuiteDeclarations,
          Node.allSuiteDeclarations_eq, List.flatMap_append, hleaf', List.append_nil]
        exact .refl _
  | argument skipped is earlier inside ih =>
    have halike := Call.alike_argument is (Node.face_of_outline (inside.unchanged hgrows).outline)
    exact addsTo_call halike (.refl _) (.refl _) (.refl _)
  | @body _ head c a b skipped earlier is inside ih =>
    have hsame := inside.unchanged hgrows
    have halike := Call.alike_closure is (Node.face_of_outline hsame.outline)
    refine addsTo_call halike ?_ ?_ ?_
    · simp only [Declaration.inBlock, Call.statements, is]
      rw [Declaration.filterMap_ofStatement? hsame.inside]
      exact .refl _
    · simpa only [Call.statements, is] using ih.blocks
    · simpa only [is, Option.toList_some, List.flatMap_singleton] using ih.body
  | statement earlier inside ih =>
    refine ⟨.refl _, ?_, .refl _, ?_⟩
    · simp only [Node.closureStatements, List.flatMap_append, List.flatMap_cons]
      exact (Declaration.Adds.refl _).append (ih.block.append (.refl _))
    · simp only [Node.bodySuiteDeclarations, Node.allSuiteDeclarations_eq, List.flatMap_append,
        List.flatMap_cons]
      exact (Declaration.Adds.refl _).append (ih.suites.append (.refl _))
  | named inside ih => exact ⟨.refl _, .refl _, .refl _, .refl _⟩
  | target inside ih => exact ⟨.refl _, .refl _, .refl _, .refl _⟩
  | value earlier inside ih => exact ⟨.refl _, .refl _, .refl _, .refl _⟩

end Scope

end BuildScript
