import BuildScript.Proofs.Agreement

/-!
# Writing a declaration to a suite and reading it back

Three traversals of a script have to agree on its suites: the one that lists the suites with a
block, the one that inserts into a block of a suite, and the one that reads the declarations of
suites. The first two agree as long as each `dependencies` of a suite has a closure. The third does
not look into arguments and assigned values, nor into suites inside suites.
-/

namespace BuildScript

namespace Node

/-- If the suite calls `dependencies` at all, it does so with a closure. -/
def opensSuite (suite : String) : Node → Bool
  | call _ c =>
    !(c.suiteName? = some suite && c.statements.any callsDependencies) || c.statements.any isBlock
  | _ => true

mutual

/-- The first block of the suite in a statement is one that readers of suites come to. -/
def reaches (suite : String) : Node → Bool
  | call _ ⟨name, typeArguments, arguments, trailing, delegate⟩ =>
    let c : Call Node := ⟨name, typeArguments, arguments, trailing, delegate⟩
    match c.suiteName? with
    | some other => other = suite && ((Scope.suite suite).holder? (some c) c.statements).any isBlock
    | none =>
      ((Scope.suite suite).seekAll (some c) c.argumentNodes).isNone &&
        match trailing with
        | none => false
        | some body => bodyReaches suite body
  | _ => false

def bodyReaches (suite : String) : Node → Bool
  | closure _ statements _ => firstReaches suite statements
  | _ => false

def firstReaches (suite : String) : List Node → Bool
  | [] => false
  | node :: rest =>
    if ((Scope.suite suite).seek none node).isSome then reaches suite node
      else firstReaches suite rest

end

theorem reaches_call (suite : String) (h : Head) (c : Call Node) :
    (call h c).reaches suite =
      match c.suiteName? with
      | some other =>
        other = suite && ((Scope.suite suite).holder? (some c) c.statements).any isBlock
      | none =>
        ((Scope.suite suite).seekAll (some c) c.argumentNodes).isNone &&
          c.closure.any (bodyReaches suite) := by
  rcases c with ⟨name, types, arguments, _ | body, delegate⟩ <;> rfl

theorem firstReaches_eq (suite : String) (nodes : List Node) :
    firstReaches suite nodes = ((Scope.suite suite).holder? none nodes).any (reaches suite) := by
  induction nodes with
  | nil => rfl
  | cons n nodes ih =>
    rw [firstReaches, ih]
    cases hseek : (Scope.suite suite).seek none n with
    | none => simp [Scope.holder?, hseek]
    | some found => simp [Scope.holder?, hseek]

end Node

theorem Call.closure_of_mem {c : Call Node} {s : Node} (hs : s ∈ c.statements) :
    ∃ ch tail, c.closure = some (.closure ch c.statements tail) := by
  rcases c with ⟨name, types, arguments, _ | body, delegate⟩
  · cases hs
  · cases body with
    | closure ch statements tail => exact ⟨ch, tail, rfl⟩
    | _ => cases hs

namespace Scope

variable {scope : Scope} {suite : String} {enclosing : Option (Call Node)} {h : Head}
    {block : Call Node}
  {new n m d : Node}

theorem seekAll_isSome {nodes : List Node} (hmem : n ∈ nodes)
    (hseek : (scope.seek enclosing n).isSome = true) :
    (scope.seekAll enclosing nodes).isSome = true := by
  rw [isSome_seekAll, List.any_eq_true]
  exact ⟨n, hmem, hseek⟩

/-- The call that registers a suite has no block among its arguments. -/
theorem seekAll_arguments {c : Call Node} (hname : c.suiteName? = some suite) :
    scope.seekAll enclosing c.argumentNodes = none := by
  refine seekAll_eq_none fun a ha => ?_
  have hatom := Call.argument_of_suiteName? hname ha
  cases a with
  | literal head value source => rfl
  | identifier head name => rfl
  | _ => cases hatom

theorem seek_isSome_of_isBlock (hn : n.isBlock = true)
    (hcontains : scope.contains enclosing = true) :
    (scope.seek enclosing n).isSome = true := by
  cases n with
  | call head c =>
    have hblock : c.isBlock = true := hn
    simp [seek_call, hblock, hcontains]
  | _ => cases hn

/-- A suite that is listed for its block has a block in scope. -/
theorem seek_isSome_of_suites {above : List (Call Node)}
    (hopens : n.every (Node.opensSuite suite) = true) (hsuite : suite ∈ n.suites true above) :
    ((Scope.suite suite).seek enclosing n).isSome = true := by
  induction n using Node.induct generalizing enclosing above with
  | call head c ihitems ihbody =>
    obtain ⟨hself, hitems, hbody⟩ := Node.every_call.mp hopens
    rw [seek_call]
    split_ifs
    · rfl
    · rw [Option.isSome_or, Bool.or_eq_true]
      rw [Node.suites_call] at hsuite
      cases hplaced : c.placedSuite? above with
      | some other =>
        simp only [hplaced, Bool.not_true, Bool.false_or] at hsuite
        split_ifs at hsuite with hcalls
        · obtain rfl := List.mem_singleton.mp hsuite
          have hname : c.suiteName? = some suite := by
            unfold Call.placedSuite? at hplaced
            split_ifs at hplaced
            exact hplaced
          have hblock : c.statements.any Node.isBlock = true := by
            simpa [Node.opensSuite, hname, hcalls] using hself
          obtain ⟨s, hs, hblock⟩ := List.any_eq_true.mp hblock
          obtain ⟨ch, tail, hclosure⟩ := Call.closure_of_mem hs
          rw [hclosure, Option.bind_some, seek]
          exact Or.inr (seekAll_isSome hs (seek_isSome_of_isBlock hblock (decide_eq_true hname)))
        · cases hsuite
      | none =>
        simp only [hplaced, List.mem_append, List.mem_flatMap] at hsuite
        obtain ⟨a, ha, hsuite⟩ | ⟨body, his, hsuite⟩ := hsuite
        · exact Or.inl (seekAll_isSome ha (ihitems a ha (hitems a ha) hsuite))
        · rw [Option.mem_toList] at his
          rw [his, Option.bind_some]
          exact Or.inr (ihbody body his (hbody body his) hsuite)
  | closure head statements tail ih =>
    have hstatements := (Node.every_closure.mp hopens).2
    rw [Node.suites, Node.allSuites_eq, List.mem_flatMap] at hsuite
    obtain ⟨s, hs, hsuite⟩ := hsuite
    exact seekAll_isSome hs (ih s hs (hstatements s hs) hsuite)
  | named head name colonLead value ih => exact ih (Node.every_named.mp hopens).2 hsuite
  | assignment head target operatorLead value ihtarget ihvalue =>
    obtain ⟨-, htarget, hvalue⟩ := Node.every_assignment.mp hopens
    rw [Node.suites, List.mem_append] at hsuite
    rw [seek, Option.isSome_or, Bool.or_eq_true]
    exact hsuite.imp (ihtarget htarget) (ihvalue hvalue)
  | literal head value source => cases hsuite
  | identifier head name => cases hsuite
  | raw head text => cases hsuite

/-- The declarations in the blocks of a closure change only if the first statement with a block in
scope is that block. -/
theorem Replaces.gains_inside {lead configuration : String} {dependency : Dependency}
    (hreplaces : scope.Replaces h block new enclosing n m) (hgrows : Grows d h block new)
    (hd : d.IsDeclaration lead configuration dependency) :
    Declaration.Gains ⟨configuration,
      dependency⟩ (n.closureStatements.flatMap Node.blockDeclarations)
      (m.closureStatements.flatMap Node.blockDeclarations)
      ((scope.holder? enclosing n.closureStatements).any Node.isBlock &&
        scope.contains enclosing) := by
  cases hreplaces with
  | here is inside =>
    obtain ⟨grown, rfl, -⟩ := grows_alike hgrows
    exact .unseen rfl
  | @statement _ head before after a b tail earlier inside =>
    simp only [Node.closureStatements, inside.holder? earlier, Option.any_some, List.flatMap_append,
      List.flatMap_cons]
    exact (inside.gains hgrows hd).between _ _
  | _ => exact .unseen rfl

structure Shows (suite : String) (x : Declaration) (n m : Node) : Prop where
  node : Declaration.Gains x n.suiteDeclarations m.suiteDeclarations (n.reaches suite)
  body : Declaration.Gains x n.bodySuiteDeclarations m.bodySuiteDeclarations (n.bodyReaches suite)

theorem Replaces.shows {lead configuration : String} {dependency : Dependency}
    (hreplaces : (Scope.suite suite).Replaces h block new enclosing n m)
    (hgrows : Grows d h block new) (hd : d.IsDeclaration lead configuration dependency)
    (houtside : (Scope.suite suite).contains enclosing = false) :
    Shows suite (Declaration.inSuite suite ⟨configuration, dependency⟩) n m := by
  induction hreplaces with
  | here is inside =>
    rw [houtside] at inside
    cases inside
  | @argument _ head c parenthesized lead tail trail before after a b skipped is earlier
    inside ih =>
    have halike := Call.alike_argument is (Node.face_of_outline (inside.unchanged hgrows).outline)
    have hnodes : c.argumentNodes = before.map Argument.node ++ a :: after.map Argument.node := by
      simp [Call.argumentNodes, is]
    have hseek : (Scope.suite suite).seekAll (some c) c.argumentNodes = some (h, block) := by
      simp [hnodes, seekAll_append, seekAll, earlier, inside.seek_eq]
    refine ⟨?_, .unseen rfl⟩
    rw [Node.reaches_call, Node.suiteDeclarations_call, Node.suiteDeclarations_call,
      halike.suiteName?]
    cases hname : c.suiteName? with
    | some other =>
      rw [seekAll_arguments hname] at hseek
      cases hseek
    | none =>
      -- The block is in an argument, where readers do not look.
      simp only [hseek, Option.isNone_some, Bool.false_and]
      exact .unseen rfl
  | @body _ head c a b skipped earlier is inside ih =>
    have halike := Call.alike_closure is (Node.face_of_outline (inside.unchanged hgrows).outline)
    refine ⟨?_, .unseen rfl⟩
    rw [Node.reaches_call, Node.suiteDeclarations_call, Node.suiteDeclarations_call,
      halike.suiteName?]
    cases hname : c.suiteName? with
    | some other =>
      have hgains := (inside.gains_inside hgrows hd).inSuite other
      have hcontains : (Scope.suite suite).contains (some c) = decide (other = suite) := by
        simp [contains, hname]
      rw [hcontains, Bool.and_comm] at hgains
      simp only [Call.statements, is]
      by_cases hother : other = suite
      · subst hother
        exact hgains
      · -- The statements of another suite are out of scope, so none of them is the block that
        -- grows.
        simp only [hother, decide_false, Bool.false_and] at hgains ⊢
        cases hgains with
        | unseen same => exact .unseen same
    | none =>
      have hinside := (ih (by simp [contains, hname])).body
      simp only [earlier, is, Option.isNone_none, Bool.true_and, Option.any_some,
        Option.toList_some, List.flatMap_singleton]
      exact hinside
  | @statement _ head before after a b tail earlier inside ih =>
    have hholder := @Replaces.holder? _ _ _ _ _ _ _ before after inside earlier
    rw [@holder?_congr _ _ none houtside] at hholder
    refine ⟨.unseen rfl, ?_⟩
    simp only [Node.bodyReaches, Node.firstReaches_eq, hholder, Option.any_some,
      Node.bodySuiteDeclarations,
      Node.allSuiteDeclarations_eq, List.flatMap_append, List.flatMap_cons]
    exact (ih houtside).node.between _ _
  | named inside ih => exact ⟨.unseen rfl, .unseen rfl⟩
  | target inside ih => exact ⟨.unseen rfl, .unseen rfl⟩
  | value earlier inside ih => exact ⟨.unseen rfl, .unseen rfl⟩

/-- Readers find the declarations of a block that they come to. -/
theorem mem_of_reaches {x : Declaration} (hx : x ∈ Declaration.inBlock block)
    (houtside : (Scope.suite suite).contains enclosing = false)
    (hseek : (Scope.suite suite).seek enclosing n = some (h, block)) :
    (n.reaches suite = true → x.inSuite suite ∈ n.suiteDeclarations) ∧
      (n.bodyReaches suite = true → x.inSuite suite ∈ n.bodySuiteDeclarations) := by
  induction n using Node.induct generalizing enclosing with
  | call head c ihitems ihbody =>
    refine ⟨fun hreaches => ?_, fun hreaches => absurd hreaches Bool.false_ne_true⟩
    rw [seek_call, houtside, Bool.and_false, if_neg Bool.false_ne_true] at hseek
    rw [Node.reaches_call] at hreaches
    rw [Node.suiteDeclarations_call]
    cases hname : c.suiteName? with
    | some other =>
      simp only [hname, Bool.and_eq_true, decide_eq_true_eq] at hreaches ⊢
      obtain ⟨rfl, hblock⟩ := hreaches
      obtain ⟨s, hholder, hblock⟩ := (Option.any_eq_true _ _).mp hblock
      have hs : s ∈ c.statements := List.mem_of_find?_eq_some hholder
      obtain ⟨ch, tail, hclosure⟩ := Call.closure_of_mem hs
      rw [seekAll_arguments hname, Option.none_or, hclosure, Option.bind_some, seek,
        seekAll_eq_bind, hholder, Option.bind_some] at hseek
      have hcontains : (Scope.suite other).contains (some c) = true := decide_eq_true hname
      rw [← blockDeclarations_of_seek hblock hcontains hseek] at hx
      exact List.mem_map_of_mem (List.mem_flatMap.mpr ⟨s, hs, hx⟩)
    | none =>
      simp only [hname, Bool.and_eq_true, Option.isNone_iff_eq_none] at hreaches ⊢
      obtain ⟨hnone, hreaches⟩ := hreaches
      obtain ⟨body, hbody, hreaches⟩ := (Option.any_eq_true _ _).mp hreaches
      rw [hnone, Option.none_or, hbody, Option.bind_some] at hseek
      rw [hbody, Option.toList_some, List.flatMap_singleton]
      exact (ihbody body hbody (by simp [contains, hname]) hseek).2 hreaches
  | closure head statements tail ih =>
    refine ⟨fun hreaches => absurd hreaches Bool.false_ne_true, fun hreaches => ?_⟩
    rw [Node.bodyReaches, Node.firstReaches_eq] at hreaches
    rw [seek, seekAll_eq_bind, Option.bind_eq_some_iff] at hseek
    obtain ⟨s, hholder, hseek⟩ := hseek
    have hs : s ∈ statements := List.mem_of_find?_eq_some hholder
    rw [@holder?_congr _ _ none houtside] at hholder
    rw [hholder, Option.any_some] at hreaches
    rw [Node.bodySuiteDeclarations, Node.allSuiteDeclarations_eq, List.mem_flatMap]
    exact ⟨s, hs, (ih s hs houtside hseek).1 hreaches⟩
  | named head name colonLead value ih => exact ⟨Bool.noConfusion, Bool.noConfusion⟩
  | assignment head target operatorLead value ihtarget ihvalue =>
    exact ⟨Bool.noConfusion, Bool.noConfusion⟩
  | literal head value source => cases hseek
  | identifier head name => cases hseek
  | raw head text => cases hseek

end Scope

namespace SourceFile

def opensSuite (f : SourceFile) (suite : String) : Bool :=
  f.statements.all fun s => s.every (Node.opensSuite suite)

def reachesSuite (f : SourceFile) (suite : String) : Bool := Node.firstReaches suite f.statements

theorem suiteDeclarations_eq (f : SourceFile) :
    f.suiteDeclarations = f.statements.flatMap Node.suiteDeclarations :=
  Node.allSuiteDeclarations_eq f.statements

end SourceFile

theorem Insertion.finds_of_suites {i : Insertion} {f : SourceFile} {suite : String}
    (hscope : i.scope = .suite suite) (hsuite : suite ∈ f.suites true)
    (hopens : f.opensSuite suite = true) : i.finds f = true := by
  rw [SourceFile.suites_eq, Names.mem_ofList, List.mem_flatMap] at hsuite
  obtain ⟨s, hs, hsuite⟩ := hsuite
  rw [SourceFile.opensSuite, List.all_eq_true] at hopens
  rw [finds_eq, hscope]
  exact Scope.seekAll_isSome hs (Scope.seek_isSome_of_suites (hopens s hs) hsuite)

/-- A listed suite has a block for an insertion, unless its `dependencies` has no closure. What is
inserted is read for the suite if readers come to that block. -/
theorem suite_insertion_is_read {i : Insertion} {f : SourceFile} {suite : String}
    {dependency : Dependency} (hread : f.IsRead) (hscope : i.scope = .suite suite)
    (hsuite : suite ∈ f.suites true) (hopens : f.opensSuite suite = true)
    (hwrites : Recipe.Writes i.configuration dependency i.statement)
    (hcoordinate : dependency.toCoordinate = i.coordinate) (hblank : i.isBlankIndented f = true) :
    i.finds f = true ∧
      (i.Listed (suiteConfiguration suite i.configuration) (i.result f).suiteDeclarations ↔
        f.reachesSuite suite = true ∨
          i.Listed (suiteConfiguration suite i.configuration) f.suiteDeclarations) := by
  have hfinds := Insertion.finds_of_suites hscope hsuite hopens
  have htakes := Insertion.takes_result hread hwrites hcoordinate hblank hfinds
  refine ⟨hfinds, ?_⟩
  generalize i.result f = result at htakes
  simp only [SourceFile.suiteDeclarations_eq, SourceFile.reachesSuite, Node.firstReaches_eq]
  cases htakes with
  | @kept h block found listed =>
    refine ⟨Or.inr, ?_⟩
    rintro (hreaches | hlisted)
    · obtain ⟨x, hx, hconfiguration, hdependency⟩ := listed
      obtain ⟨s, hholder, hreaches⟩ := (Option.any_eq_true _ _).mp hreaches
      rw [hscope, Scope.seekAll_eq_bind, hholder, Option.bind_some] at found
      have hmem := (Scope.mem_of_reaches hx rfl found).1 hreaches
      refine ⟨_, List.mem_flatMap.mpr ⟨s, List.mem_of_find?_eq_some hholder, hmem⟩, ?_, hdependency⟩
      rw [Declaration.inSuite, hconfiguration]
    · exact hlisted
  | @grown before after a m new d h block lead dependency is earlier inside grows declares
    coordinate =>
    rw [hscope] at earlier inside
    have hgains :=
      (inside.shows grows declares rfl).node.between (before.flatMap Node.suiteDeclarations)
      (after.flatMap Node.suiteDeclarations)
    rw [is, inside.holder? earlier, Option.any_some]
    simp only [SourceFile.withStatements, List.flatMap_append, List.flatMap_cons]
    exact Insertion.listed_of_gains hgains rfl coordinate

theorem suite_insertion_is_read_in_block :
    let f := Recipe.buildFile
      "testing \x7b suites \x7b it(JvmTestSuite) \x7b dependencies \x7b \x7d \x7d \x7d \x7d\n"
    let i := sampleInsertion (.suite "it")
    f.IsRead ∧ "it" ∈ f.suites true ∧ f.opensSuite "it" = true ∧ i.isBlankIndented f = true ∧
      i.finds f = true ∧
      f.suiteDeclarations = [] ∧ i.Listed "itImplementation" (i.result f).suiteDeclarations := by
  intro f i
  have hread : f.IsRead := Recipe.isRead_buildFile _
  have hsuite : "it" ∈ f.suites true := by decide +kernel
  have hopens : f.opensSuite "it" = true := by decide +kernel
  have hblank : i.isBlankIndented f = true := by decide +kernel
  have hreaches : f.reachesSuite "it" = true := by decide +kernel
  have hconfiguration : suiteConfiguration "it" i.configuration = "itImplementation" := by
    decide +kernel
  obtain ⟨hfinds, hlisted⟩ :=
    suite_insertion_is_read hread rfl hsuite hopens (writes_sampleInsertion _) rfl hblank
  rw [hconfiguration] at hlisted
  exact ⟨hread, hsuite, hopens, hblank, hfinds, by decide +kernel, hlisted.mpr (Or.inl hreaches)⟩

/-- A suite is listed for a `dependencies` without a closure, which is no block to insert into. And
a suite whose registration is assigned takes a declaration that is not read. -/
theorem suite_insertion_is_not_read :
    let bare :=
      Recipe.buildFile
      "testing \x7b suites \x7b it(JvmTestSuite) \x7b dependencies() \x7d \x7d \x7d\n"
    let assigned :=
      Recipe.buildFile
        "x = testing \x7b suites \x7b it(JvmTestSuite) \x7b dependencies \x7b \x7d \x7d \x7d \x7d\n"
    let i := sampleInsertion (.suite "it")
    ("it" ∈ bare.suites true ∧ i.isBlankIndented bare = true ∧ i.finds bare = false) ∧
      "it" ∈ assigned.suites true ∧ i.isBlankIndented assigned = true ∧ i.finds assigned = true ∧
      (i.result assigned).suiteDeclarations = [] :=
  ⟨⟨by decide +kernel, by decide +kernel, by decide +kernel⟩, by decide +kernel, by decide +kernel,
    by decide +kernel,
    by decide +kernel⟩

end BuildScript
