import BuildScript.Proofs.Snippets

/-!
# Declaring a dependency for one target

Writing the declaration of a target lets a block grow, adds a block to the end of the file, or
leaves a file alone in which the target is settled. Afterwards the target is settled, and so is
every target that was before.
-/

namespace BuildScript

structure Node.Orderly (s : Node) : Prop where
  indented : isIndented s.lead = true
  tidy : s.every (Node.isTidy true) = true
  placed : s.every Node.isPlaced = true
  unnamed : s.isNamed = false

/-- The first block in scope has the declaration of a target, or the target has no block to go
to. -/
inductive Settled (coordinate : Coordinate) (t : Target) (statements : List Node) : Prop
  | declared {h : Head} {block : Call Node} {x : Declaration}
      (found : (Recipe.Target.scope t).seekAll none statements = some (h, block))
      (is : x ∈ Declaration.inBlock block)
      (configuration : x.configuration = t.declared)
      (dependency : x.dependency.toCoordinate = coordinate)
  | nowhere (missing : (Recipe.Target.scope t).seekAll none statements = none)
      (suite : t.placement ≠ .topLevel)

/-- What becomes of a file when the declaration of a target is written. -/
inductive Declared (coordinate : Coordinate) (text : String) (t : Target) (f : SourceFile) :
    SourceFile → Prop
  | kept (settled : Settled coordinate t f.statements) : Declared coordinate text t f f
  | grown {before after : List Node} {a m new d : Node} {h : Head} {block : Call Node}
      {indent : String} (is : f.statements = before ++ a :: after)
      (earlier : (Recipe.Target.scope t).seekAll none before = none)
      (inside : (Recipe.Target.scope t).Replaces h block new none a m) (grows : Grows d h block new)
      (indented : isIndented h.lead = true) (blank : indent.toList.all Lexeme.isSpace = true)
      (snippet : Node.parseSnippet ("\n" ++ indent ++ text) = [d]) :
      Declared coordinate text t f (f.withStatements (before ++ m :: after))
  | appended (missing : (Recipe.Target.scope t).seekAll none f.statements = none)
      (top : t.placement = .topLevel) :
      Declared coordinate text t f (f.appendBlock text)

section Indentation

variable {scope : Scope} {h : Head} {block : Call Node} {statements : List Node}
    {text configuration written : String}

theorem indented_of_orderly (horderly : ∀ s ∈ statements, s.Orderly)
    (hseek : scope.seekAll none statements = some (h, block)) : Scope.Indented h block := by
  refine Scope.of_seekAll (fun s hs h block hfound => ?_) hseek
  have hs := horderly s hs
  exact Scope.indented_of_seek hs.tidy hs.placed
    (fun _ => ⟨hs.unnamed, fun _ => hs.indented⟩) hfound

theorem statementIndent_blank {indent : String} (hindent : indent.toList.all Lexeme.isSpace = true)
    (hinside : ∀ s ∈ statements, isIndented s.lead = true) :
    (Insertion.statementIndent indent statements).toList.all Lexeme.isSpace = true := by
  unfold Insertion.statementIndent
  cases hfound : statements.reverse.findSome? fun s => lineIndent? s.lead with
  | none =>
    rw [Option.getD_none, String.toList_append, List.all_append, hindent]
    rfl
  | some found =>
    obtain ⟨s, hs, hlead⟩ := List.exists_of_findSome?_eq_some hfound
    have hblank := hinside s (List.mem_reverse.mp hs)
    rwa [isIndented, hlead] at hblank

/-- A block takes a written statement that stands behind blanks. -/
theorem append?_of_blank {ch : Head} {tail : String}
    (is : block.closure = some (.closure ch statements tail))
    (hblank : (Insertion.statementIndent ((lineIndent? h.lead).getD "") statements).toList.all
      Lexeme.isSpace = true)
    (hphrases : Recipe.Phrases configuration written text) :
    ∃ d new, Insertion.append? text h block = some new ∧ Grows d h block new ∧
      Node.parseSnippet ("\n" ++
        Insertion.statementIndent ((lineIndent? h.lead).getD "") statements ++ text) = [d] := by
  obtain ⟨d, hparse, -⟩ := hphrases.statement hblank
  refine ⟨d, _, ?_, .mk is, hparse⟩
  simp only [Insertion.append?, is, hparse]

/-- An indented block takes a written statement. -/
theorem append?_of_indented (hblock : Scope.Indented h block)
    (hphrases : Recipe.Phrases configuration written text) :
    ∃ d new indent, Insertion.append? text h block = some new ∧ Grows d h block new ∧
      indent.toList.all Lexeme.isSpace = true ∧
        Node.parseSnippet ("\n" ++ indent ++ text) = [d] := by
  cases hblock with
  | mk lead is inside =>
    have hindent := statementIndent_blank lead inside
    obtain ⟨d, new, happend, hgrows, hparse⟩ := append?_of_blank is hindent hphrases
    exact ⟨d, new, _, happend, hgrows, hindent, hparse⟩

end Indentation

section Step

variable {r : Recipe} {coordinate : Coordinate} {t other : Target} {f f' : SourceFile}
    {text written : String}
  {dependency : Dependency}

theorem declare_eq (r : Recipe) (text : String) (f : SourceFile) (t : Target) :
    r.declare text f t =
      match Insertion.intoFile ⟨Recipe.Target.scope t, r.coordinate, t.declared, text⟩ f with
      | (edited, true) => edited
      | (edited, false) => if t.placement = .topLevel then edited.appendBlock text else edited := by
  rw [Recipe.declare]
  rcases Insertion.intoFile ⟨Recipe.Target.scope t, r.coordinate, t.declared, text⟩ f with ⟨edited,
    _ | _⟩ <;> simp

/-- A settled target leaves the file as it is. -/
theorem declare_of_settled (h : Settled r.coordinate t f.statements) (text : String) :
    r.declare text f t = f := by
  have houtcome :=
    Insertion.outcome_intoFile ⟨Recipe.Target.scope t, r.coordinate, t.declared, text⟩ f
  rw [declare_eq]
  generalize Insertion.intoFile ⟨Recipe.Target.scope t, r.coordinate, t.declared,
    text⟩ f = outcome at *
  cases h with
  | @declared h block x found is configuration dependency =>
    have hdeclared : Insertion.isDeclared ⟨Recipe.Target.scope t, r.coordinate, t.declared,
        text⟩ block = true :=
      Insertion.isDeclared_iff.mpr ⟨x, is, configuration, dependency⟩
    rw [found] at houtcome
    cases houtcome with
    | kept is => rfl
    | changed is related =>
      rw [Insertion.intoBlock?_eq_some_iff, hdeclared] at is
      cases is.1
  | nowhere missing suite =>
    rw [missing] at houtcome
    cases houtcome with
    | missing => exact if_neg suite

theorem declared_declare (horderly : ∀ s ∈ f.statements, s.Orderly)
    (hphrases : Recipe.Phrases t.declared written text) :
    Declared r.coordinate text t f (r.declare text f t) := by
  have houtcome :=
    Insertion.outcome_intoFile ⟨Recipe.Target.scope t, r.coordinate, t.declared, text⟩ f
  have hindented :=
    fun h block => @indented_of_orderly (Recipe.Target.scope t) h block f.statements horderly
  rw [declare_eq]
  generalize Insertion.intoFile ⟨Recipe.Target.scope t, r.coordinate, t.declared,
    text⟩ f = outcome at *
  generalize hseek : (Recipe.Target.scope t).seekAll none f.statements = found at *
  cases houtcome with
  | missing =>
    simp only
    split_ifs with hplacement
    · exact .appended hseek hplacement
    · exact .kept (.nowhere hseek hplacement)
  | @kept h block is =>
    refine .kept ?_
    obtain ⟨d, new, indent, happend, -⟩ := append?_of_indented (hindented h block rfl) hphrases
    obtain hdeclared | hnone := Insertion.intoBlock?_eq_none_iff.mp is
    · obtain ⟨x, hx, hconfiguration, hdependency⟩ := Insertion.isDeclared_iff.mp hdeclared
      exact .declared hseek hx hconfiguration hdependency
    · rw [happend] at hnone
      cases hnone
  | @changed h block new statements is related =>
    obtain ⟨before, a, after, m, hstatements, hbefore, hreplaces, rfl⟩ := related
    obtain ⟨d, new', indent, happend, hgrows, hblank, hsnippet⟩ :=
      append?_of_indented (hindented h block rfl) hphrases
    obtain rfl : new' = new :=
      Option.some.inj (happend.symm.trans (Insertion.intoBlock?_eq_some_iff.mp is).2)
    have hlead : isIndented h.lead = true := by
      cases hindented h block rfl with
      | mk lead is inside => exact lead
    exact .grown hstatements hbefore hreplaces hgrows hlead hblank hsnippet

/-- A block that is added holds the statement and nothing else. -/
theorem appendBlock_calls (hphrases : Recipe.Phrases t.declared written text) (f : SourceFile) :
    ∃ h ch d, (f.appendBlock text).statements =
        f.statements ++ [.call h (.plain "dependencies" none (some (.closure ch [d] "\n")))] ∧
      h.lead = (if f.statements.isEmpty then "" else "\n\n") ∧
        d.IsCallOf "\n    " t.declared written := by
  have hblank : (if f.statements.isEmpty then "" else "\n\n").toList.all Lexeme.isSpace = true := by
    split_ifs <;> rfl
  obtain ⟨h, ch, d, hparse, hlead, hd⟩ := hphrases.block hblank
  refine ⟨h, ch, d, ?_, hlead, hd⟩
  simp only [SourceFile.appendBlock, String.append_assoc] at hparse ⊢
  rw [hparse]

theorem appendBlock_statements (hwrites : Recipe.Writes t.declared dependency text)
    (f : SourceFile) :
    ∃ h ch d, (f.appendBlock text).statements =
        f.statements ++ [.call h (.plain "dependencies" none (some (.closure ch [d] "\n")))] ∧
      d.IsDeclaration "\n    " t.declared dependency := by
  obtain ⟨written, hphrases, hreads⟩ := hwrites
  obtain ⟨h, ch, d, hstatements, -, hd⟩ := appendBlock_calls hphrases f
  exact ⟨h, ch, d, hstatements, written, hd, hreads⟩

theorem isCallOf_of_snippet {indent : String} {d : Node}
    (hphrases : Recipe.Phrases t.declared written text)
    (hblank : indent.toList.all Lexeme.isSpace = true)
    (hsnippet : Node.parseSnippet ("\n" ++ indent ++ text) = [d]) :
    d.IsCallOf ("\n" ++ indent) t.declared written := by
  obtain ⟨d', hparse, hd⟩ := hphrases.statement hblank
  rw [hsnippet, List.cons.injEq] at hparse
  rwa [hparse.1]

theorem isDeclaration_of_snippet {indent : String} {d : Node}
    (hwrites : Recipe.Writes t.declared dependency text)
    (hblank : indent.toList.all Lexeme.isSpace = true)
    (hsnippet : Node.parseSnippet ("\n" ++ indent ++ text) = [d]) :
    d.IsDeclaration ("\n" ++ indent) t.declared dependency := by
  obtain ⟨written, hphrases, hreads⟩ := hwrites
  exact ⟨written, isCallOf_of_snippet hphrases hblank hsnippet, hreads⟩

theorem isIndented_of_blank {lead : String} (hblank : lead.toList.all Lexeme.isSpace = true) :
    isIndented lead = true := by
  have hsuffix : ∀ text before after, Text.cutLast? '\n' text = some (before, after) →
      ∃ init, text = init ++ after := by
    intro text
    induction text with
    | nil => simp [Text.cutLast?]
    | cons c text ih =>
      intro before after hcut
      rw [Text.cutLast?] at hcut
      split at hcut
      · rename_i before' after' hrest
        simp only [Option.some.injEq, Prod.mk.injEq] at hcut
        obtain ⟨-, rfl⟩ := hcut
        obtain ⟨init, rfl⟩ := ih before' after' hrest
        exact ⟨c :: init, rfl⟩
      · split_ifs at hcut
        simp only [Option.some.injEq, Prod.mk.injEq] at hcut
        exact ⟨[c], by rw [← hcut.2]; rfl⟩
  unfold isIndented lineIndent?
  cases hcut : Text.cutLast? '\n' lead.toList with
  | none => rfl
  | some cut =>
    obtain ⟨init, hinit⟩ := hsuffix _ cut.1 cut.2 hcut
    rw [hinit, List.all_append, Bool.and_eq_true] at hblank
    simpa using hblank.2

theorem Declared.markers (h : Declared coordinate text t f f') :
    f'.path = f.path ∧ f'.markers = f.markers := by
  cases h <;> exact ⟨rfl, rfl⟩

theorem Declared.orderly (h : Declared coordinate text t f f')
    (hphrases : Recipe.Phrases t.declared written text) (horderly : ∀ s ∈ f.statements, s.Orderly) :
    ∀ s ∈ f'.statements, s.Orderly := by
  cases h with
  | kept settled => exact horderly
  | @grown before after a m new d h block indent is earlier inside grows indented blank snippet =>
    have hd := isCallOf_of_snippet hphrases blank snippet
    have hlead : isIndented d.lead = true := by
      rw [hd.head_lead]
      apply isIndented_of_blank
      rw [String.toList_append, List.all_append, blank]
      rfl
    have hsame := inside.unchanged grows
    simp only [is, SourceFile.withStatements, List.forall_mem_append,
      List.forall_mem_cons] at horderly ⊢
    obtain ⟨hbefore, ha, hafter⟩ := horderly
    refine ⟨hbefore, ⟨hsame.lead ▸ ha.indented, ?_, ?_, hsame.isNamed ▸ ha.unnamed⟩, hafter⟩
    · refine inside.every grows (fun _ _ htouches => htouches.isTidy) hd.isTidy ?_ ha.tidy
      intro ch statements tail tail' htidy
      simpa [Node.isTidy, hlead] using htidy
    · refine inside.every grows (fun _ _ htouches => htouches.isPlaced) hd.isPlaced ?_ ha.placed
      intro ch statements tail tail' hplaced
      simpa [Node.isPlaced, hd.isNamed] using hplaced
  | appended missing top =>
    obtain ⟨h, ch, d, hstatements, hlead, hd⟩ := appendBlock_calls hphrases f
    have hinside : isIndented d.lead = true := by
      rw [hd.head_lead]
      rfl
    rw [hstatements, List.forall_mem_append, List.forall_mem_singleton]
    refine ⟨horderly, ?_, ?_, ?_, rfl⟩
    · apply isIndented_of_blank
      rw [Node.lead, Node.head, hlead]
      split_ifs <;> rfl
    · simp [Node.every, Call.plain, Node.isTidy, hinside, hd.isTidy]
    · simp [Node.every, Call.plain, Node.isPlaced, Node.isClosure, hd.isNamed, hd.isPlaced]

theorem Declared.settled (h : Declared coordinate text t f f')
    (hwrites : Recipe.Writes t.declared dependency text)
    (hdependency : dependency.toCoordinate = coordinate) :
    Settled coordinate t f'.statements := by
  cases h with
  | kept settled => exact settled
  | @grown before after a m new d h block indent is earlier inside grows indented blank snippet =>
    have hd := isDeclaration_of_snippet hwrites blank snippet
    obtain ⟨grown, hnew, hseek⟩ := inside.seek_new grows (show Scope.AlikeAround none none from rfl)
    obtain ⟨grown', hnew', -, hinBlock⟩ := Scope.grows_alike grows
    obtain rfl : grown' = grown := (Node.call.inj (hnew'.symm.trans hnew)).2
    have hfound : (Recipe.Target.scope t).seekAll none (before ++ m :: after) =
        some (h.revised, grown') := by
      rw [Scope.seekAll_append, earlier, Scope.seekAll, hseek]
      rfl
    refine @Settled.declared _ _ _ _ _ ⟨t.declared, dependency⟩ hfound ?_ rfl hdependency
    rw [hinBlock, hd.ofStatement?]
    simp
  | appended missing top =>
    obtain ⟨h, ch, d, hstatements, hd⟩ := appendBlock_statements hwrites f
    have hscope : Recipe.Target.scope t = .topLevel := by simp [Recipe.Target.scope, top]
    have hfound : (Recipe.Target.scope t).seekAll none (f.appendBlock text).statements =
        some (h, .plain "dependencies" none (some (.closure ch [d] "\n"))) := by
      have hname : simpleName "dependencies" = "dependencies" := by decide
      rw [hstatements, Scope.seekAll_append, missing, hscope, Scope.seekAll, Scope.seek_call]
      simp [Call.isBlock, Call.simpleName, Call.plain, hname, Scope.contains]
    refine @Settled.declared _ _ _ _ _ ⟨t.declared, dependency⟩ hfound ?_ rfl hdependency
    rw [Declaration.inBlock_eq rfl]
    simp [hd.ofStatement?]

/-- A target that is settled stays so when other declarations are written. -/
theorem Declared.keeps_settled (h : Declared coordinate text t f f')
    (hwrites : Recipe.Writes t.declared dependency text)
    (hsettled : Settled coordinate other f.statements) :
    Settled coordinate other f'.statements := by
  cases h with
  | kept settled => exact hsettled
  | @grown before after a m new d h block indent is earlier inside grows indented blank snippet =>
    have hd := isDeclaration_of_snippet hwrites blank snippet
    have hkeeps : Scope.Keeps ((Recipe.Target.scope other).seekAll none (before ++ a :: after))
        ((Recipe.Target.scope other).seekAll none (before ++ m :: after)) := by
      rw [Scope.seekAll_append, Scope.seekAll_append, Scope.seekAll, Scope.seekAll]
      exact (Scope.Keeps.refl _).or
        ((inside.keeps grows hd.isLeaf (show Scope.AlikeAround none none from rfl)).or (.refl _))
    rw [is] at hsettled
    cases hsettled with
    | declared found mem configuration dependency =>
      rw [found] at hkeeps
      generalize hfound : (Recipe.Target.scope other).seekAll none (before ++ m :: after) =
        found' at hkeeps
      cases hkeeps with
      | some declared => exact .declared hfound (declared _ mem) configuration dependency
    | nowhere missing suite =>
      rw [missing] at hkeeps
      generalize hfound : (Recipe.Target.scope other).seekAll none (before ++ m :: after) =
        found' at hkeeps
      cases hkeeps with
      | none => exact .nowhere hfound suite
  | appended missing top =>
    obtain ⟨h, ch, d, hstatements, hd⟩ := appendBlock_statements hwrites f
    have hseek : (Recipe.Target.scope other).seekAll none (f.appendBlock text).statements =
        ((Recipe.Target.scope other).seekAll none f.statements).or
          ((Recipe.Target.scope other).seek none
          (.call h (.plain "dependencies" none (some (.closure ch [d] "\n"))))) := by
      rw [hstatements, Scope.seekAll_append, Scope.seekAll, Scope.seekAll, Option.or_none]
    cases hsettled with
    | declared found mem configuration dependency =>
      rw [found] at hseek
      exact .declared hseek mem configuration dependency
    | nowhere missing' suite =>
      obtain ⟨name, hname⟩ : ∃ name, Recipe.Target.scope other = .suite name := by
        unfold Recipe.Target.scope
        split
        · rename_i hplacement
          exact absurd hplacement suite
        · exact ⟨_, rfl⟩
      -- A block at the end of the file is in no suite.
      refine .nowhere ?_ suite
      rw [hseek, missing', hname, Option.none_or, Scope.seek_call]
      simp [Call.isBlock, Call.plain, Scope.contains, Call.argumentNodes, Scope.seekAll, Scope.seek,
        Scope.seek_leaf hd.isLeaf]

/-- Nothing but the declaration of the target is added. -/
theorem Declared.adds (h : Declared coordinate text t f f')
    (hwrites : Recipe.Writes t.declared dependency text) :
    Declaration.Adds dependency.toCoordinate f.declarations f'.declarations := by
  rw [SourceFile.declarations_eq, SourceFile.declarations_eq]
  cases h with
  | kept settled => exact .refl _
  | @grown before after a m new d h block indent is earlier inside grows indented blank snippet =>
    have hd := isDeclaration_of_snippet hwrites blank snippet
    have hadds := inside.addsTo grows hd.isLeaf hd.ofStatement?
    simp only [is, SourceFile.withStatements, List.flatMap_append, List.flatMap_cons]
    exact .append (.append (.refl _) (.append hadds.block (.refl _)))
      (.append (.refl _) (.append hadds.suites (.refl _)))
  | appended missing top =>
    obtain ⟨h, ch, d, hstatements, hd⟩ := appendBlock_statements hwrites f
    have hname : simpleName "dependencies" = "dependencies" := by decide
    have hblock : Node.blockDeclarations
        (.call h (.plain "dependencies" none (some (.closure ch [d] "\n")))) =
        [⟨t.declared, dependency⟩] := by
      simp [Node.blockDeclarations, Node.call?, Call.simpleName, Call.plain, hname,
        Declaration.inBlock, Call.statements, Node.closureStatements, hd.ofStatement?]
    have hsuites : Node.suiteDeclarations
        (.call h (.plain "dependencies" none (some (.closure ch [d] "\n")))) = [] := by
      obtain ⟨-, hleaf⟩ := Scope.addsTo_leaf hd.isLeaf
      simp [Node.suiteDeclarations_call, Call.suiteName?, Call.plain, Call.argumentNodes,
        Node.bodySuiteDeclarations, hleaf]
    simp only [hstatements, List.flatMap_append, List.flatMap_singleton, hblock, hsuites,
      List.append_nil]
    refine .append ⟨fun x hx => List.mem_append_left _ hx, fun x hx => ?_⟩ (.refl _)
    rw [List.mem_append, List.mem_singleton] at hx
    obtain hx | rfl := hx
    · exact Or.inl hx
    · exact Or.inr rfl

/-- A target in a suite is declared under a name that is no call of `dependencies`. -/
def Target.IsPlain (t : Target) : Prop :=
  Recipe.Target.scope t = .topLevel ∨ simpleName t.declared ≠ "dependencies"

theorem Declared.suites (h : Declared coordinate text t f f')
    (hwrites : Recipe.Writes t.declared dependency text) (hplain : t.IsPlain) (blocksOnly : Bool) :
    f'.suites blocksOnly = f.suites blocksOnly := by
  cases h with
  | kept settled => rfl
  | @grown before after a m new d h block indent is earlier inside grows indented blank snippet =>
    have hd := isDeclaration_of_snippet hwrites blank snippet
    have hsuites := @Scope.Replaces.suites _ _ _ _ _ _ _ _ [] [] blocksOnly inside grows hd.isLeaf
      (hplain.imp_right hd.callsDependencies) rfl rfl
    simp only [SourceFile.suites_eq, SourceFile.withStatements, is, List.flatMap_append,
      List.flatMap_cons, hsuites]
  | appended missing top =>
    obtain ⟨h, ch, d, hstatements, hd⟩ := appendBlock_statements hwrites f
    have hnone : Node.suites blocksOnly []
        (.call h (.plain "dependencies" none (some (.closure ch [d] "\n")))) = [] := by
      simp [Node.suites_call, Call.placedSuite?, Call.isSuitePlace, Call.plain, Call.argumentNodes,
        Node.suites, Scope.suites_leaf hd.isLeaf]
    simp only [SourceFile.suites_eq, hstatements, List.flatMap_append,
      List.flatMap_singleton, hnone, List.append_nil]

end Step

end BuildScript
