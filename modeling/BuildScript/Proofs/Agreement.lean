import BuildScript.Proofs.Rerun

/-!
# Writing a declaration and reading it back

An insertion goes to the first block in its scope, wherever that is in the tree. The readers of
declarations look at certain places only. What was inserted is read if the first block in scope is
in such a place, and not otherwise.
-/

namespace BuildScript

def Node.isAssignment : Node → Bool
  | assignment _ _ _ _ => true
  | _ => false

theorem Node.blockDeclarations_call {head : Head} {c : Call Node} (h : c.isBlock = true) :
    (Node.call head c).blockDeclarations = Declaration.inBlock c := by
  rw [Call.isBlock, Bool.and_eq_true] at h
  exact if_pos (of_decide_eq_true h.1)

/-- One more declaration is among the new ones if it is seen, and nothing changes otherwise. -/
inductive Declaration.Gains (x : Declaration) (old new : List Declaration) : Bool → Prop
  | seen (keeps : ∀ y ∈ old, y ∈ new) (gained : x ∈ new) : Gains x old new true
  | unseen (same : new = old) : Gains x old new false

namespace Declaration.Gains

variable {x : Declaration} {old new : List Declaration} {seen : Bool}

theorem between (h : Gains x old new seen) (before after : List Declaration) :
    Gains x (before ++ (old ++ after)) (before ++ (new ++ after)) seen := by
  cases h with
  | seen keeps gained =>
    refine .seen (fun y hy => ?_) (List.mem_append_right _ (List.mem_append_left _ gained))
    rw [List.mem_append, List.mem_append] at hy ⊢
    exact hy.imp_right fun hy => hy.imp_left (keeps y)
  | unseen same => exact .unseen (by rw [same])

theorem inSuite (h : Gains x old new seen) (suite : String) :
    Gains (x.inSuite suite) (old.map (Declaration.inSuite suite))
      (new.map (Declaration.inSuite suite)) seen := by
  cases h with
  | seen keeps gained =>
    refine .seen (fun y hy => ?_) (List.mem_map_of_mem gained)
    obtain ⟨z, hz, rfl⟩ := List.mem_map.mp hy
    exact List.mem_map_of_mem (keeps z hz)
  | unseen same => exact .unseen (by rw [same])

end Declaration.Gains

namespace Insertion

def finds (i : Insertion) (f : SourceFile) : Bool := (i.intoFile f).2

def result (i : Insertion) (f : SourceFile) : SourceFile := (i.intoFile f).1

/-- The statement will stand behind blanks, if there is a block for it. -/
def isBlankIndented (i : Insertion) (f : SourceFile) : Bool :=
  (i.scope.seekAll none f.statements).all fun (h, block) =>
    (statementIndent ((lineIndent? h.lead).getD "") block.statements).toList.all Lexeme.isSpace

def Listed (i : Insertion) (configuration : String) (declarations : List Declaration) : Prop :=
  ∃ x ∈ declarations, x.configuration = configuration ∧ x.dependency.toCoordinate = i.coordinate

/-- What an insertion does to a file that has a block for it. -/
inductive Takes (i : Insertion) (f : SourceFile) : SourceFile → Prop
  | kept {h : Head} {block : Call Node}
      (found : i.scope.seekAll none f.statements = some (h, block))
      (listed : i.Listed i.configuration (Declaration.inBlock block)) : Takes i f f
  | grown {before after : List Node} {a m new d : Node} {h : Head} {block : Call Node}
      {lead : String} {dependency : Dependency} (is : f.statements = before ++ a :: after)
      (earlier : i.scope.seekAll none before = none)
      (inside : i.scope.Replaces h block new none a m) (grows : Grows d h block new)
      (declares : d.IsDeclaration lead i.configuration dependency)
      (coordinate : dependency.toCoordinate = i.coordinate) :
      Takes i f (f.withStatements (before ++ m :: after))

end Insertion

namespace Scope

variable {scope : Scope} {enclosing : Option (Call Node)} {h : Head} {block : Call Node}
    {new n m d : Node}

/-- The first of some nodes that has a block in scope, at or below it. -/
def holder? (scope : Scope) (enclosing : Option (Call Node)) (nodes : List Node) : Option Node :=
  nodes.find? fun n => (scope.seek enclosing n).isSome

theorem seekAll_eq_bind (scope : Scope) (enclosing : Option (Call Node)) (nodes : List Node) :
    scope.seekAll enclosing nodes =
      (scope.holder? enclosing nodes).bind (scope.seek enclosing) := by
  induction nodes with
  | nil => rfl
  | cons n nodes ih =>
    rw [seekAll, ih]
    cases hseek : scope.seek enclosing n with
    | none => simp [holder?, hseek]
    | some found => simp [holder?, hseek]

theorem isSome_seekAll (scope : Scope) (enclosing : Option (Call Node)) (nodes : List Node) :
    (scope.seekAll enclosing nodes).isSome = nodes.any fun n =>
      (scope.seek enclosing n).isSome := by
  induction nodes with
  | nil => rfl
  | cons n nodes ih => rw [seekAll, Option.isSome_or, ih, List.any_cons]

theorem Replaces.seek_eq (hreplaces : scope.Replaces h block new enclosing n m) :
    scope.seek enclosing n = some (h, block) := by
  induction hreplaces with
  | here is inside => simp [seek_call, is, inside]
  | @argument _ head c parenthesized lead tail trail before after a b skipped is earlier
    inside ih =>
    have hnodes : c.argumentNodes = before.map Argument.node ++ a :: after.map Argument.node := by
      simp [Call.argumentNodes, is]
    simp [seek_call, skipped, hnodes, seekAll_append, seekAll, earlier, ih]
  | body skipped earlier is inside ih => simp [seek_call, skipped, earlier, is, ih]
  | statement earlier inside ih => simp [seek, seekAll_append, seekAll, earlier, ih]
  | named inside ih => simpa [seek] using ih
  | target inside ih => simp [seek, ih]
  | value earlier inside ih => simp [seek, earlier, ih]

/-- The node that an insertion changes is the first one with a block in scope. -/
theorem Replaces.holder? {before after : List Node}
    (hreplaces : scope.Replaces h block new enclosing n m)
    (hearlier : scope.seekAll enclosing before = none) :
    scope.holder? enclosing (before ++ n :: after) = some n := by
  have hbefore : scope.holder? enclosing before = none := by
    have hany := isSome_seekAll scope enclosing before
    rw [hearlier, Option.isSome_none, eq_comm, List.any_eq_false] at hany
    rwa [Scope.holder?, List.find?_eq_none]
  rw [Scope.holder?] at hbefore ⊢
  simp [List.find?_append, hbefore, hreplaces.seek_eq]

theorem holder?_congr {other : Option (Call Node)}
    (hcontains : scope.contains enclosing = scope.contains other) (nodes : List Node) :
    scope.holder? enclosing nodes = scope.holder? other nodes := by
  have hseek : scope.seek enclosing = scope.seek other := funext (seek_congr hcontains)
  rw [holder?, holder?, hseek]

/-- The declarations of a statement change only if the statement is the block that grows. -/
theorem Replaces.gains {lead configuration : String} {dependency : Dependency}
    (hreplaces : scope.Replaces h block new enclosing n m) (hgrows : Grows d h block new)
    (hd : d.IsDeclaration lead configuration dependency) :
    Declaration.Gains ⟨configuration, dependency⟩ n.blockDeclarations m.blockDeclarations
      (n.isBlock && scope.contains enclosing) := by
  cases hreplaces with
  | here is inside =>
    obtain ⟨grown, rfl, halike, hinBlock⟩ := grows_alike hgrows
    have hseen : (Node.isBlock (.call h block) && scope.contains enclosing) = true := by
      rw [inside, Bool.and_true]
      exact is
    rw [hseen, Node.blockDeclarations_call is,
      Node.blockDeclarations_call (halike.isBlock.trans is), hinBlock, hd.ofStatement?]
    exact .seen (fun y hy => List.mem_append_left _ hy) (List.mem_append_right _ List.mem_cons_self)
  | @argument _ head c parenthesized lead tail trail before after a b skipped is earlier inside =>
    have hunseen : (Node.isBlock (.call head c) && scope.contains enclosing) = false := skipped
    rw [hunseen]
    exact .unseen rfl
  | @body _ head c a b skipped earlier is inside =>
    have hunseen : (Node.isBlock (.call head c) && scope.contains enclosing) = false := skipped
    have hinBlock : Declaration.inBlock { c with closure := some b } = Declaration.inBlock c := by
      simp only [Declaration.inBlock, Call.statements, is]
      exact Declaration.filterMap_ofStatement? (inside.unchanged hgrows).inside
    rw [hunseen]
    refine .unseen ?_
    simp only [Node.blockDeclarations, Node.call?, hinBlock]
    rfl
  | statement earlier inside => exact .unseen rfl
  | named inside => exact .unseen rfl
  | target inside => exact .unseen rfl
  | value earlier inside => exact .unseen rfl

theorem blockDeclarations_of_seek (hn : n.isBlock = true)
    (hcontains : scope.contains enclosing = true)
    (hseek : scope.seek enclosing n = some (h, block)) :
    n.blockDeclarations = Declaration.inBlock block := by
  cases n with
  | call head c =>
    have hblock : c.isBlock = true := hn
    simp only [seek_call, hblock, hcontains, Bool.and_self, if_true, Option.some.injEq,
      Prod.mk.injEq] at hseek
    rw [Node.blockDeclarations_call hblock, hseek.2]
  | _ => cases hn

theorem seekAll_eq_none {nodes : List Node} (h : ∀ n ∈ nodes, scope.seek enclosing n = none) :
    scope.seekAll enclosing nodes = none := by
  induction nodes with
  | nil => rfl
  | cons n nodes ih =>
    rw [List.forall_mem_cons] at h
    rw [seekAll, h.1, ih h.2, Option.or_none]

/-- Nothing below a call is at the top level. -/
theorem seek_topLevel_some (c : Call Node) (n : Node) : topLevel.seek (some c) n = none := by
  induction n using Node.induct generalizing c with
  | call head c' ihitems ihbody =>
    have hbody : c'.closure.bind (topLevel.seek (some c')) = none := by
      cases hclosure : c'.closure with
      | none => rfl
      | some body => exact ihbody body hclosure c'
    have hitems : topLevel.seekAll (some c') c'.argumentNodes = none :=
      seekAll_eq_none fun a ha => ihitems a ha c'
    simp [seek_call, contains, hitems, hbody]
  | closure head statements tail ih => exact seekAll_eq_none fun s hs => ih s hs c
  | named head name colonLead value ih => exact ih c
  | assignment head target operatorLead value ihtarget ihvalue =>
    rw [seek, ihtarget c, ihvalue c, Option.or_none]
  | literal head value source => rfl
  | identifier head name => rfl
  | raw head text => rfl

theorem seek_topLevel_call (h : Head) (c : Call Node) :
    topLevel.seek none (.call h c) = if c.isBlock then some (h, c) else none := by
  have hitems : topLevel.seekAll (some c) c.argumentNodes = none :=
    seekAll_eq_none fun a _ => seek_topLevel_some c a
  have hbody : c.closure.bind (topLevel.seek (some c)) = none := by
    cases c.closure with
    | none => rfl
    | some body => exact seek_topLevel_some c body
  rw [seek_call, hitems, hbody]
  simp [contains]

end Scope

namespace Insertion

variable {i : Insertion} {f : SourceFile} {dependency : Dependency}

theorem finds_eq (i : Insertion) (f : SourceFile) :
    i.finds f = (i.scope.seekAll none f.statements).isSome := by
  have houtcome := i.outcome_intoFile f
  rw [finds]
  generalize i.intoFile f = outcome at houtcome
  generalize i.scope.seekAll none f.statements = found at houtcome
  cases houtcome with
  | missing => rfl
  | kept is => rfl
  | changed is related => rfl

/-- In a file that was read, a block has a closure. -/
theorem closure_of_seekAll {scope : Scope} {h : Head} {block : Call Node} (hread : f.IsRead)
    (hseek : scope.seekAll none f.statements = some (h, block)) :
    ∃ ch statements tail, block.closure = some (.closure ch statements tail) := by
  obtain ⟨hplaced, hblock⟩ : Node.isPlaced (.call h block) = true ∧ block.isBlock = true :=
    Scope.of_seekAll (P := fun h block =>
      Node.isPlaced (.call h block) = true ∧ block.isBlock = true)
      (fun n hn h block hfound => Scope.every_of_seek (hread.placed n hn).1 hfound) hseek
  rw [Call.isBlock, Bool.and_eq_true, Option.isSome_iff_exists] at hblock
  obtain ⟨-, body, hbody⟩ := hblock
  simp only [Node.isPlaced, hbody, Option.all_some] at hplaced
  cases body with
  | closure ch statements tail => exact ⟨ch, statements, tail, hbody⟩
  | _ => cases hplaced

/-- A well-formed statement is inserted into the first block in scope, unless it is there. -/
theorem takes_result (hread : f.IsRead)
    (hwrites : Recipe.Writes i.configuration dependency i.statement)
    (hcoordinate : dependency.toCoordinate = i.coordinate) (hblank : i.isBlankIndented f = true)
    (hfinds : i.finds f = true) :
    i.Takes f (i.result f) := by
  have houtcome := i.outcome_intoFile f
  rw [finds_eq, Option.isSome_iff_exists] at hfinds
  obtain ⟨⟨h, block⟩, hseek⟩ := hfinds
  obtain ⟨ch, statements, tail, hclosure⟩ := closure_of_seekAll hread hseek
  have hstatements : block.statements = statements := by
    simp [Call.statements, hclosure, Node.closureStatements]
  simp only [isBlankIndented, hseek, Option.all_some, hstatements] at hblank
  obtain ⟨d', hsnippet', hd⟩ := hwrites.statement hblank
  obtain ⟨written, hphrases, -⟩ := hwrites
  obtain ⟨d, grown, happend, hgrows, hsnippet⟩ := append?_of_blank hclosure hblank hphrases
  rw [hsnippet, List.cons.injEq] at hsnippet'
  obtain ⟨rfl, -⟩ := hsnippet'
  rw [hseek] at houtcome
  rw [result]
  generalize i.intoFile f = outcome at houtcome
  cases houtcome with
  | kept is =>
    obtain hdeclared | hnone := intoBlock?_eq_none_iff.mp is
    · exact .kept hseek (isDeclared_iff.mp hdeclared)
    · rw [happend] at hnone
      cases hnone
  | changed is related =>
    obtain ⟨before, a, after, m, hsplit, hbefore, hreplaces, rfl⟩ := related
    obtain rfl := Option.some.inj (happend.symm.trans (intoBlock?_eq_some_iff.mp is).2)
    exact .grown hsplit hbefore hreplaces hgrows hd hcoordinate

theorem Listed.mono {configuration : String} {declarations others : List Declaration}
    (h : i.Listed configuration declarations) (hsub : ∀ x ∈ declarations, x ∈ others) :
    i.Listed configuration others := by
  obtain ⟨x, hx, his⟩ := h
  exact ⟨x, hsub x hx, his⟩

/-- The dependency is listed in the end if it is seen, or was listed before. -/
theorem listed_of_gains {configuration : String} {x : Declaration} {old new : List Declaration}
    {seen : Bool} (h : Declaration.Gains x old new seen)
    (hconfiguration : x.configuration = configuration)
    (hcoordinate : x.dependency.toCoordinate = i.coordinate) :
    i.Listed configuration new ↔ seen = true ∨ i.Listed configuration old := by
  cases h with
  | seen keeps gained =>
    exact ⟨fun _ => Or.inl rfl, fun _ => ⟨x, gained, hconfiguration, hcoordinate⟩⟩
  | unseen same =>
    rw [same]
    exact ⟨Or.inr, fun h => h.resolve_left Bool.false_ne_true⟩

end Insertion

namespace SourceFile

variable {f : SourceFile}

def assignsFirstBlock (f : SourceFile) : Bool :=
  (Scope.topLevel.holder? none f.statements).any Node.isAssignment

theorem topLevelDeclarations_eq (f : SourceFile) :
    f.topLevelDeclarations = f.statements.flatMap Node.blockDeclarations :=
  Node.flatMap_dependencyBlocks f.statements

/-- At the top level a block is a statement or assigned. -/
theorem IsRead.isBlock_of_holder? (hread : f.IsRead) {a : Node}
    (hholder : Scope.topLevel.holder? none f.statements = some a) :
    a.isBlock = !f.assignsFirstBlock := by
  obtain ⟨-, hnamed, hclosure⟩ := hread.placed a (List.mem_of_find?_eq_some hholder)
  have hseek := List.find?_some hholder
  rw [assignsFirstBlock, hholder, Option.any_some]
  cases a with
  | call head c =>
    rw [Scope.seek_topLevel_call] at hseek
    cases hblock : c.isBlock with
    | true => exact hblock
    | false => simp [hblock] at hseek
  | closure head statements tail => cases hclosure
  | named head name colonLead value => cases hnamed
  | assignment head target operatorLead value => rfl
  | literal head value source => cases hseek
  | identifier head name => cases hseek
  | raw head text => cases hseek

end SourceFile

/-- What is inserted at the top level is read there, unless the first block is assigned. Then only a
block that was read before can have the declaration. -/
theorem topLevel_insertion_is_read {i : Insertion} {f : SourceFile} {dependency : Dependency}
    (hread : f.IsRead) (hscope : i.scope = .topLevel)
    (hwrites : Recipe.Writes i.configuration dependency i.statement)
    (hcoordinate : dependency.toCoordinate = i.coordinate) (hblank : i.isBlankIndented f = true)
    (hfinds : i.finds f = true) :
    i.Listed i.configuration (i.result f).topLevelDeclarations ↔
      f.assignsFirstBlock = false ∨ i.Listed i.configuration f.topLevelDeclarations := by
  have htakes := Insertion.takes_result hread hwrites hcoordinate hblank hfinds
  generalize i.result f = result at htakes
  simp only [SourceFile.topLevelDeclarations_eq]
  cases htakes with
  | @kept h block found listed =>
    refine ⟨Or.inr, ?_⟩
    rintro (hassigned | hlisted)
    · rw [hscope, Scope.seekAll_eq_bind, Option.bind_eq_some_iff] at found
      obtain ⟨a, hholder, hseek⟩ := found
      have hblock : a.isBlock = true := by
        rw [hread.isBlock_of_holder? hholder, hassigned]
        rfl
      have hmem := List.mem_of_find?_eq_some hholder
      refine listed.mono fun x hx => List.mem_flatMap.mpr ⟨a, hmem, ?_⟩
      rwa [Scope.blockDeclarations_of_seek hblock rfl hseek]
    · exact hlisted
  | @grown before after a m new d h block lead dependency is earlier inside grows declares
    coordinate =>
    rw [hscope] at earlier inside
    have hholder : Scope.topLevel.holder? none f.statements = some a := by
      rw [is]
      exact inside.holder? earlier
    have hseen : (a.isBlock && Scope.topLevel.contains none) = !f.assignsFirstBlock := by
      rw [hread.isBlock_of_holder? hholder]
      exact Bool.and_true _
    have hgains := (inside.gains grows declares).between (before.flatMap Node.blockDeclarations)
      (after.flatMap Node.blockDeclarations)
    rw [hseen] at hgains
    simp only [SourceFile.withStatements, is, List.flatMap_append, List.flatMap_cons]
    rw [Insertion.listed_of_gains hgains rfl coordinate, Bool.not_eq_true']

def sampleInsertion (scope : Scope) : Insertion :=
  ⟨scope, ⟨"g", "a"⟩, "implementation", Recipe.statement .groovy '"' "implementation" "g:a:1.0"⟩

theorem writes_sampleInsertion (scope : Scope) :
    Recipe.Writes (sampleInsertion scope).configuration ⟨⟨"g", "a"⟩,
      some "1.0"⟩ (sampleInsertion scope).statement :=
  ⟨"g:a:1.0", @Recipe.Phrases.mk "implementation" _ .groovy '"' rfl (Or.inl rfl) rfl, rfl⟩

theorem topLevel_insertion_is_read_in_block :
    let f := Recipe.buildFile "id 'x'\ndependencies \x7b \x7d\n"
    let i := sampleInsertion .topLevel
    f.IsRead ∧ i.isBlankIndented f = true ∧ i.finds f = true ∧ f.topLevelDeclarations = [] ∧
      i.Listed "implementation" (i.result f).topLevelDeclarations := by
  intro f i
  have hread : f.IsRead := Recipe.isRead_buildFile _
  have hblank : i.isBlankIndented f = true := by decide +kernel
  have hfinds : i.finds f = true := by decide +kernel
  have hplace : f.assignsFirstBlock = false := by decide +kernel
  refine ⟨hread, hblank, hfinds, by decide +kernel, ?_⟩
  exact (topLevel_insertion_is_read hread rfl (writes_sampleInsertion _) rfl hblank hfinds).mpr
    (Or.inl hplace)

/-- A block that is assigned takes a declaration, which is not read at the top level. -/
theorem topLevel_insertion_is_not_read_when_assigned :
    let f := Recipe.buildFile "x = dependencies \x7b \x7d\n"
    let i := sampleInsertion .topLevel
    f.IsRead ∧ i.isBlankIndented f = true ∧ i.finds f = true ∧
      (i.result f).print = "x = dependencies \x7b\n    implementation \"g:a:1.0\"\n\x7d\n" ∧
      (i.result f).topLevelDeclarations = [] :=
  ⟨Recipe.isRead_buildFile _, by decide +kernel, by decide +kernel, by decide +kernel,
    by decide +kernel⟩

end BuildScript
