import BuildScript.Proofs.Growth
import BuildScript.Proofs.Rereading
import BuildScript.Script.Suites

/-!
# Tidy scripts

The indentation of an inserted statement is taken from the text in front of a block or of its
statements. A script is tidy if only blanks stand there behind the last line break. An insertion
leaves a tidy script tidy.
-/

namespace BuildScript

def isIndented (lead : String) : Bool := ((lineIndent? lead).getD "").toList.all Lexeme.isSpace

namespace Node

def isNamed : Node → Bool
  | named _ _ _ _ => true
  | _ => false

def isIdentifier : Node → Bool
  | identifier _ _ => true
  | _ => false

def isAtom : Node → Bool
  | literal _ _ _ => true
  | identifier _ _ => true
  | _ => false

def isBlock (n : Node) : Bool := n.call?.any Call.isBlock

/-- The statements of a closure are indented, and so, if `values` asks for it, is a block that is
the value of an assignment. -/
def isTidy (values : Bool) : Node → Bool
  | closure _ statements _ => statements.all fun s => isIndented s.lead
  | assignment _ _ _ value => !values || !value.isBlock || isIndented value.lead
  | _ => true

/-- What the grammar says about the places of nodes: the closure of a call is one, a named argument
is no statement and not assigned, and only identifiers are assigned to. -/
def isPlaced : Node → Bool
  | call _ c => c.closure.all isClosure
  | closure _ statements _ => statements.all fun s => !s.isNamed
  | assignment _ target _ value => target.isIdentifier && !value.isNamed
  | _ => true

theorem isNamed_outline (n : Node) :
    n.outline.isNamed = n.isNamed := by cases n <;> simp [outline, face, isNamed]

theorem isIdentifier_outline (n : Node) : n.outline.isIdentifier = n.isIdentifier := by
  cases n <;> simp [outline, face, isIdentifier]

theorem isBlock_outline (n : Node) : n.outline.isBlock = n.isBlock := by
  cases n with
  | call h c =>
    have hname : (c.map face).simpleName = c.simpleName := rfl
    have hclosure : (c.map face).closure.isSome = c.closure.isSome := by simp [Call.map]
    simp only [outline, isBlock, call?, Option.any_some]
    rw [Call.isBlock, Call.isBlock, hname, hclosure]
  | _ => rfl

variable {n : Node} {ts : List Lexeme}

theorem Spelled.block_isClosure (h : Spelled (.block n) ts) : n.isClosure = true := by
  cases h with
  | block mark lead inside mark' => rfl

theorem Spelled.expression_isNamed (h : Spelled (.expression n) ts) : n.isNamed = false := by
  cases h with
  | closure block =>
    cases block with
    | block mark lead inside mark' => rfl
  | _ => rfl

theorem Spelled.statement_isNamed_isClosure (h : Spelled (.statement n) ts) :
    n.isNamed = false ∧ n.isClosure = false := by
  cases h <;> exact ⟨rfl, rfl⟩

theorem Spelled.statements_isNamed_isClosure {nodes : List Node}
    (h : Spelled (.statements nodes) ts) :
    ∀ s ∈ nodes, s.isNamed = false ∧ s.isClosure = false := by
  generalize hphrase : Phrase.statements nodes = phrase at h
  induction h generalizing nodes with
  | nil =>
    cases hphrase
    simp
  | cons first ends more ih ih' =>
    cases hphrase
    rw [List.forall_mem_cons]
    exact ⟨first.statement_isNamed_isClosure, ih' rfl⟩
  | _ => cases hphrase

theorem Spelled.rest_isClosure {arguments : Option (Arguments Node)} {body : Option Node}
    (h : Spelled (.rest arguments body) ts) : body.all isClosure = true := by
  cases h with
  | arguments is line => rfl
  | body is line => exact is.block_isClosure
  | both is line is' line' => exact is'.block_isClosure

theorem Spelled.tail_isClosure {types : Option String} {arguments : Option (Arguments Node)}
    {body : Option Node} (h : Spelled (.tail types arguments body) ts) :
    body.all isClosure = true := by
  cases h with
  | untyped is => exact is.rest_isClosure
  | typed types is => exact is.rest_isClosure

/-- In what the grammar allows, all nodes are in their places. -/
theorem Spelled.isPlaced {phrase : Phrase} (h : Spelled phrase ts) :
    phrase.Every Node.isPlaced := by
  induction h with
  | constant is lead => rfl
  | identifier word lead reference => rfl
  | call word lead reference tail ih => exact every_call_iff.mpr ⟨tail.tail_isClosure, ih⟩
  | closure block ih => exact ih
  | block mark lead inside mark' ih =>
    refine every_closure.mpr ⟨?_, ih⟩
    simpa [Node.isPlaced] using fun s hs => (inside.statements_isNamed_isClosure s hs).1
  | named word lead mark is ih => exact every_named.mpr ⟨rfl, ih⟩
  | unnamed is ih => exact ih
  | last is mark ih => exact List.forall_mem_singleton.mpr ih
  | item is mark more ih ih' => exact List.forall_mem_cons.mpr ⟨ih, ih'⟩
  | lastCommand is ih => exact List.forall_mem_singleton.mpr ih
  | command is mark more ih ih' => exact List.forall_mem_cons.mpr ⟨ih, ih'⟩
  | empty mark mark' => simp [Phrase.Every]
  | items mark inside ih => exact ih
  | arguments is line ih => simpa [Phrase.Every] using ih
  | body is line ih => simpa [Phrase.Every] using ih
  | both is line is' line' ih ih' =>
    simp only [Phrase.Every] at ih ih'
    simpa [Phrase.Every] using ⟨ih, ih'⟩
  | untyped is ih => exact ih
  | typed types is ih => exact ih
  | constantStatement is lead => rfl
  | identifierStatement word lead segments => rfl
  | callStatement word lead segments tail ih => exact every_call_iff.mpr ⟨tail.tail_isClosure, ih⟩
  | commandStatement word lead segments starts inside ih =>
    refine every_call_iff.mpr ⟨rfl, ?_⟩
    simpa [Phrase.Every] using ih
  | delegated word is lead word' line mark line' word'' line'' segments tail ih =>
    exact every_call_iff.mpr ⟨tail.tail_isClosure, ih⟩
  | assignment word lead lead' segments mark is ih =>
    refine every_assignment.mpr ⟨?_, rfl, ih⟩
    simp [Node.isPlaced, isIdentifier, is.expression_isNamed]
  | raw lead => rfl
  | nil => simp [Phrase.Every]
  | cons first ends more ih ih' => exact List.forall_mem_cons.mpr ⟨ih, ih'⟩

end Node

namespace Call

/-- The arguments of a call that registers a suite are literals and identifiers. -/
theorem argument_of_suiteName? {c : Call Node} {suite : String} (h : c.suiteName? = some suite)
    {a : Node} (ha : a ∈ c.argumentNodes) : a.isAtom = true := by
  have htype : ∀ kind, isSuiteType kind = true → kind.isAtom = true := by
    intro kind h
    cases kind with
    | identifier head name => rfl
    | _ => cases h
  have hstring : ∀ name suite, Node.string? name = some suite → name.isAtom = true := by
    intro name suite h
    cases name with
    | literal head value source => rfl
    | _ => cases h
  unfold suiteName? at h
  generalize c.argumentNodes = nodes at h ha
  split at h
  · simp only [List.mem_singleton] at ha
    subst ha
    split_ifs at h with hcond
    simp only [Bool.and_eq_true] at hcond
    exact htype _ hcond.2
  · cases h
  · simp only [List.mem_singleton] at ha
    subst ha
    split_ifs at h with hcond
    exact hstring _ _ h
  · cases h
  · simp only [List.mem_singleton] at ha
    subst ha
    split_ifs at h with hcond
    exact htype _ hcond
  · split_ifs at h with hcond
    simp only [Bool.and_eq_true] at hcond
    simp only [List.mem_cons, List.not_mem_nil, or_false] at ha
    obtain rfl | rfl := ha
    · exact hstring _ _ h
    · exact htype _ hcond.2
  · cases h

end Call

namespace Scope

variable {scope : Scope} {enclosing : Option (Call Node)} {h : Head} {block : Call Node}
    {d new n m : Node}

/-- The node is no named argument, and indented if it is a block, wherever that matters. -/
def Led (scope : Scope) (enclosing : Option (Call Node)) (n : Node) : Prop :=
  scope.contains enclosing = true →
    n.isNamed = false ∧ (n.isBlock = true → isIndented n.lead = true)

inductive Indented : Head → Call Node → Prop
  | mk {h ch : Head} {c : Call Node} {statements : List Node} {tail : String}
      (lead : isIndented h.lead = true) (is : c.closure = some (.closure ch statements tail))
      (inside : ∀ s ∈ statements, isIndented s.lead = true) : Indented h c

theorem of_seekAll {P : Head → Call Node → Prop} {nodes : List Node}
    (hnodes : ∀ n ∈ nodes, ∀ h block, scope.seek enclosing n = some (h, block) → P h block)
    {h : Head} {block : Call Node} (hseek : scope.seekAll enclosing nodes = some (h, block)) :
    P h block := by
  induction nodes with
  | nil => cases hseek
  | cons n nodes ih =>
    rw [List.forall_mem_cons] at hnodes
    rw [seekAll, Option.or_eq_some_iff] at hseek
    obtain hseek | ⟨-, hseek⟩ := hseek
    · exact hnodes.1 h block hseek
    · exact ih hnodes.2 hseek

/-- A search finds blocks, and a condition on all nodes of the tree holds of them. -/
theorem every_of_seek {p : Node → Bool} (hn : n.every p = true)
    (hseek : scope.seek enclosing n = some (h, block)) :
    p (.call h block) = true ∧ block.isBlock = true := by
  induction n using Node.induct generalizing enclosing h block with
  | call head c ihitems ihbody =>
    obtain ⟨hself, hitems, hbody⟩ := Node.every_call.mp hn
    rw [seek_call] at hseek
    split_ifs at hseek with htakes
    · simp only [Option.some.injEq, Prod.mk.injEq] at hseek
      obtain ⟨rfl, rfl⟩ := hseek
      rw [Bool.and_eq_true] at htakes
      exact ⟨hself, htakes.1⟩
    · rw [Option.or_eq_some_iff] at hseek
      obtain hseek | ⟨-, hseek⟩ := hseek
      · exact of_seekAll (P := fun h block => p (.call h block) = true ∧ block.isBlock = true)
          (fun a ha h block hfound => ihitems a ha (hitems a ha) hfound) hseek
      · obtain ⟨body, his, hseek⟩ := Option.bind_eq_some_iff.mp hseek
        exact ihbody body his (hbody body his) hseek
  | closure head statements tail ih =>
    have hstatements := (Node.every_closure.mp hn).2
    exact of_seekAll (P := fun h block => p (.call h block) = true ∧ block.isBlock = true)
      (fun s hs h block hfound => ih s hs (hstatements s hs) hfound) hseek
  | named head name colonLead value ih => exact ih (Node.every_named.mp hn).2 hseek
  | assignment head target operatorLead value ihtarget ihvalue =>
    obtain ⟨-, htarget, hvalue⟩ := Node.every_assignment.mp hn
    rw [seek, Option.or_eq_some_iff] at hseek
    obtain hseek | ⟨-, hseek⟩ := hseek
    · exact ihtarget htarget hseek
    · exact ihvalue hvalue hseek
  | literal head value source => cases hseek
  | identifier head name => cases hseek
  | raw head text => cases hseek

/-- In a tidy tree every block that a search can find is indented, and so are its statements. -/
theorem indented_of_seek (htidy : n.every (Node.isTidy true) = true)
    (hplaced : n.every Node.isPlaced = true) (hled : scope.Led enclosing n)
    (hseek : scope.seek enclosing n = some (h, block)) : Indented h block := by
  induction n using Node.induct generalizing enclosing h block with
  | call head c ihitems ihbody =>
    obtain ⟨-, htidyItems, htidyBody⟩ := Node.every_call.mp htidy
    obtain ⟨hclosure, hplacedItems, hplacedBody⟩ := Node.every_call.mp hplaced
    rw [seek_call] at hseek
    split_ifs at hseek with htakes
    · rw [Bool.and_eq_true] at htakes
      simp only [Option.some.injEq, Prod.mk.injEq] at hseek
      obtain ⟨rfl, rfl⟩ := hseek
      have hlead := (hled htakes.2).2 htakes.1
      have hisSome : c.closure.isSome = true := by
        have := htakes.1
        rw [Call.isBlock, Bool.and_eq_true] at this
        exact this.2
      obtain ⟨body, hbody⟩ := Option.isSome_iff_exists.mp hisSome
      simp only [Node.isPlaced, hbody, Option.all_some] at hclosure
      cases body with
      | closure ch statements tail =>
        refine .mk hlead hbody ?_
        simpa [Node.isTidy] using Node.self_of_every (htidyBody _ hbody)
      | _ => cases hclosure
    · rw [Option.or_eq_some_iff] at hseek
      obtain hseek | ⟨-, hseek⟩ := hseek
      · refine of_seekAll (fun a ha h block hfound => ?_) hseek
        refine ihitems a ha (htidyItems a ha) (hplacedItems a ha) ?_ hfound
        -- A block among the arguments is in scope only if the call registers a suite.
        intro hcontains
        cases scope with
        | topLevel => cases hcontains
        | suite name =>
          have hatom := Call.argument_of_suiteName? (of_decide_eq_true hcontains) ha
          cases a with
          | literal head value source => exact ⟨rfl, fun hblock => by cases hblock⟩
          | identifier head name => exact ⟨rfl, fun hblock => by cases hblock⟩
          | _ => cases hatom
      · rw [Option.bind_eq_some_iff] at hseek
        obtain ⟨body, hbody, hseek⟩ := hseek
        simp only [Node.isPlaced, hbody, Option.all_some] at hclosure
        refine ihbody body hbody (htidyBody body hbody) (hplacedBody body hbody) (fun _ => ?_) hseek
        cases body with
        | closure ch statements tail => exact ⟨rfl, fun hblock => by cases hblock⟩
        | _ => cases hclosure
  | closure head statements tail ih =>
    obtain ⟨hindented, htidy⟩ := Node.every_closure.mp htidy
    obtain ⟨hnamed, hplaced⟩ := Node.every_closure.mp hplaced
    simp only [Node.isTidy, List.all_eq_true] at hindented
    simp only [Node.isPlaced, List.all_eq_true, Bool.not_eq_true'] at hnamed
    refine of_seekAll (fun s hs h block hfound => ?_) hseek
    exact ih s hs (htidy s hs) (hplaced s hs)
      (fun _ => ⟨hnamed s hs, fun _ => hindented s hs⟩) hfound
  | named head name colonLead value ih =>
    refine ih (Node.every_named.mp htidy).2 (Node.every_named.mp hplaced).2
      (fun hcontains => ?_) hseek
    exact absurd (hled hcontains).1 (by simp [Node.isNamed])
  | assignment head target operatorLead value ihtarget ihvalue =>
    obtain ⟨hvalue, -, htidy⟩ := Node.every_assignment.mp htidy
    obtain ⟨hplace, -, hplaced⟩ := Node.every_assignment.mp hplaced
    simp only [Node.isPlaced, Bool.and_eq_true, Bool.not_eq_true'] at hplace
    have htarget : scope.seek enclosing target = none := by
      cases target with
      | identifier head name => rfl
      | _ => cases hplace.1
    rw [seek, htarget, Option.none_or] at hseek
    refine ihvalue htidy hplaced (fun _ => ⟨hplace.2, fun hblock => ?_⟩) hseek
    simpa [Node.isTidy, hblock] using hvalue
  | literal head value source => cases hseek
  | identifier head name => cases hseek
  | raw head text => cases hseek

theorem Unchanged.isNamed (hsame : Unchanged n m) : m.isNamed = n.isNamed := by
  rw [← Node.isNamed_outline, hsame.outline, Node.isNamed_outline]

theorem Unchanged.isIdentifier (hsame : Unchanged n m) : m.isIdentifier = n.isIdentifier := by
  rw [← Node.isIdentifier_outline, hsame.outline, Node.isIdentifier_outline]

theorem Unchanged.isBlock (hsame : Unchanged n m) : m.isBlock = n.isBlock := by
  rw [← Node.isBlock_outline, hsame.outline, Node.isBlock_outline]

theorem Unchanged.refl (n : Node) : Unchanged n n := ⟨rfl, rfl, rfl, rfl⟩

inductive Touches : Node → Node → Prop
  | call {head : Head} {c c' : Call Node}
      (closure : c'.closure.map Node.isClosure = c.closure.map Node.isClosure) :
      Touches (.call head c) (.call head.revised c')
  | closure {head : Head} {before after : List Node} {a b : Node} {tail : String}
      (same : Unchanged a b) :
      Touches (.closure head (before ++ a :: after) tail)
        (.closure head.revised (before ++ b :: after) tail)
  | named {head : Head} {name colonLead : String} {a b : Node} :
      Touches (.named head name colonLead a) (.named head.revised name colonLead b)
  | assignment {head : Head} {operatorLead : String} {a b a' b' : Node} (target : Unchanged a a')
      (value : Unchanged b b') :
      Touches (.assignment head a operatorLead b) (.assignment head.revised a' operatorLead b')

theorem Touches.isTidy {values : Bool} (htouches : Touches n m) (htidy : n.isTidy values = true) :
    m.isTidy values = true := by
  cases htouches with
  | call closure => rfl
  | closure same => simpa [Node.isTidy, same.lead] using htidy
  | named => rfl
  | assignment target value => simpa [Node.isTidy, value.lead, value.isBlock] using htidy

theorem Touches.isPlaced (htouches : Touches n m) (hplaced : n.isPlaced = true) :
    m.isPlaced = true := by
  cases htouches with
  | @call head c c' closure =>
    have hall : ∀ o : Option Node, o.all Node.isClosure = (o.map Node.isClosure).all fun b =>
        b := by
      intro o
      cases o <;> rfl
    simp only [Node.isPlaced] at hplaced ⊢
    rwa [hall, closure, ← hall]
  | closure same => simpa [Node.isPlaced, same.isNamed] using hplaced
  | named => rfl
  | assignment target value =>
    simpa [Node.isPlaced, target.isIdentifier, value.isNamed] using hplaced

/-- A condition on nodes that an insertion below them cannot break holds throughout afterwards if it
does so before and in the new block. -/
theorem Replaces.every {p : Node → Bool} (hreplaces : scope.Replaces h block new enclosing n m)
    (hgrows : Grows d h block new) (hp : ∀ a b, Touches a b → p a = true → p b = true)
    (hd : d.every p = true) (hclosure : ∀ ch statements tail tail',
      p (.closure ch statements tail) = true →
        p (.closure ch.revised (statements ++ [d]) tail') = true)
    (hn : n.every p = true) : m.every p = true := by
  induction hreplaces with
  | here is inside =>
    cases hgrows with
    | @mk ch _ statements tail is' =>
      obtain ⟨hself, hitems, hbody⟩ := Node.every_call.mp hn
      obtain ⟨hbody, hstatements⟩ := Node.every_closure.mp (hbody _ is')
      refine Node.every_call.mpr ⟨hp _ _ (.call (by simp [is', Node.isClosure])) hself, hitems, ?_⟩
      rintro b ⟨⟩
      refine Node.every_closure.mpr ⟨hclosure ch statements tail _ hbody, ?_⟩
      rw [List.forall_mem_append, List.forall_mem_singleton]
      exact ⟨hstatements, hd⟩
  | @argument _ head c parenthesized lead tail trail before after a b skipped is earlier
    inside ih =>
    obtain ⟨hself, hitems, hbody⟩ := Node.every_call.mp hn
    refine Node.every_call.mpr ⟨hp (.call head c) _ (.call rfl) hself, ?_, hbody⟩
    simp only [Call.argumentNodes, is, List.map_append, List.map_cons, List.forall_mem_append,
      List.forall_mem_cons] at hitems ⊢
    exact ⟨hitems.1, ih hitems.2.1, hitems.2.2⟩
  | @body _ head c a b skipped earlier is inside ih =>
    obtain ⟨hself, hitems, hbody⟩ := Node.every_call.mp hn
    have hsame := (inside.unchanged hgrows).closure
    refine Node.every_call.mpr ⟨hp _ _ (.call (by simp [is, hsame])) hself, hitems, ?_⟩
    rintro _ ⟨⟩
    exact ih (hbody a is)
  | statement earlier inside ih =>
    obtain ⟨hself, hstatements⟩ := Node.every_closure.mp hn
    refine Node.every_closure.mpr ⟨hp _ _ (.closure (inside.unchanged hgrows)) hself, ?_⟩
    simp only [List.forall_mem_append, List.forall_mem_cons] at hstatements ⊢
    exact ⟨hstatements.1, ih hstatements.2.1, hstatements.2.2⟩
  | named inside ih =>
    obtain ⟨hself, hvalue⟩ := Node.every_named.mp hn
    exact Node.every_named.mpr ⟨hp _ _ .named hself, ih hvalue⟩
  | target inside ih =>
    obtain ⟨hself, htarget, hvalue⟩ := Node.every_assignment.mp hn
    exact Node.every_assignment.mpr
      ⟨hp _ _ (.assignment (inside.unchanged hgrows) (.refl _)) hself, ih htarget, hvalue⟩
  | value earlier inside ih =>
    obtain ⟨hself, htarget, hvalue⟩ := Node.every_assignment.mp hn
    exact Node.every_assignment.mpr
      ⟨hp _ _ (.assignment (.refl _) (inside.unchanged hgrows)) hself, htarget, ih hvalue⟩

end Scope

end BuildScript
