import BuildScript.Proofs.Reading

/-!
# How far the rules go

How the rules get through a row of lexemes, whatever these are. They pass a bracket only as part of
a pair, which is of parentheses around more of the same or of braces around statements. The one
exception are statements that are kept verbatim, inside closures and at the top level. No statement
is without lexemes, and no rule succeeds without any.
-/

namespace BuildScript

def LexemeKind.isBracket : LexemeKind → Bool
  | braceOpen | braceClose | parenOpen | parenClose | bracketOpen | bracketClose => true
  | _ => false

namespace Node

/-- The rules read a row up to `left`. Inside a closure they also keep statements verbatim. -/
inductive Takes : Bool → List Lexeme → List Lexeme → Prop
  | nothing {inClosure : Bool} {ls : List Lexeme} : Takes inClosure ls ls
  | plain {inClosure : Bool} {l : Lexeme} {ls left : List Lexeme} (kind : l.kind.isBracket = false)
      (more : Takes inClosure ls left) : Takes inClosure (l :: ls) left
  | parens {inClosure : Bool} {opening close : Lexeme} {ls ms left : List Lexeme}
      (is : opening.kind = .parenOpen) (inside : Takes false ls (close :: ms))
      (is' : close.kind = .parenClose) (more : Takes inClosure ms left) :
      Takes inClosure (opening :: ls) left
  | braces {inClosure : Bool} {opening close : Lexeme} {ls ms left : List Lexeme}
      (is : opening.kind = .braceOpen) (inside : Takes true ls (close :: ms))
      (is' : close.kind = .braceClose) (more : Takes inClosure ms left) :
      Takes inClosure (opening :: ls) left
  | verbatim {l : Lexeme} {rest left : List Lexeme} (kind : l.kind ≠ .braceClose)
      (more : Takes true (verbatim true l rest).2 left) : Takes true (l :: rest) left

theorem verbatim_suffix (inClosure : Bool) (l : Lexeme) (rest : List Lexeme) :
    (verbatim inClosure l rest).2 <:+ rest := by
  unfold verbatim
  split
  · exact List.suffix_refl rest
  · exact ⟨_, (verbatimRest_reads inClosure _ rest).symm⟩

section Takes

variable {inClosure : Bool} {kind : LexemeKind} {l : Lexeme} {ls ms left ts : List Lexeme}

theorem Takes.suffix (h : Takes inClosure ls left) : left <:+ ls := by
  induction h with
  | nothing => exact List.suffix_refl _
  | plain kind more ih => exact ih.trans (List.suffix_cons _ _)
  | parens is inside is' more ihInside ih | braces is inside is' more ihInside ih =>
    have hinside := (List.suffix_cons _ _).trans ihInside
    exact (ih.trans hinside).trans (List.suffix_cons _ _)
  | verbatim kind more ih =>
    exact (ih.trans (verbatim_suffix true _ _)).trans (List.suffix_cons _ _)

theorem Takes.trans (h : Takes inClosure ls ms) (h' : Takes inClosure ms left) :
    Takes inClosure ls left := by
  induction h with
  | nothing => exact h'
  | plain kind more ih => exact .plain kind (ih h')
  | parens is inside is' more ihInside ih => exact .parens is inside is' (ih h')
  | braces is inside is' more ihInside ih => exact .braces is inside is' (ih h')
  | verbatim kind more ih => exact .verbatim kind (ih h')

theorem Takes.in_closure (h : Takes inClosure ls left) : Takes true ls left := by
  induction h with
  | nothing => exact .nothing
  | plain kind more ih => exact .plain kind ih
  | parens is inside is' more ihInside ih => exact .parens is inside is' ih
  | braces is inside is' more ihInside ih => exact .braces is inside is' ih
  | verbatim kind more ih => exact .verbatim kind ih

theorem takes_of_plain (h : ∀ l ∈ ts, l.kind.isBracket = false) (left : List Lexeme) :
    Takes inClosure (ts ++ left) left := by
  induction ts with
  | nil => exact .nothing
  | cons t ts ih =>
    rw [List.forall_mem_cons] at h
    exact .plain h.1 (ih h.2)

structure Advances (ls left : List Lexeme) : Prop where
  takes : Takes false ls left
  length_lt : left.length < ls.length

/-- Behind its first lexeme a row is read up to a lexeme of the given kind, and `left` is behind
that. -/
def Encloses (inClosure : Bool) (kind : LexemeKind) (ls left : List Lexeme) : Prop :=
  ∃ opening ms close, ls = opening :: ms ∧ close.kind = kind ∧ Takes inClosure ms (close :: left)

/-- A lexeme that is no bracket is taken along. -/
theorem Takes.behind (h : Takes false ls left) (is : l.kind = kind)
    (hkind : kind.isBracket = false) :
    Advances (l :: ls) left :=
  ⟨.plain (is ▸ hkind) h, Nat.lt_succ_of_le h.suffix.length_le⟩

theorem Advances.suffix (h : Advances (l :: ls) left) : left <:+ ls := by
  obtain hsame | hsuffix := List.suffix_cons_iff.mp h.takes.suffix
  · exact absurd h.length_lt (by simp [hsame])
  · exact hsuffix

theorem Advances.trans (h : Advances ls ms) (h' : Takes false ms left) : Advances ls left :=
  ⟨h.takes.trans h', Nat.lt_of_le_of_lt h'.suffix.length_le h.length_lt⟩

theorem Encloses.suffix (h : Encloses inClosure kind (l :: ls) left) : left <:+ ls := by
  obtain ⟨_, _, close, hrow, -, htakes⟩ := h
  rw [(List.cons.inj hrow).2]
  exact (List.suffix_cons close left).trans htakes.suffix

theorem Encloses.length_lt (h : Encloses inClosure kind ls left) : left.length < ls.length := by
  obtain ⟨opening, ms, close, rfl, -, htakes⟩ := h
  have hle := htakes.suffix.length_le
  simp only [List.length_cons] at hle ⊢
  omega

theorem Encloses.parens (h : Encloses false .parenClose ls left)
    (hopening : ∀ l ∈ ls.head?, l.kind = .parenOpen) :
    Advances ls left := by
  refine ⟨?_, h.length_lt⟩
  obtain ⟨opening, ms, close, rfl, hclose, htakes⟩ := h
  exact .parens (hopening opening rfl) htakes hclose .nothing

theorem Encloses.braces (h : Encloses true .braceClose ls left)
    (hopening : ∀ l ∈ ls.head?, l.kind = .braceOpen) :
    Advances ls left := by
  refine ⟨?_, h.length_lt⟩
  obtain ⟨opening, ms, close, rfl, hclose, htakes⟩ := h
  exact .braces (hopening opening rfl) htakes hclose .nothing

theorem head_of_continuesWith (h : continuesWith kind ls = true) :
    ∀ l ∈ ls.head?, l.kind = kind := by
  cases ls with
  | nil => simp
  | cons m ls =>
    simp only [continuesWith, Bool.and_eq_true, decide_eq_true_eq] at h
    simpa using h.1

end Takes

section Words

variable {l : Lexeme} {ls left : List Lexeme}

theorem dottedName_takes (name : String) (ls : List Lexeme) :
    Takes false ls (dottedName name ls).2 := by
  fun_induction dottedName name ls with
  | case1 name dot segment rest hcond ih =>
    simp only [Bool.and_eq_true, decide_eq_true_eq] at hcond
    exact ((ih.behind hcond.1.2 rfl).takes.behind hcond.1.1.1 rfl).takes
  | case2 => exact .nothing
  | case3 => exact .nothing

theorem classReference_takes (name : String) (ls : List Lexeme) :
    Takes false ls (classReference name ls).2 := by
  fun_cases classReference name ls with
  | case1 first second member rest hcond =>
    simp only [Bool.and_eq_true, decide_eq_true_eq] at hcond
    have hmember := (@Takes.nothing false rest).behind hcond.1.2 rfl
    exact ((hmember.takes.behind hcond.1.1.1.2 rfl).takes.behind hcond.1.1.1.1.1 rfl).takes
  | case2 => exact .nothing
  | case3 => exact .nothing

theorem typeArguments_takes {text : String} (h : typeArguments ls = some (text, left)) :
    Takes false ls left := by
  obtain ⟨⟨ts, rfl, htypes⟩, -⟩ := typeArguments_reads h
  refine takes_of_plain ?_ left
  cases htypes with
  | mk mark near inside mark' =>
    rw [List.cons_append, List.forall_mem_cons, List.forall_mem_append, List.forall_mem_singleton]
    refine ⟨by simp [mark.1, LexemeKind.isBracket], ?_, by simp [mark'.1, LexemeKind.isBracket]⟩
    intro l hl
    obtain hkind | hkind | hkind := inside l hl <;> simp [hkind, LexemeKind.isBracket]

theorem isBracket_of_constant? {node : Node} (h : constant? l = some node) :
    l.kind.isBracket = false := by
  unfold constant? at h
  split at h <;> simp_all [LexemeKind.isBracket]

end Words

structure Taking (fuel : Nat) : Prop where
  statementOrVerbatim_suffix : ∀ inClosure l rest,
    (Node.statementOrVerbatim fuel inClosure l rest).2 <:+ rest
  statementOrVerbatim : ∀ l rest, l.kind ≠ .braceClose →
    Takes true (l :: rest) (Node.statementOrVerbatim fuel true l rest).2
  statements : ∀ ls, Takes true ls (Node.statements fuel true ls).2
  statement : ∀ l rest node left, Node.statement fuel l rest = some (node, left) →
    Advances (l :: rest) left
  delegated : ∀ keyword rest node left, Node.delegated fuel keyword rest = some (node, left) →
    Takes false rest left
  callOrIdentifier : ∀ head name command ls node left,
    Node.callOrIdentifier fuel head name command ls = some (node, left) → Takes false ls left
  callRest : ∀ ls parts left, Node.callRest fuel ls = some (parts, left) → Takes false ls left
  parenthesized : ∀ ls arguments left, Node.parenthesized fuel ls = some (arguments, left) →
    Encloses false .parenClose ls left
  parenthesizedItems : ∀ ls items left, Node.parenthesizedItems fuel ls = some (items, left) →
    ∃ close, close.kind = .parenClose ∧ Takes false ls (close :: left)
  commandItems : ∀ ls items left, Node.commandItems fuel ls = some (items, left) → Advances ls left
  argument : ∀ ls node left, Node.argument fuel ls = some (node, left) → Advances ls left
  expression : ∀ ls node left, Node.expression fuel ls = some (node, left) → Advances ls left
  closureBody : ∀ ls node left, Node.closureBody fuel ls = some (node, left) →
    Encloses true .braceClose ls left

theorem taking_zero : Taking 0 where
  statementOrVerbatim_suffix := verbatim_suffix
  statementOrVerbatim _ _ hl := .verbatim hl .nothing
  statements _ := .nothing
  statement := by simp
  delegated := by simp
  callOrIdentifier := by simp
  callRest := by simp
  parenthesized := by simp
  parenthesizedItems := by simp
  commandItems := by simp
  argument := by simp
  expression := by simp
  closureBody := by simp

namespace Taking

variable {fuel : Nat} (ht : Taking fuel)

include ht

theorem statementOrVerbatim_suffix_succ (inClosure : Bool) (l : Lexeme) (rest : List Lexeme) :
    (Node.statementOrVerbatim (fuel + 1) inClosure l rest).2 <:+ rest := by
  obtain hverbatim | ⟨n, hn, hstatement, -⟩ := statementOrVerbatim_cases (fuel + 1) inClosure l rest
  · rw [hverbatim]
    exact verbatim_suffix inClosure l rest
  · obtain rfl := Nat.succ.inj hn
    exact (ht.statement l rest _ _ hstatement).suffix

theorem statementOrVerbatim_succ (l : Lexeme) (rest : List Lexeme) (hl : l.kind ≠ .braceClose) :
    Takes true (l :: rest) (Node.statementOrVerbatim (fuel + 1) true l rest).2 := by
  obtain hverbatim | ⟨n, hn, hstatement, -⟩ := statementOrVerbatim_cases (fuel + 1) true l rest
  · rw [hverbatim]
    exact .verbatim hl .nothing
  · obtain rfl := Nat.succ.inj hn
    exact (ht.statement l rest _ _ hstatement).takes.in_closure

theorem statements_succ (ls : List Lexeme) :
    Takes true ls (Node.statements (fuel + 1) true ls).2 := by
  cases ls with
  | nil => exact .nothing
  | cons l rest =>
    simp only [statements_cons]
    split
    · exact .nothing
    · rename_i hclose
      have hfirst := ht.statementOrVerbatim l rest (by simpa using hclose)
      exact hfirst.trans (ht.statements _)

theorem statement_succ (l : Lexeme) (rest : List Lexeme) (node : Node) (left : List Lexeme)
    (h : Node.statement (fuel + 1) l rest = some (node, left)) : Advances (l :: rest) left := by
  have hname := dottedName_takes l.text rest
  cases readsStatement h with
  | constant is => exact (@Takes.nothing false rest).behind rfl (isBracket_of_constant? is)
  | delegated word is => exact (ht.delegated l rest node left is).behind word.1 rfl
  | assignment word next equals is =>
    rw [next] at hname
    have hvalue := (ht.expression _ _ _ is).takes.behind equals rfl
    exact (hname.trans hvalue.takes).behind word.1 rfl
  | introduced word is =>
    exact (hname.trans (ht.callOrIdentifier _ _ _ _ node left is)).behind word.1 rfl

theorem delegated_succ (keyword : Lexeme) (rest : List Lexeme) (node : Node) (left : List Lexeme)
    (h : Node.delegated (fuel + 1) keyword rest = some (node, left)) : Takes false rest left := by
  cases readsDelegated h with
  | @mk property by' callee behind _ _ _ words is =>
    have hcall := (dottedName_takes callee.text behind).trans (ht.callOrIdentifier _ _ _ _ _ _ is)
    have hby := (hcall.behind words.word' rfl).takes.behind words.mark.1 rfl
    exact (hby.takes.behind words.word rfl).takes

theorem callOrIdentifier_succ (head : Head) (name : String) (command : Bool) (ls : List Lexeme)
    (node : Node) (left : List Lexeme)
    (h : Node.callOrIdentifier (fuel + 1) head name command ls = some (node, left)) :
    Takes false ls left := by
  cases readsCall h with
  | typed types is => exact (typeArguments_takes types).trans (ht.callRest _ _ _ is)
  | untyped next is => exact ht.callRest ls _ _ is
  | command starts is => exact (ht.commandItems ls _ _ is).takes
  | nothing => exact .nothing

theorem callRest_succ (ls : List Lexeme) (parts : Option (Arguments Node) × Option Node)
    (left : List Lexeme) (h : Node.callRest (fuel + 1) ls = some (parts, left)) :
    Takes false ls left := by
  cases readsRest h with
  | arguments paren is =>
    exact ((ht.parenthesized ls _ _ is).parens (head_of_continuesWith paren)).takes
  | body brace is => exact ((ht.closureBody ls _ _ is).braces (head_of_continuesWith brace)).takes
  | both paren is brace is' =>
    have hfirst := (ht.parenthesized ls _ _ is).parens (head_of_continuesWith paren)
    exact hfirst.takes.trans ((ht.closureBody _ _ _ is').braces (head_of_continuesWith brace)).takes
  | nothing paren brace => exact .nothing

theorem parenthesized_succ (ls : List Lexeme) (arguments : Arguments Node) (left : List Lexeme)
    (h : Node.parenthesized (fuel + 1) ls = some (arguments, left)) :
    Encloses false .parenClose ls left := by
  cases readsParenthesized h with
  | empty mark => exact ⟨_, _, _, rfl, mark, .nothing⟩
  | items is =>
    obtain ⟨close, hclose, htakes⟩ := ht.parenthesizedItems _ _ _ is
    exact ⟨_, _, close, rfl, hclose, htakes⟩

theorem parenthesizedItems_succ (ls : List Lexeme) (items : List (Argument Node))
    (left : List Lexeme) (h : Node.parenthesizedItems (fuel + 1) ls = some (items, left)) :
    ∃ close, close.kind = .parenClose ∧ Takes false ls (close :: left) := by
  cases readsItems h with
  | last is mark => exact ⟨_, mark, (ht.argument ls _ _ is).takes⟩
  | more is mark more =>
    obtain ⟨close, hclose, hmore⟩ := ht.parenthesizedItems _ _ _ more
    exact ⟨close, hclose, (ht.argument ls _ _ is).takes.trans (hmore.behind mark rfl).takes⟩

theorem commandItems_succ (ls : List Lexeme) (items : List (Argument Node)) (left : List Lexeme)
    (h : Node.commandItems (fuel + 1) ls = some (items, left)) : Advances ls left := by
  cases readsCommand h with
  | last is => exact ht.argument ls _ _ is
  | more is mark more =>
    have hmore := (ht.commandItems _ _ _ more).takes.behind mark rfl
    exact (ht.argument ls _ _ is).trans hmore.takes

theorem argument_succ (ls : List Lexeme) (node : Node) (left : List Lexeme)
    (h : Node.argument (fuel + 1) ls = some (node, left)) : Advances ls left := by
  cases readsArgument h with
  | named word mark is =>
    have hvalue := (ht.expression _ _ _ is).takes.behind mark rfl
    exact hvalue.takes.behind word rfl
  | unnamed is => exact ht.expression ls node left is

theorem expression_succ (ls : List Lexeme) (node : Node) (left : List Lexeme)
    (h : Node.expression (fuel + 1) ls = some (node, left)) : Advances ls left := by
  cases readsExpression h with
  | constant is => exact (@Takes.nothing false left).behind rfl (isBracket_of_constant? is)
  | @introduced l rest _ _ word constant is =>
    have hname := dottedName_takes l.text rest
    have hreference := classReference_takes (dottedName l.text rest).1 (dottedName l.text rest).2
    have htail := ht.callOrIdentifier _ _ _ _ node left is
    exact ((hname.trans hreference).trans htail).behind word rfl
  | block brace is => exact (ht.closureBody _ node left is).braces (by simpa using brace)

theorem closureBody_succ (ls : List Lexeme) (node : Node) (left : List Lexeme)
    (h : Node.closureBody (fuel + 1) ls = some (node, left)) :
    Encloses true .braceClose ls left := by
  cases readsClosure h with
  | @mk _ _ rest _ _ is mark =>
    have htakes := ht.statements rest
    rw [is] at htakes
    exact ⟨_, rest, _, rfl, mark, htakes⟩

end Taking

/-- What is known of the lexemes that the rules take holds at every depth. -/
theorem taking (fuel : Nat) : Taking fuel := by
  induction fuel with
  | zero => exact taking_zero
  | succ fuel ht =>
    exact
      { statementOrVerbatim_suffix := ht.statementOrVerbatim_suffix_succ
        statementOrVerbatim := ht.statementOrVerbatim_succ
        statements := ht.statements_succ
        statement := ht.statement_succ
        delegated := ht.delegated_succ
        callOrIdentifier := ht.callOrIdentifier_succ
        callRest := ht.callRest_succ
        parenthesized := ht.parenthesized_succ
        parenthesizedItems := ht.parenthesizedItems_succ
        commandItems := ht.commandItems_succ
        argument := ht.argument_succ
        expression := ht.expression_succ
        closureBody := ht.closureBody_succ }

end Node

end BuildScript
