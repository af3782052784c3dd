import BuildScript.Proofs.Grammar

/-!
# How the rules of the parser succeed

A rule that succeeds has gone one of a few ways, which the answers of the rules one level down tell
apart. What holds of all rules at every depth is proved along these ways.
-/

namespace BuildScript.Node

section Depth

variable (fuel : Nat) (inClosure : Bool) (l : Lexeme) (ls : List Lexeme)

/-!
A step at a question unfolds. The answers of the step's own questions are those of the rules one
level down, under their own names.
-/

attribute [simp] Query.step

@[simp] theorem answer_statementOrVerbatim :
    Query.answer fuel (.statementOrVerbatim inClosure l ls) =
      statementOrVerbatim fuel inClosure l ls := rfl

@[simp] theorem answer_statements :
    Query.answer fuel (.statements inClosure ls) = statements fuel inClosure ls := rfl

@[simp] theorem answer_statement :
    Query.answer fuel (.statement l ls) = statement fuel l ls := rfl

@[simp] theorem answer_delegated :
    Query.answer fuel (.delegated l ls) = delegated fuel l ls := rfl

@[simp] theorem answer_callOrIdentifier (head : Head) (name : String) (command : Bool) :
    Query.answer fuel (.callOrIdentifier head name command ls) =
      callOrIdentifier fuel head name command ls := rfl

@[simp] theorem answer_callRest : Query.answer fuel (.callRest ls) = callRest fuel ls := rfl

@[simp] theorem answer_parenthesized :
    Query.answer fuel (.parenthesized ls) = parenthesized fuel ls := rfl

@[simp] theorem answer_parenthesizedItems :
    Query.answer fuel (.parenthesizedItems ls) = parenthesizedItems fuel ls := rfl

@[simp] theorem answer_commandItems :
    Query.answer fuel (.commandItems ls) = commandItems fuel ls := rfl

@[simp] theorem answer_argument : Query.answer fuel (.argument ls) = argument fuel ls := rfl

@[simp] theorem answer_expression :
    Query.answer fuel (.expression ls) = expression fuel ls := rfl

@[simp] theorem answer_closureBody :
    Query.answer fuel (.closureBody ls) = closureBody fuel ls := rfl

@[simp] theorem statements_zero : statements 0 inClosure ls = ([], ls) := rfl

@[simp] theorem statement_zero : statement 0 l ls = none := rfl

@[simp] theorem delegated_zero : delegated 0 l ls = none := rfl

@[simp] theorem callOrIdentifier_zero (head : Head) (name : String) (command : Bool) :
    callOrIdentifier 0 head name command ls = none := rfl

@[simp] theorem callRest_zero : callRest 0 ls = none := rfl

@[simp] theorem parenthesized_zero : parenthesized 0 ls = none := rfl

@[simp] theorem parenthesizedItems_zero : parenthesizedItems 0 ls = none := rfl

@[simp] theorem commandItems_zero : commandItems 0 ls = none := rfl

@[simp] theorem argument_zero : argument 0 ls = none := rfl

@[simp] theorem expression_zero : expression 0 ls = none := rfl

@[simp] theorem closureBody_zero : closureBody 0 ls = none := rfl

theorem statementOrVerbatim_succ : statementOrVerbatim (fuel + 1) inClosure l ls =
    Query.step (Query.answer fuel) (.statementOrVerbatim inClosure l ls) := rfl

theorem statements_succ : statements (fuel + 1) inClosure ls =
    Query.step (Query.answer fuel) (.statements inClosure ls) := rfl

theorem statement_succ :
    statement (fuel + 1) l ls = Query.step (Query.answer fuel) (.statement l ls) := rfl

theorem delegated_succ :
    delegated (fuel + 1) l ls = Query.step (Query.answer fuel) (.delegated l ls) := rfl

theorem callOrIdentifier_succ (head : Head) (name : String) (command : Bool) :
    callOrIdentifier (fuel + 1) head name command ls =
      Query.step (Query.answer fuel) (.callOrIdentifier head name command ls) := rfl

theorem callRest_succ :
    callRest (fuel + 1) ls = Query.step (Query.answer fuel) (.callRest ls) := rfl

theorem parenthesized_succ :
    parenthesized (fuel + 1) ls = Query.step (Query.answer fuel) (.parenthesized ls) := rfl

theorem parenthesizedItems_succ : parenthesizedItems (fuel + 1) ls =
    Query.step (Query.answer fuel) (.parenthesizedItems ls) := rfl

theorem commandItems_succ :
    commandItems (fuel + 1) ls = Query.step (Query.answer fuel) (.commandItems ls) := rfl

theorem argument_succ :
    argument (fuel + 1) ls = Query.step (Query.answer fuel) (.argument ls) := rfl

theorem expression_succ :
    expression (fuel + 1) ls = Query.step (Query.answer fuel) (.expression ls) := rfl

theorem closureBody_succ :
    closureBody (fuel + 1) ls = Query.step (Query.answer fuel) (.closureBody ls) := rfl

@[simp] theorem statements_nil : statements fuel inClosure [] = ([], []) := by
  cases fuel with
  | zero => rfl
  | succ fuel => rfl

theorem statements_cons : statements (fuel + 1) inClosure (l :: ls) =
    if inClosure && l.kind = .braceClose then ([], l :: ls)
    else
      let (node, left) := statementOrVerbatim fuel inClosure l ls
      let (nodes, left) := statements fuel inClosure left
      (node :: nodes, left) := rfl

end Depth

/-- How a statement is read with rules of the given depth. -/
inductive ReadsStatement (fuel : Nat) (l : Lexeme) (rest : List Lexeme) : Node → List Lexeme → Prop
  | constant {node : Node} (is : constant? l = some node) : ReadsStatement fuel l rest node rest
  | delegated {node : Node} {left : List Lexeme} (word : IsName l)
      (is : delegated fuel l rest = some (node, left)) : ReadsStatement fuel l rest node left
  | assignment {operator : Lexeme} {behind left : List Lexeme} {value : Node} (word : IsName l)
      (next : (dottedName l.text rest).2 = operator :: behind) (equals : operator.kind = .equals)
      (is : expression fuel behind = some (value, left)) :
      ReadsStatement fuel l rest (assignment (Head.new (operator.start + 1) l.lead)
        (identifier (Head.new (l.start + 1) "") (dottedName l.text rest).1) operator.lead value)
          left
  | introduced {node : Node} {left : List Lexeme} (word : IsName l)
      (is : callOrIdentifier fuel (headOf l) (dottedName l.text rest).1 true
        (dottedName l.text rest).2 =
        some (node, left)) : ReadsStatement fuel l rest node left

/-- The words in front of the name that a property delegates to. -/
structure Delegation (keyword property by' callee : Lexeme) : Prop where
  is : keyword.text = "val" ∨ keyword.text = "var"
  word : property.kind = .word
  line : property.startsLine = false
  mark : by'.Marks .word "by"
  line' : by'.startsLine = false
  word' : callee.kind = .word
  line'' : callee.startsLine = false

inductive ReadsDelegated (fuel : Nat) (keyword : Lexeme) : List Lexeme → Node → List Lexeme → Prop
  | mk {property by' callee : Lexeme} {rest left : List Lexeme} {h : Head} {c : Call Node}
      (words : Delegation keyword property by' callee)
      (is : callOrIdentifier fuel (headOf callee) (dottedName callee.text rest).1 false
        (dottedName callee.text rest).2 = some (call h c, left)) :
      ReadsDelegated fuel keyword (property :: by' :: callee :: rest)
        (call (headOf keyword) { c with
          delegate :=
            some ⟨keyword.text, property.lead, property.text, by'.lead, callee.lead⟩ }) left

/-- How the part behind a name is read. -/
inductive ReadsCall (fuel : Nat) (head : Head) (name : String) :
    Bool → List Lexeme → Node → List Lexeme → Prop
  | typed {command : Bool} {ls behind left : List Lexeme} {text : String}
      {arguments : Option (Arguments Node)} {body : Option Node}
      (types : typeArguments ls = some (text, behind))
      (is : callRest fuel behind = some ((arguments, body), left)) :
      ReadsCall fuel head name command ls (call head ⟨name, some text, arguments, body, none⟩) left
  | untyped {command : Bool} {ls left : List Lexeme} {arguments : Option (Arguments Node)}
      {body : Option Node}
      (next : continuesWith .parenOpen ls = true ∨ continuesWith .braceOpen ls = true)
      (is : callRest fuel ls = some ((arguments, body), left)) :
      ReadsCall fuel head name command ls (call head ⟨name, none, arguments, body, none⟩) left
  | command {ls left : List Lexeme} {items : List (Argument Node)}
      (starts : startsCommand ls = true) (is : commandItems fuel ls = some (items, left)) :
      ReadsCall fuel head name true ls
        (call head ⟨name, none, some ⟨false, "", items, ""⟩, none, none⟩) left
  | nothing {command : Bool} {ls : List Lexeme} :
      ReadsCall fuel head name command ls (identifier head name) ls

/-- How arguments and a closure are read. -/
inductive ReadsRest (fuel : Nat) (ls : List Lexeme) :
    Option (Arguments Node) × Option Node → List Lexeme → Prop
  | arguments {arguments : Arguments Node} {left : List Lexeme}
      (paren : continuesWith .parenOpen ls = true)
      (is : parenthesized fuel ls = some (arguments, left)) :
      ReadsRest fuel ls (some arguments, none) left
  | body {node : Node} {left : List Lexeme} (brace : continuesWith .braceOpen ls = true)
      (is : closureBody fuel ls = some (node, left)) : ReadsRest fuel ls (none, some node) left
  | both {arguments : Arguments Node} {node : Node} {behind left : List Lexeme}
      (paren : continuesWith .parenOpen ls = true)
      (is : parenthesized fuel ls = some (arguments, behind))
      (brace : continuesWith .braceOpen behind = true)
      (is' : closureBody fuel behind = some (node, left)) :
      ReadsRest fuel ls (some arguments, some node) left
  | nothing (paren : continuesWith .parenOpen ls = false)
      (brace : continuesWith .braceOpen ls = false) :
      ReadsRest fuel ls (none, none) ls

inductive ReadsParenthesized (fuel : Nat) : List Lexeme → Arguments Node → List Lexeme → Prop
  | empty {opening close : Lexeme} {left : List Lexeme} (mark : close.kind = .parenClose) :
      ReadsParenthesized fuel (opening :: close :: left) ⟨true, opening.lead, [], close.lead⟩ left
  | items {opening : Lexeme} {ls left : List Lexeme} {items : List (Argument Node)}
      (is : parenthesizedItems fuel ls = some (items, left)) :
      ReadsParenthesized fuel (opening :: ls) ⟨true, opening.lead, items, ""⟩ left

inductive ReadsItems (fuel : Nat) (ls : List Lexeme) : List (Argument Node) → List Lexeme → Prop
  | last {node : Node} {close : Lexeme} {left : List Lexeme}
      (is : argument fuel ls = some (node, close :: left)) (mark : close.kind = .parenClose) :
      ReadsItems fuel ls [⟨node, close.lead⟩] left
  | more {node : Node} {comma : Lexeme} {behind left : List Lexeme} {items : List (Argument Node)}
      (is : argument fuel ls = some (node, comma :: behind)) (mark : comma.kind = .comma)
      (more : parenthesizedItems fuel behind = some (items, left)) :
      ReadsItems fuel ls (⟨node, comma.lead⟩ :: items) left

inductive ReadsCommand (fuel : Nat) (ls : List Lexeme) : List (Argument Node) → List Lexeme → Prop
  | last {node : Node} {left : List Lexeme} (is : argument fuel ls = some (node, left)) :
      ReadsCommand fuel ls [⟨node, ""⟩] left
  | more {node : Node} {comma : Lexeme} {behind left : List Lexeme} {items : List (Argument Node)}
      (is : argument fuel ls = some (node, comma :: behind)) (mark : comma.kind = .comma)
      (more : commandItems fuel behind = some (items, left)) :
      ReadsCommand fuel ls (⟨node, comma.lead⟩ :: items) left

inductive ReadsArgument (fuel : Nat) : List Lexeme → Node → List Lexeme → Prop
  | named {l colon : Lexeme} {rest left : List Lexeme} {value : Node} (word : l.kind = .word)
      (mark : colon.kind = .colon) (is : expression fuel rest = some (value, left)) :
      ReadsArgument fuel (l :: colon :: rest) (named (headOf l) l.text colon.lead value) left
  | unnamed {ls left : List Lexeme} {node : Node} (is : expression fuel ls = some (node, left)) :
      ReadsArgument fuel ls node left

inductive ReadsExpression (fuel : Nat) : List Lexeme → Node → List Lexeme → Prop
  | constant {l : Lexeme} {rest : List Lexeme} {node : Node} (is : constant? l = some node) :
      ReadsExpression fuel (l :: rest) node rest
  | introduced {l : Lexeme} {rest left : List Lexeme} {node : Node} (word : l.kind = .word)
      (constant : constant? l = none)
      (is : callOrIdentifier fuel (headOf l)
        (classReference (dottedName l.text rest).1 (dottedName l.text rest).2).1 false
        (classReference (dottedName l.text rest).1 (dottedName l.text rest).2).2 =
          some (node, left)) :
      ReadsExpression fuel (l :: rest) node left
  | block {l : Lexeme} {rest left : List Lexeme} {node : Node} (brace : l.kind = .braceOpen)
      (is : closureBody fuel (l :: rest) = some (node, left)) :
      ReadsExpression fuel (l :: rest) node left

inductive ReadsClosure (fuel : Nat) : List Lexeme → Node → List Lexeme → Prop
  | mk {opening close : Lexeme} {rest left : List Lexeme} {nodes : List Node}
      (is : statements fuel true rest = (nodes, close :: left)) (mark : close.kind = .braceClose) :
      ReadsClosure fuel (opening :: rest) (closure (headOf opening) nodes close.lead) left

section Cases

variable {fuel : Nat} {l keyword : Lexeme} {ls rest left : List Lexeme} {node : Node}

/-- A statement is read as one, and ends where it may, or is kept verbatim. -/
theorem statementOrVerbatim_cases (fuel : Nat) (inClosure : Bool) (l : Lexeme)
    (rest : List Lexeme) :
    statementOrVerbatim fuel inClosure l rest = verbatim inClosure l rest ∨
      ∃ n, fuel = n + 1 ∧ statement n l rest = some (statementOrVerbatim fuel inClosure l rest) ∧
        terminated (statementOrVerbatim fuel inClosure l rest).2 = true := by
  cases fuel with
  | zero => exact Or.inl rfl
  | succ fuel =>
    simp only [statementOrVerbatim_succ, Query.step, answer_statement]
    split
    · rename_i node left h
      split
      · rename_i hend
        exact Or.inr ⟨fuel, rfl, h, hend⟩
      · exact Or.inl rfl
    · exact Or.inl rfl

theorem readsStatement (h : statement (fuel + 1) l rest = some (node, left)) :
    ReadsStatement fuel l rest node left := by
  simp only [statement_succ, Query.step, answer_delegated, answer_expression,
    answer_callOrIdentifier] at h
  split_ifs at h with hword
  · simp only [Bool.and_eq_true, Bool.not_eq_true', decide_eq_true_eq] at hword
    split at h
    · rename_i reading hdelegated
      exact .delegated hword (hdelegated.trans h)
    · split at h
      · rename_i operator behind hnext
        split_ifs at h with hequals
        · simp only [Option.bind_eq_bind, Option.bind_eq_some_iff, Prod.exists, Option.some.injEq,
            Prod.mk.injEq] at h
          obtain ⟨value, left', hvalue, rfl, rfl⟩ := h
          exact .assignment hword hnext hequals hvalue
        · exact .introduced hword h
      · exact .introduced hword h
  · obtain ⟨constant, hconstant, hsame⟩ := Option.map_eq_some_iff.mp h
    obtain ⟨rfl, rfl⟩ := Prod.mk.inj hsame
    exact .constant hconstant

theorem readsDelegated (h : delegated (fuel + 1) keyword rest = some (node, left)) :
    ReadsDelegated fuel keyword rest node left := by
  rcases rest with _ | ⟨property, _ | ⟨by', _ | ⟨callee, rest⟩⟩⟩
  · cases h
  · cases h
  · cases h
  · simp only [delegated_succ, Query.step, answer_callOrIdentifier] at h
    split_ifs at h with hwords
    simp only [Bool.and_eq_true, Bool.or_eq_true, Bool.not_eq_true', decide_eq_true_eq] at hwords
    obtain ⟨⟨⟨⟨⟨⟨⟨hkeyword, hproperty⟩, hline⟩, hby⟩, htext⟩, hline'⟩, hcallee⟩, hline''⟩ := hwords
    split at h
    · rename_i head c left' hcall
      obtain ⟨rfl, rfl⟩ := Prod.mk.inj (Option.some.inj h)
      exact .mk ⟨hkeyword, hproperty, hline, ⟨hby, htext⟩, hline', hcallee, hline''⟩ hcall
    · cases h

theorem readsCall {head : Head} {name : String} {command : Bool}
    (h : callOrIdentifier (fuel + 1) head name command ls = some (node, left)) :
    ReadsCall fuel head name command ls node left := by
  simp only [callOrIdentifier_succ, Query.step, answer_callRest, answer_commandItems] at h
  split at h
  · rename_i text behind htypes
    simp only [Option.bind_eq_bind, Option.bind_eq_some_iff, Prod.exists, Option.some.injEq,
      Prod.mk.injEq] at h
    obtain ⟨arguments, body, left', hrest, rfl, rfl⟩ := h
    exact .typed htypes hrest
  · split_ifs at h with hnext hcommand
    · simp only [Option.bind_eq_bind, Option.bind_eq_some_iff, Prod.exists, Option.some.injEq,
        Prod.mk.injEq] at h
      obtain ⟨arguments, body, left', hrest, rfl, rfl⟩ := h
      exact .untyped (by simpa using hnext) hrest
    · simp only [Option.bind_eq_bind, Option.bind_eq_some_iff, Prod.exists, Option.some.injEq,
        Prod.mk.injEq] at h
      obtain ⟨items, left', hitems, rfl, rfl⟩ := h
      obtain ⟨rfl, hstarts⟩ := Bool.and_eq_true_iff.mp hcommand
      exact .command hstarts hitems
    · obtain ⟨rfl, rfl⟩ := Prod.mk.inj (Option.some.inj h)
      exact .nothing

theorem readsRest {parts : Option (Arguments Node) × Option Node}
    (h : callRest (fuel + 1) ls = some (parts, left)) :
    ReadsRest fuel ls parts left := by
  simp only [callRest_succ, Query.step, answer_parenthesized, answer_closureBody,
    Option.bind_eq_bind] at h
  split at h
  · rename_i hparen
    simp only [Option.bind_some, Option.bind_eq_some_iff, Prod.exists] at h
    obtain ⟨arguments, behind, harguments, h⟩ := h
    split_ifs at h with hbrace
    · simp only [Option.bind_eq_some_iff, Prod.exists] at h
      obtain ⟨body, left', hbody, hsame⟩ := h
      obtain ⟨rfl, rfl⟩ := Prod.mk.inj (Option.some.inj hsame)
      exact .both hparen harguments hbrace hbody
    · obtain ⟨rfl, rfl⟩ := Prod.mk.inj (Option.some.inj h)
      exact .arguments hparen harguments
  · rename_i hparen
    simp only [Option.bind_some] at h
    split_ifs at h with hbrace
    · simp only [Option.bind_eq_some_iff, Prod.exists] at h
      obtain ⟨body, left', hbody, hsame⟩ := h
      obtain ⟨rfl, rfl⟩ := Prod.mk.inj (Option.some.inj hsame)
      exact .body hbrace hbody
    · obtain ⟨rfl, rfl⟩ := Prod.mk.inj (Option.some.inj h)
      exact .nothing (Bool.eq_false_iff.mpr hparen) (Bool.eq_false_iff.mpr hbrace)

theorem readsParenthesized {arguments : Arguments Node}
    (h : parenthesized (fuel + 1) ls = some (arguments, left)) :
    ReadsParenthesized fuel ls arguments left := by
  rcases ls with _ | ⟨opening, _ | ⟨next, rest⟩⟩
  · cases h
  · cases h
  · simp only [parenthesized_succ, Query.step, answer_parenthesizedItems] at h
    split_ifs at h with hclose
    · obtain ⟨rfl, rfl⟩ := Prod.mk.inj (Option.some.inj h)
      exact .empty hclose
    · simp only [Option.bind_eq_bind, Option.bind_eq_some_iff, Prod.exists, Option.some.injEq,
        Prod.mk.injEq] at h
      obtain ⟨items, left', hitems, rfl, rfl⟩ := h
      exact .items hitems

theorem readsItems {items : List (Argument Node)}
    (h : parenthesizedItems (fuel + 1) ls = some (items, left)) :
    ReadsItems fuel ls items left := by
  simp only [parenthesizedItems_succ, Query.step, answer_argument,
    answer_parenthesizedItems, Option.bind_eq_bind, Option.bind_eq_some_iff, Prod.exists] at h
  obtain ⟨node, behind, hnode, h⟩ := h
  split at h
  · cases h
  · split_ifs at h with hcomma hclose
    · simp only [Option.bind_eq_some_iff, Prod.exists, Option.some.injEq, Prod.mk.injEq] at h
      obtain ⟨more, left', hmore, rfl, rfl⟩ := h
      exact .more hnode hcomma hmore
    · obtain ⟨rfl, rfl⟩ := Prod.mk.inj (Option.some.inj h)
      exact .last hnode hclose

theorem readsCommand {items : List (Argument Node)}
    (h : commandItems (fuel + 1) ls = some (items, left)) :
    ReadsCommand fuel ls items left := by
  simp only [commandItems_succ, Query.step, answer_argument, answer_commandItems,
    Option.bind_eq_bind, Option.bind_eq_some_iff, Prod.exists] at h
  obtain ⟨node, behind, hnode, h⟩ := h
  split at h
  · obtain ⟨rfl, rfl⟩ := Prod.mk.inj (Option.some.inj h)
    exact .last hnode
  · split_ifs at h with hcomma
    · simp only [Option.bind_eq_some_iff, Prod.exists, Option.some.injEq, Prod.mk.injEq] at h
      obtain ⟨more, left', hmore, rfl, rfl⟩ := h
      exact .more hnode hcomma hmore
    · obtain ⟨rfl, rfl⟩ := Prod.mk.inj (Option.some.inj h)
      exact .last hnode

theorem readsArgument (h : argument (fuel + 1) ls = some (node, left)) :
    ReadsArgument fuel ls node left := by
  rcases ls with _ | ⟨l, _ | ⟨colon, rest⟩⟩
  · exact .unnamed h
  · exact .unnamed h
  · simp only [argument_succ, Query.step, answer_expression] at h
    split_ifs at h with hnamed
    · simp only [Bool.and_eq_true, decide_eq_true_eq] at hnamed
      simp only [Option.bind_eq_bind, Option.bind_eq_some_iff, Prod.exists, Option.some.injEq,
        Prod.mk.injEq] at h
      obtain ⟨value, left', hvalue, rfl, rfl⟩ := h
      exact .named hnamed.1.1 hnamed.1.2 hvalue
    · exact .unnamed h

theorem readsExpression (h : expression (fuel + 1) ls = some (node, left)) :
    ReadsExpression fuel ls node left := by
  cases ls with
  | nil => cases h
  | cons l rest =>
    simp only [expression_succ, Query.step, answer_callOrIdentifier, answer_closureBody] at h
    split at h
    · rename_i hconstant
      obtain ⟨rfl, rfl⟩ := Prod.mk.inj (Option.some.inj h)
      exact .constant hconstant
    · rename_i hconstant
      split_ifs at h with hword hbrace
      · exact .introduced hword hconstant h
      · exact .block hbrace h

theorem readsClosure (h : closureBody (fuel + 1) ls = some (node, left)) :
    ReadsClosure fuel ls node left := by
  cases ls with
  | nil => cases h
  | cons opening rest =>
    simp only [closureBody_succ, Query.step, answer_statements] at h
    split at h
    · rename_i nodes close behind hread
      split_ifs at h with hclose
      obtain ⟨rfl, rfl⟩ := Prod.mk.inj (Option.some.inj h)
      exact .mk hread hclose
    · cases h

end Cases

end BuildScript.Node
