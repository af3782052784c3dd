import BuildScript.Proofs.Rules

/-!
# What the parser reads

Every rule of the parser hands back the lexemes behind what it read, and what it read is spelled by
the lexemes in front of these. This holds for every depth to which the rules may call each other.
-/

namespace BuildScript.Node

def AllFormed (ls : List Lexeme) : Prop := ∀ l ∈ ls, l.Formed

theorem AllFormed.head {l : Lexeme} {ls : List Lexeme} (h : AllFormed (l :: ls)) : l.Formed :=
  h l List.mem_cons_self

theorem AllFormed.rest {l : Lexeme} {ls : List Lexeme} (h : AllFormed (l :: ls)) : AllFormed ls :=
  fun m hm => h m (List.mem_cons_of_mem _ hm)

theorem AllFormed.right {ls ms : List Lexeme} (h : AllFormed (ls ++ ms)) : AllFormed ms :=
  fun m hm => h m (List.mem_append_right _ hm)

theorem dottedName_reads (name : String) (ls : List Lexeme) (hf : AllFormed ls) :
    ∃ ts, ls = ts ++ (dottedName name ls).2 ∧ Segments name ts (dottedName name ls).1 := by
  fun_induction dottedName name ls with
  | case1 name dot segment rest hcond ih =>
    simp only [Bool.and_eq_true, decide_eq_true_eq, Lexeme.adjoins_iff] at hcond
    obtain ⟨⟨⟨hdot, hnear⟩, hword⟩, hnear'⟩ := hcond
    obtain ⟨ts, hts, hsegments⟩ := ih hf.rest.rest
    refine ⟨dot :: segment :: ts, by simp [← hts], ?_⟩
    exact .cons (hf.head.marks hdot rfl) hnear hword hnear' hsegments
  | case2 name dot segment rest hcond => exact ⟨[], rfl, .nil name⟩
  | case3 name ls hshort => exact ⟨[], rfl, .nil name⟩

theorem classReference_reads {start name : String} {ts ls : List Lexeme} (hf : AllFormed ls)
    (h : Segments start ts name) :
    ∃ us, ls = us ++ (classReference name ls).2 ∧
      Reference start (ts ++ us) (classReference name ls).1 := by
  fun_cases classReference name ls with
  | case1 first second member rest hcond =>
    simp only [Bool.and_eq_true, decide_eq_true_eq, Lexeme.adjoins_iff] at hcond
    obtain ⟨⟨⟨⟨⟨hfirst, hnear⟩, hsecond⟩, hnear'⟩, hword⟩, hnear''⟩ := hcond
    refine ⟨[first, second, member], rfl, ?_⟩
    exact .member h (hf.head.marks hfirst rfl) hnear
      (hf.rest.head.marks hsecond rfl) hnear' hword hnear''
  | case2 first second member rest hcond => exact ⟨[], rfl, by simpa using .plain h⟩
  | case3 ls hshort => exact ⟨[], rfl, by simpa using .plain h⟩

theorem typeArgumentsRest_reads {ls left : List Lexeme} {text : String}
    (h : typeArgumentsRest ls = some (text, left)) :
    ∃ ts close, ls = ts ++ close :: left ∧ (∀ l ∈ ts, InTypes l) ∧ close.Marks .other ">" ∧
      text = Lexeme.writtenAll (ts ++ [close]) := by
  induction ls generalizing text with
  | nil => simp [typeArgumentsRest] at h
  | cons l ls ih =>
    simp only [typeArgumentsRest] at h
    split_ifs at h with hinside hclose
    · simp only [Option.bind_eq_bind, Option.bind_eq_some_iff, Prod.exists, Option.some.injEq,
        Prod.mk.injEq] at h
      obtain ⟨text', left', hrest, rfl, rfl⟩ := h
      obtain ⟨ts, close, rfl, hts, hclose, rfl⟩ := ih hrest
      refine ⟨l :: ts, close, rfl, ?_, hclose, by simp [Lexeme.written]⟩
      intro m hm
      obtain rfl | hm := List.mem_cons.mp hm
      · simpa [InTypes, or_assoc] using hinside
      · exact hts m hm
    · simp only [Bool.and_eq_true, decide_eq_true_eq] at hclose
      simp only [Option.some.injEq, Prod.mk.injEq] at h
      obtain ⟨rfl, rfl⟩ := h
      exact ⟨[], l, rfl, by simp, hclose, by simp [Lexeme.written]⟩

theorem typeArguments_reads {ls left : List Lexeme} {text : String}
    (h : typeArguments ls = some (text, left)) :
    (∃ ts, ls = ts ++ left ∧ Types text ts) ∧
      (continuesWith .parenOpen left = true ∨ continuesWith .braceOpen left = true) := by
  unfold typeArguments at h
  split at h
  · rename_i opening first rest
    split_ifs at h with hcond
    simp only [Bool.and_eq_true, Bool.or_eq_true, decide_eq_true_eq, Lexeme.adjoins_iff] at hcond
    obtain ⟨⟨⟨hkind, htext⟩, hnear⟩, hfirst⟩ := hcond
    simp only [Option.bind_eq_bind, Option.bind_eq_some_iff, Prod.exists] at h
    obtain ⟨text', left', hrest, h⟩ := h
    split_ifs at h with hnext
    simp only [Option.some.injEq, Prod.mk.injEq] at h
    obtain ⟨rfl, rfl⟩ := h
    obtain ⟨ts, close, rfl, hts, hclose, rfl⟩ := typeArgumentsRest_reads hrest
    refine ⟨⟨opening :: first :: ts ++ [close], by simp, ?_⟩, by simpa using hnext⟩
    have hinside : ∀ l ∈ first :: ts, InTypes l := by
      intro l hl
      obtain rfl | hl := List.mem_cons.mp hl
      · simpa [InTypes, or_assoc] using hfirst
      · exact hts l hl
    have htypes := Types.mk ⟨hkind, htext⟩ hnear hinside hclose
    simpa [htext, Lexeme.written, String.append_assoc] using htypes
  · cases h

theorem verbatimRest_reads (inClosure : Bool) (depth : Nat) (ls : List Lexeme) :
    ls = (verbatimRest inClosure depth ls).1 ++ (verbatimRest inClosure depth ls).2 := by
  induction ls generalizing depth with
  | nil => rfl
  | cons l ls ih =>
    simp only [verbatimRest]
    split_ifs
    · rfl
    · rfl
    · rw [List.cons_append, ← ih]

/-- A statement that is kept as it is takes the lexemes that it is made of. -/
theorem verbatim_reads (inClosure : Bool) (l : Lexeme) (rest : List Lexeme) :
    (verbatim inClosure l rest).1.isRaw = true ∧
      ∃ ts, l :: rest = ts ++ (verbatim inClosure l rest).2 ∧
        Spelled (.statement (verbatim inClosure l rest).1) ts := by
  unfold verbatim
  split
  · refine ⟨rfl, [l], rfl, ?_⟩
    have hraw := @Spelled.raw l (headOf l) [] rfl
    simpa using hraw
  · refine ⟨rfl, l :: (verbatimRest inClosure (l.kind.depthAfter 0) rest).1, ?_, .raw rfl⟩
    rw [List.cons_append, ← verbatimRest_reads]

theorem constant?_literal {l : Lexeme} {node : Node} (h : constant? l = some node) :
    ∃ value, node = .literal (headOf l) value l.text := by
  unfold constant? at h
  split at h
  · exact ⟨_, (Option.some.inj h).symm⟩
  · exact ⟨_, (Option.some.inj h).symm⟩
  · split_ifs at h
    · exact ⟨_, (Option.some.inj h).symm⟩
    · exact ⟨_, (Option.some.inj h).symm⟩
    · exact ⟨_, (Option.some.inj h).symm⟩
  · cases h

/-- A name is no constant. -/
theorem constant?_eq_none_of_isName {l : Lexeme} (h : IsName l) : constant? l = none := by
  obtain ⟨hkind, hword⟩ := h
  simp only [isKeywordLiteral, Bool.or_eq_false_iff, decide_eq_false_iff_not] at hword
  simp [constant?, hkind, hword]

theorem isName_of_constant?_eq_none {l : Lexeme} (hkind : l.kind = .word) (h : constant? l = none) :
    IsName l := by
  refine ⟨hkind, ?_⟩
  simp only [constant?, hkind] at h
  split_ifs at h with htrue hfalse hnull
  simp [isKeywordLiteral, htrue, hfalse, hnull]

theorem Spelled.ne_nil {phrase : Phrase} {ts : List Lexeme} (h : Spelled phrase ts)
    (hphrase : ∀ nodes, phrase ≠ .statements nodes) : ts ≠ [] := by
  induction h with
  | nil => exact absurd rfl (hphrase [])
  | cons => exact absurd rfl (hphrase _)
  | closure _ ih | unnamed _ ih | lastCommand _ ih | untyped _ ih => exact ih (by simp)
  | typed types _ ih =>
    have := ih (by simp)
    simp_all
  | _ => simp

/-- A rule that succeeds has read what some lexemes spell, and hands back the rest. -/
def Yields {α : Type} (phrase : α → Phrase) (ls : List Lexeme)
    (reading : Option (α × List Lexeme)) : Prop :=
  ∀ a left, reading = some (a, left) → ∃ ts, ls = ts ++ left ∧ Spelled (phrase a) ts

/-- What a name may introduce, and the lexemes behind the name that belong to it. -/
inductive Introduces (head : Head) (name : String) : Bool → Node → List Lexeme → Prop
  | nothing {command : Bool} : Introduces head name command (.identifier head name) []
  | call {command : Bool} {types : Option String} {arguments : Option (Arguments Node)}
      {closure : Option Node} {ts : List Lexeme}
      (tail : Spelled (.tail types arguments closure) ts) :
      Introduces head name command (.call head ⟨name, types, arguments, closure, none⟩) ts
  | command {items : List (Argument Node)} {ts : List Lexeme}
      (starts : startsCommand ts = true) (inside : Spelled (.command items) ts) :
      Introduces head name true
        (.call head ⟨name, none, some ⟨false, "", items, ""⟩, none, none⟩) ts

structure Sound (fuel : Nat) : Prop where
  statementOrVerbatim : ∀ inClosure l rest, AllFormed (l :: rest) →
    ((Node.statementOrVerbatim fuel inClosure l rest).1.isRaw = true ∨
      terminated (Node.statementOrVerbatim fuel inClosure l rest).2 = true) ∧
    ∃ ts, l :: rest = ts ++ (Node.statementOrVerbatim fuel inClosure l rest).2 ∧
      Spelled (.statement (Node.statementOrVerbatim fuel inClosure l rest).1) ts
  statements : ∀ inClosure ls, AllFormed ls →
    ∃ ts, ls = ts ++ (Node.statements fuel inClosure ls).2 ∧
      Spelled (.statements (Node.statements fuel inClosure ls).1) ts
  statement : ∀ l rest, AllFormed (l :: rest) →
    Yields .statement (l :: rest) (Node.statement fuel l rest)
  delegated : ∀ l rest, AllFormed (l :: rest) → l.kind = .word →
    Yields .statement (l :: rest) (Node.delegated fuel l rest)
  callOrIdentifier : ∀ head name command ls, AllFormed ls → ∀ node left,
    Node.callOrIdentifier fuel head name command ls = some (node, left) →
    ∃ ts, ls = ts ++ left ∧ Introduces head name command node ts
  callRest : ∀ ls, AllFormed ls →
    continuesWith .parenOpen ls = true ∨ continuesWith .braceOpen ls = true →
    Yields (fun a => .rest a.1 a.2) ls (Node.callRest fuel ls)
  parenthesized : ∀ ls, AllFormed ls → continuesWith .parenOpen ls = true →
    Yields .parenthesized ls (Node.parenthesized fuel ls)
  parenthesizedItems : ∀ ls, AllFormed ls → Yields .items ls (Node.parenthesizedItems fuel ls)
  commandItems : ∀ ls, AllFormed ls → Yields .command ls (Node.commandItems fuel ls)
  argument : ∀ ls, AllFormed ls → Yields .argument ls (Node.argument fuel ls)
  expression : ∀ ls, AllFormed ls → Yields .expression ls (Node.expression fuel ls)
  closureBody : ∀ opening rest, AllFormed (opening :: rest) → opening.kind = .braceOpen →
    Yields .block (opening :: rest) (Node.closureBody fuel (opening :: rest))

theorem sound_zero : Sound 0 where
  statementOrVerbatim inClosure l rest _ := by
    obtain ⟨hraw, h⟩ := verbatim_reads inClosure l rest
    exact ⟨Or.inl hraw, h⟩
  statements inClosure ls _ := ⟨[], rfl, .nil⟩
  statement := by simp [Yields]
  delegated := by simp [Yields]
  callOrIdentifier := by simp
  callRest := by simp [Yields]
  parenthesized := by simp [Yields]
  parenthesizedItems := by simp [Yields]
  commandItems := by simp [Yields]
  argument := by simp [Yields]
  expression := by simp [Yields]
  closureBody := by simp [Yields]

namespace Sound

variable {fuel : Nat} (hs : Sound fuel)

include hs

theorem statementOrVerbatim_succ (inClosure : Bool) (l : Lexeme) (rest : List Lexeme)
    (hf : AllFormed (l :: rest)) :
    ((Node.statementOrVerbatim (fuel + 1) inClosure l rest).1.isRaw = true ∨
      terminated (Node.statementOrVerbatim (fuel + 1) inClosure l rest).2 = true) ∧
    ∃ ts, l :: rest = ts ++ (Node.statementOrVerbatim (fuel + 1) inClosure l rest).2 ∧
      Spelled (.statement (Node.statementOrVerbatim (fuel + 1) inClosure l rest).1) ts := by
  obtain hkept | ⟨n, hn, hstatement, hend⟩ := statementOrVerbatim_cases (fuel + 1) inClosure l rest
  · obtain ⟨hraw, hverbatim⟩ := verbatim_reads inClosure l rest
    rw [hkept]
    exact ⟨Or.inl hraw, hverbatim⟩
  · obtain rfl := Nat.succ.inj hn
    exact ⟨Or.inr hend, hs.statement l rest hf _ _ hstatement⟩

theorem statements_succ (inClosure : Bool) (ls : List Lexeme) (hf : AllFormed ls) :
    ∃ ts, ls = ts ++ (Node.statements (fuel + 1) inClosure ls).2 ∧
      Spelled (.statements (Node.statements (fuel + 1) inClosure ls).1) ts := by
  cases ls with
  | nil => exact ⟨[], rfl, .nil⟩
  | cons l rest =>
    simp only [statements_cons]
    split
    · exact ⟨[], rfl, .nil⟩
    · obtain ⟨hend, ts, hts, hspelled⟩ := hs.statementOrVerbatim inClosure l rest hf
      generalize Node.statementOrVerbatim fuel inClosure l rest = first at hend hts hspelled ⊢
      obtain ⟨node, left⟩ := first
      simp only at hend hts hspelled ⊢
      rw [hts] at hf ⊢
      obtain ⟨us, hus, hmore⟩ := hs.statements inClosure left hf.right
      refine ⟨ts ++ us, by rw [List.append_assoc, ← hus], .cons hspelled ?_ hmore⟩
      -- The end of the statement shows in the next lexeme, if the list goes on.
      refine hend.imp (fun hraw => hraw) fun hterminated => ?_
      cases us with
      | nil => rfl
      | cons u us =>
        rw [hus] at hterminated
        exact hterminated

theorem statement_succ (l : Lexeme) (rest : List Lexeme) (hf : AllFormed (l :: rest)) :
    Yields .statement (l :: rest) (Node.statement (fuel + 1) l rest) := by
  intro node left h
  obtain ⟨ts, hts, hsegments⟩ := dottedName_reads l.text rest hf.rest
  have hf' := hf.rest
  rw [hts] at hf'
  cases readsStatement h with
  | constant is =>
    obtain ⟨value, rfl⟩ := constant?_literal is
    exact ⟨[l], rfl, .constantStatement is rfl⟩
  | delegated word is => exact hs.delegated l rest hf word.1 node left is
  | assignment word next equals is =>
    rw [next] at hts hf'
    obtain ⟨us, rfl, hspelled⟩ := hs.expression _ hf'.right.rest _ _ is
    exact ⟨l :: ts ++ _ :: us, by simp [hts],
      .assignment word rfl rfl hsegments (hf'.right.head.marks equals rfl) hspelled⟩
  | introduced word is =>
    obtain ⟨us, hus, hintroduces⟩ := hs.callOrIdentifier _ _ _ _ hf'.right node left is
    refine ⟨l :: ts ++ us,
      by rw [List.cons_append, List.cons_append, List.append_assoc, ← hus, ← hts], ?_⟩
    cases hintroduces with
    | nothing => simpa using Spelled.identifierStatement word rfl hsegments
    | call tail => exact .callStatement word rfl hsegments tail
    | command starts inside => exact .commandStatement word rfl hsegments starts inside

theorem delegated_succ (keyword : Lexeme) (rest : List Lexeme) (hf : AllFormed (keyword :: rest))
    (hword : keyword.kind = .word) :
    Yields .statement (keyword :: rest) (Node.delegated (fuel + 1) keyword rest) := by
  intro node left h
  cases readsDelegated h with
  | @mk property by' callee behind _ _ _ words is =>
    obtain ⟨ts, hts, hsegments⟩ := dottedName_reads callee.text behind hf.rest.rest.rest.rest
    have hf' := hf.rest.rest.rest.rest
    rw [hts] at hf'
    obtain ⟨us, hus, hintroduces⟩ := hs.callOrIdentifier _ _ _ _ hf'.right _ _ is
    refine ⟨keyword :: property :: by' :: callee :: ts ++ us, ?_, ?_⟩
    · simp only [List.cons_append, List.append_assoc, ← hus, ← hts]
    · cases hintroduces with
      | call tail =>
        exact .delegated hword words.is rfl words.word words.line words.mark words.line' words.word'
          words.line''
          hsegments tail

theorem callOrIdentifier_succ (head : Head) (name : String) (command : Bool) (ls : List Lexeme)
    (hf : AllFormed ls) (node : Node) (left : List Lexeme)
    (h : Node.callOrIdentifier (fuel + 1) head name command ls = some (node, left)) :
    ∃ ts, ls = ts ++ left ∧ Introduces head name command node ts := by
  cases readsCall h with
  | typed types is =>
    obtain ⟨⟨ts, rfl, hspelled⟩, hnext⟩ := typeArguments_reads types
    obtain ⟨us, rfl, htail⟩ := hs.callRest _ hf.right hnext _ _ is
    exact ⟨ts ++ us, by simp, .call (.typed hspelled htail)⟩
  | untyped next is =>
    obtain ⟨us, rfl, htail⟩ := hs.callRest ls hf next _ _ is
    exact ⟨us, rfl, .call (.untyped htail)⟩
  | command starts is =>
    obtain ⟨us, rfl, hspelled⟩ := hs.commandItems ls hf _ _ is
    refine ⟨us, rfl, .command ?_ hspelled⟩
    cases us with
    | nil => exact absurd rfl (hspelled.ne_nil (by simp))
    | cons u us => exact starts
  | nothing => exact ⟨[], rfl, .nothing⟩

/-- Arguments on the same line, behind whatever lexemes. -/
theorem exists_parenthesized {ls left : List Lexeme} {arguments : Arguments Node}
    (hf : AllFormed ls) (hparen : continuesWith .parenOpen ls = true)
    (h : Node.parenthesized fuel ls = some (arguments, left)) :
    ∃ opening ts, ls = opening :: ts ++ left ∧ opening.startsLine = false ∧
      Spelled (.parenthesized arguments) (opening :: ts) := by
  obtain ⟨ts, rfl, hspelled⟩ := hs.parenthesized ls hf hparen _ _ h
  cases ts with
  | nil => exact absurd rfl (hspelled.ne_nil (by simp))
  | cons opening ts =>
    simp only [List.cons_append, continuesWith, Bool.and_eq_true, Bool.not_eq_true'] at hparen
    exact ⟨opening, ts, rfl, hparen.2, hspelled⟩

/-- The same for a closure. -/
theorem exists_closureBody {ls left : List Lexeme} {node : Node} (hf : AllFormed ls)
    (hbrace : continuesWith .braceOpen ls = true)
    (h : Node.closureBody fuel ls = some (node, left)) :
    ∃ opening ts, ls = opening :: ts ++ left ∧ opening.startsLine = false ∧
      Spelled (.block node) (opening :: ts) := by
  cases ls with
  | nil => cases hbrace
  | cons opening us =>
    simp only [continuesWith, Bool.and_eq_true, Bool.not_eq_true', decide_eq_true_eq] at hbrace
    obtain ⟨ts, hts, hspelled⟩ := hs.closureBody opening us hf hbrace.1 node left h
    cases ts with
    | nil => exact absurd rfl (hspelled.ne_nil (by simp))
    | cons t ts =>
      obtain ⟨rfl, rfl⟩ := List.cons.inj hts
      exact ⟨opening, ts, rfl, hbrace.2, hspelled⟩

theorem callRest_succ (ls : List Lexeme) (hf : AllFormed ls)
    (hnext : continuesWith .parenOpen ls = true ∨ continuesWith .braceOpen ls = true) :
    Yields (fun a => .rest a.1 a.2) ls (Node.callRest (fuel + 1) ls) := by
  intro parts left h
  cases readsRest h with
  | arguments paren is =>
    obtain ⟨opening, ts, rfl, hline, hspelled⟩ := hs.exists_parenthesized hf paren is
    exact ⟨opening :: ts, rfl, .arguments hspelled hline⟩
  | body brace is =>
    obtain ⟨opening, ts, rfl, hline, hspelled⟩ := hs.exists_closureBody hf brace is
    exact ⟨opening :: ts, rfl, .body hspelled hline⟩
  | both paren is brace is' =>
    obtain ⟨opening, ts, rfl, hline, hspelled⟩ := hs.exists_parenthesized hf paren is
    obtain ⟨opening', us, rfl, hline', hspelled'⟩ := hs.exists_closureBody hf.right brace is'
    exact ⟨opening :: ts ++ opening' :: us, by simp, .both hspelled hline hspelled' hline'⟩
  | nothing paren brace => simp [paren, brace] at hnext

theorem parenthesized_succ (ls : List Lexeme) (hf : AllFormed ls)
    (hnext : continuesWith .parenOpen ls = true) :
    Yields .parenthesized ls (Node.parenthesized (fuel + 1) ls) := by
  intro arguments left h
  cases readsParenthesized h with
  | @empty opening close _ mark =>
    simp only [continuesWith, Bool.and_eq_true, decide_eq_true_eq] at hnext
    exact ⟨[opening, close], rfl, .empty (hf.head.marks hnext.1 rfl) (hf.rest.head.marks mark rfl)⟩
  | @items opening _ _ _ is =>
    simp only [continuesWith, Bool.and_eq_true, decide_eq_true_eq] at hnext
    obtain ⟨ts, rfl, hspelled⟩ := hs.parenthesizedItems _ hf.rest _ _ is
    exact ⟨opening :: ts, rfl, .items (hf.head.marks hnext.1 rfl) hspelled⟩

theorem parenthesizedItems_succ (ls : List Lexeme) (hf : AllFormed ls) :
    Yields .items ls (Node.parenthesizedItems (fuel + 1) ls) := by
  intro items left h
  cases readsItems h with
  | last is mark =>
    obtain ⟨ts, rfl, hspelled⟩ := hs.argument ls hf _ _ is
    exact ⟨ts ++ [_], by simp, .last hspelled (hf.right.head.marks mark rfl)⟩
  | more is mark more =>
    obtain ⟨ts, rfl, hspelled⟩ := hs.argument ls hf _ _ is
    obtain ⟨us, rfl, hspelled'⟩ := hs.parenthesizedItems _ hf.right.rest _ _ more
    exact ⟨ts ++ _ :: us, by simp, .item hspelled (hf.right.head.marks mark rfl) hspelled'⟩

theorem commandItems_succ (ls : List Lexeme) (hf : AllFormed ls) :
    Yields .command ls (Node.commandItems (fuel + 1) ls) := by
  intro items left h
  cases readsCommand h with
  | last is =>
    obtain ⟨ts, rfl, hspelled⟩ := hs.argument ls hf _ _ is
    exact ⟨ts, rfl, .lastCommand hspelled⟩
  | more is mark more =>
    obtain ⟨ts, rfl, hspelled⟩ := hs.argument ls hf _ _ is
    obtain ⟨us, rfl, hspelled'⟩ := hs.commandItems _ hf.right.rest _ _ more
    exact ⟨ts ++ _ :: us, by simp, .command hspelled (hf.right.head.marks mark rfl) hspelled'⟩

theorem argument_succ (ls : List Lexeme) (hf : AllFormed ls) :
    Yields .argument ls (Node.argument (fuel + 1) ls) := by
  intro node left h
  cases readsArgument h with
  | @named l colon _ _ _ word mark is =>
    obtain ⟨ts, rfl, hspelled⟩ := hs.expression _ hf.rest.rest _ _ is
    exact ⟨l :: colon :: ts, rfl, .named word rfl (hf.rest.head.marks mark rfl) hspelled⟩
  | unnamed is =>
    obtain ⟨ts, rfl, hspelled⟩ := hs.expression ls hf node left is
    exact ⟨ts, rfl, .unnamed hspelled⟩

theorem expression_succ (ls : List Lexeme) (hf : AllFormed ls) :
    Yields .expression ls (Node.expression (fuel + 1) ls) := by
  intro node left h
  cases readsExpression h with
  | @constant l _ _ is =>
    obtain ⟨value, rfl⟩ := constant?_literal is
    exact ⟨[l], rfl, .constant is rfl⟩
  | @introduced l rest _ _ word constant is =>
    have hname := isName_of_constant?_eq_none word constant
    obtain ⟨ts, hts, hsegments⟩ := dottedName_reads l.text rest hf.rest
    have hf' := hf.rest
    rw [hts] at hf'
    obtain ⟨us, hus, hreference⟩ := classReference_reads hf'.right hsegments
    rw [hus] at hf'
    obtain ⟨vs, hvs, hintroduces⟩ := hs.callOrIdentifier _ _ _ _ hf'.right.right node left is
    have hrow : l :: rest = l :: (ts ++ us) ++ vs ++ left := by
      rw [hts, hus, hvs]
      simp
    refine ⟨l :: (ts ++ us) ++ vs, hrow, ?_⟩
    cases hintroduces with
    | nothing => simpa using Spelled.identifier hname rfl hreference
    | call tail => exact .call hname rfl hreference tail
  | block brace is =>
    obtain ⟨ts, hts, hspelled⟩ := hs.closureBody _ _ hf brace node left is
    exact ⟨ts, hts, .closure hspelled⟩

theorem closureBody_succ (opening : Lexeme) (rest : List Lexeme) (hf : AllFormed (opening :: rest))
    (hbrace : opening.kind = .braceOpen) :
    Yields .block (opening :: rest) (Node.closureBody (fuel + 1) (opening :: rest)) := by
  intro node left h
  cases readsClosure h with
  | @mk _ close _ _ _ is mark =>
    obtain ⟨ts, hts, hspelled⟩ := hs.statements true rest hf.rest
    rw [is] at hts hspelled
    have hfc := hf.rest
    rw [hts] at hfc
    exact ⟨opening :: ts ++ [close], by simp [hts],
      .block (hf.head.marks hbrace rfl) rfl hspelled (hfc.right.head.marks mark rfl)⟩

end Sound

/-- The rules of the parser are sound at every depth. -/
theorem sound (fuel : Nat) : Sound fuel := by
  induction fuel with
  | zero => exact sound_zero
  | succ fuel hs =>
    exact
      { statementOrVerbatim := hs.statementOrVerbatim_succ
        statements := hs.statements_succ
        statement := hs.statement_succ
        delegated := hs.delegated_succ
        callOrIdentifier := hs.callOrIdentifier_succ
        callRest := hs.callRest_succ
        parenthesized := hs.parenthesized_succ
        parenthesizedItems := hs.parenthesizedItems_succ
        commandItems := hs.commandItems_succ
        argument := hs.argument_succ
        expression := hs.expression_succ
        closureBody := hs.closureBody_succ }

/-- With a depth of more than the number of lexemes, the statements of a script take all of them. -/
theorem statements_behind {fuel : Nat} {ls : List Lexeme} (hf : AllFormed ls)
    (hfuel : ls.length ≤ fuel) :
    (statements fuel false ls).2 = [] := by
  induction fuel generalizing ls with
  | zero =>
    have hnil : ls = [] := List.eq_nil_of_length_eq_zero (by omega)
    rw [hnil]
    rfl
  | succ fuel ih =>
    cases ls with
    | nil => rfl
    | cons l rest =>
      simp only [statements_cons, Bool.false_and, Bool.false_eq_true, if_false]
      obtain ⟨-, ts, hts, hspelled⟩ := (sound fuel).statementOrVerbatim false l rest hf
      have hpos : 0 < ts.length := List.length_pos_of_ne_nil (hspelled.ne_nil (by simp))
      have hlen := congrArg List.length hts
      rw [List.length_append, List.length_cons] at hlen
      rw [List.length_cons] at hfuel
      rw [hts] at hf
      exact ih hf.right (by omega)

end BuildScript.Node
