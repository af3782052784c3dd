import BuildScript.Proofs.Reading
import BuildScript.Proofs.Trees

/-!
# Reading a spelled tree again

The parser reads back what some lexemes spell, as long as no statement in it is kept verbatim and
the lexemes behind it cannot belong to it. The tree that it reads differs in nothing but the names
of its nodes.
-/

namespace BuildScript.Node

def Begins (l : Lexeme) : Prop := l.kind = .word ∨ l.kind = .quoted ∨ l.kind = .number

/-- Lexemes in front of which a statement is over. -/
def StatementEnds : List Lexeme → Prop
  | [] => True
  | l :: _ => l.kind = .braceClose ∨ l.startsLine = true ∧ Begins l

def ExpressionEnds : List Lexeme → Prop
  | [] => True
  | l :: _ =>
    l.kind = .comma ∨ l.kind = .parenClose ∨ l.kind = .braceClose ∨ l.startsLine = true ∧ Begins l

def BlockEnds (inClosure : Bool) : List Lexeme → Prop
  | [] => True
  | l :: _ => inClosure = true ∧ l.kind = .braceClose

/-- The first lexeme, if there is one, has none of the given kinds. -/
def Avoids (kinds : List LexemeKind) (ls : List Lexeme) : Prop :=
  ∀ l us, ls = l :: us → l.kind ∉ kinds

theorem StatementEnds.expressionEnds {ls : List Lexeme} (h : StatementEnds ls) :
    ExpressionEnds ls := by
  cases ls with
  | nil => trivial
  | cons l ls => exact Or.inr (Or.inr h)

theorem StatementEnds.terminated {ls : List Lexeme} (h : StatementEnds ls) :
    terminated ls = true := by
  cases ls with
  | nil => rfl
  | cons l ls =>
    obtain hclose | ⟨hline, -⟩ := h
    · simp [Node.terminated, hclose]
    · simp [Node.terminated, hline]

theorem BlockEnds.statementEnds {inClosure : Bool} {ls : List Lexeme} (h : BlockEnds inClosure ls) :
    StatementEnds ls := by
  cases ls with
  | nil => trivial
  | cons l ls => exact Or.inl h.2

theorem ExpressionEnds.avoids {ls : List Lexeme} (h : ExpressionEnds ls) :
    Avoids [.dot, .colon, .equals, .other, .semicolon, .parenOpen, .braceOpen] ls := by
  rintro l us rfl
  obtain hkind | hkind | hkind | ⟨-, hkind | hkind | hkind⟩ := h <;> simp [hkind]

theorem StatementEnds.avoids {ls : List Lexeme} (h : StatementEnds ls) :
    Avoids [.comma, .equals] ls := by
  rintro l us rfl
  obtain hkind | ⟨-, hkind | hkind | hkind⟩ := h <;> simp [hkind]

theorem StatementEnds.startsCommand {ls : List Lexeme} (h : StatementEnds ls) :
    startsCommand ls = false := by
  cases ls with
  | nil => rfl
  | cons l ls =>
    obtain hclose | ⟨hline, -⟩ := h
    · simp [Node.startsCommand, hclose]
    · simp [Node.startsCommand, hline]

section Avoids

variable {kinds : List LexemeKind} {ls : List Lexeme}

theorem Avoids.mono {fewer : List LexemeKind} (h : Avoids kinds ls) (hsub : fewer ⊆ kinds) :
    Avoids fewer ls :=
  fun l us heq hkind => h l us heq (hsub hkind)

theorem Avoids.continuesWith {kind : LexemeKind} (h : Avoids kinds ls) (hkind : kind ∈ kinds) :
    continuesWith kind ls = false := by
  cases ls with
  | nil => rfl
  | cons l ls =>
    have hne : l.kind ≠ kind := fun heq => h l ls rfl (heq ▸ hkind)
    simp [Node.continuesWith, hne]

theorem Avoids.dottedName (h : Avoids kinds ls) (hkind : LexemeKind.dot ∈ kinds) (name : String) :
    dottedName name ls = (name, ls) := by
  rcases ls with _ | ⟨l, _ | ⟨m, ls⟩⟩
  · rfl
  · rfl
  · have hne : l.kind ≠ .dot := fun heq => h l _ rfl (heq ▸ hkind)
    simp [Node.dottedName, hne]

theorem Avoids.classReference (h : Avoids kinds ls) (hkind : LexemeKind.colon ∈ kinds)
    (name : String) :
    classReference name ls = (name, ls) := by
  rcases ls with _ | ⟨l, _ | ⟨m, _ | ⟨n, ls⟩⟩⟩
  · rfl
  · rfl
  · rfl
  · have hne : l.kind ≠ .colon := fun heq => h l _ rfl (heq ▸ hkind)
    simp [Node.classReference, hne]

theorem Avoids.typeArguments (h : Avoids kinds ls) (hkind : LexemeKind.other ∈ kinds) :
    typeArguments ls = none := by
  rcases ls with _ | ⟨l, _ | ⟨m, ls⟩⟩
  · rfl
  · rfl
  · have hne : l.kind ≠ .other := fun heq => h l _ rfl (heq ▸ hkind)
    simp [Node.typeArguments, hne]

end Avoids

section Names

variable {start name text : String} {ts rest : List Lexeme}

theorem Segments.dottedName_append (h : Segments start ts name) (hrest : Avoids [.dot] rest) :
    dottedName start (ts ++ rest) = (name, rest) := by
  induction h with
  | nil name => exact hrest.dottedName (by simp) name
  | @cons start name dot segment ts mark first word second more ih =>
    have hdot : dot.adjoins = true := Lexeme.adjoins_iff.mpr first
    have hsegment : segment.adjoins = true := Lexeme.adjoins_iff.mpr second
    simp [dottedName, mark.1, hdot, word, hsegment, ih]

/-- A reference is read in two steps, of which the second takes the class reference. -/
theorem Reference.read_append (h : Reference start ts name) (hrest : Avoids [.dot, .colon] rest) :
    classReference (dottedName start (ts ++ rest)).1 (dottedName start (ts ++ rest)).2 =
      (name, rest) := by
  cases h with
  | plain segments =>
    rw [segments.dottedName_append (hrest.mono (by simp))]
    exact hrest.classReference (by simp) name
  | @member name ts first second word segments mark near mark' near' kind near'' =>
    have hdot : Avoids [.dot] (first :: second :: word :: rest) := by
      rintro l us ⟨rfl, rfl⟩
      simp [mark.1]
    have hread : dottedName start (ts ++ [first, second, word] ++ rest) =
        (name, first :: second :: word :: rest) := by
      rw [List.append_assoc]
      exact segments.dottedName_append hdot
    have hfirst : first.adjoins = true := Lexeme.adjoins_iff.mpr near
    have hsecond : second.adjoins = true := Lexeme.adjoins_iff.mpr near'
    have hword : word.adjoins = true := Lexeme.adjoins_iff.mpr near''
    rw [hread]
    simp [classReference, mark.1, mark'.1, kind, hfirst, hsecond, hword]

theorem typeArgumentsRest_append {close : Lexeme} (inside : ∀ l ∈ ts, InTypes l)
    (mark : close.Marks .other ">") :
    typeArgumentsRest (ts ++ close :: rest) = some (Lexeme.writtenAll (ts ++ [close]), rest) := by
  induction ts with
  | nil => simp [typeArgumentsRest, mark.1, mark.2, Lexeme.written]
  | cons l ts ih =>
    rw [List.forall_mem_cons] at inside
    have hin : (l.kind = .word || l.kind = .dot || l.kind = .comma) = true := by
      simpa [InTypes, or_assoc] using inside.1
    simp [typeArgumentsRest, hin, ih inside.2, Lexeme.written]

theorem Types.typeArguments_append (h : Types text ts)
    (hrest : continuesWith .parenOpen rest = true ∨ continuesWith .braceOpen rest = true) :
    typeArguments (ts ++ rest) = some (text, rest) := by
  cases h with
  | @mk opening first close ts mark near inside mark' =>
    rw [List.forall_mem_cons] at inside
    have hin : (first.kind = .word || first.kind = .dot || first.kind = .comma) = true := by
      simpa [InTypes, or_assoc] using inside.1
    have hnear : opening.adjoins = true := Lexeme.adjoins_iff.mpr near
    have hmore : typeArgumentsRest (ts ++ [close] ++ rest) =
        some (Lexeme.writtenAll (ts ++ [close]), rest) := by
      rw [List.append_assoc]
      exact typeArgumentsRest_append inside.2 mark'
    have hnext : (continuesWith .parenOpen rest || continuesWith .braceOpen rest) = true := by
      simpa using hrest
    simp [typeArguments, mark.1, mark.2, hnear, hin, List.append_assoc] at hmore ⊢
    simp [hmore, hrest, Lexeme.written, String.append_assoc]

end Names

section First

variable {ts : List Lexeme}

theorem Spelled.parenthesized_first {arguments : Arguments Node}
    (h : Spelled (.parenthesized arguments) ts) :
    ∃ l us, ts = l :: us ∧ l.kind = .parenOpen := by
  cases h with
  | empty mark mark' => exact ⟨_, _, rfl, mark.1⟩
  | items mark inside => exact ⟨_, _, rfl, mark.1⟩

theorem Spelled.block_first {node : Node} (h : Spelled (.block node) ts) :
    ∃ l us, ts = l :: us ∧ l.kind = .braceOpen := by
  cases h with
  | block mark lead inside mark' => exact ⟨_, _, rfl, mark.1⟩

/-- The parentheses or the brace behind a call's name stand on the line of the name. -/
theorem Spelled.rest_first {arguments : Option (Arguments Node)} {body : Option Node}
    (h : Spelled (.rest arguments body) ts) :
    ∃ l us, ts = l :: us ∧ l.startsLine = false ∧ (l.kind = .parenOpen ∨ l.kind = .braceOpen) := by
  cases h with
  | arguments is line =>
    obtain ⟨l, us, ⟨rfl, rfl⟩, hkind⟩ := is.parenthesized_first
    exact ⟨_, _, rfl, line, Or.inl hkind⟩
  | body is line =>
    obtain ⟨l, us, ⟨rfl, rfl⟩, hkind⟩ := is.block_first
    exact ⟨_, _, rfl, line, Or.inr hkind⟩
  | both is line is' line' =>
    obtain ⟨l, us, ⟨rfl, rfl⟩, hkind⟩ := is.parenthesized_first
    exact ⟨_, _, rfl, line, Or.inl hkind⟩

theorem Spelled.tail_avoids {types : Option String} {arguments : Option (Arguments Node)}
    {body : Option Node} (h : Spelled (.tail types arguments body) ts) (rest : List Lexeme) :
    Avoids [.dot, .colon, .equals, .word] (ts ++ rest) := by
  rintro m ms hm
  cases h with
  | untyped is =>
    obtain ⟨l, us, rfl, -, hkind⟩ := is.rest_first
    obtain ⟨rfl, rfl⟩ := List.cons.inj hm
    obtain hkind | hkind := hkind <;> simp [hkind]
  | typed types is =>
    cases types with
    | mk mark near inside mark' =>
      obtain ⟨rfl, rfl⟩ := List.cons.inj hm
      simp [mark.1]

theorem constant?_begins {l : Lexeme} {node : Node} (h : constant? l = some node) : Begins l := by
  unfold constant? at h
  split at h
  · exact Or.inr (Or.inl (by assumption))
  · exact Or.inr (Or.inr (by assumption))
  · exact Or.inl (by assumption)
  · cases h

theorem Spelled.expression_first {node : Node} (h : Spelled (.expression node) ts) :
    ∃ l us, ts = l :: us ∧ (Begins l ∨ l.kind = .braceOpen) := by
  cases h with
  | constant is lead => exact ⟨_, _, rfl, Or.inl (constant?_begins is)⟩
  | identifier word lead reference => exact ⟨_, _, rfl, Or.inl (Or.inl word.1)⟩
  | call word lead reference tail => exact ⟨_, _, rfl, Or.inl (Or.inl word.1)⟩
  | closure block =>
    obtain ⟨l, us, rfl, hkind⟩ := block.block_first
    exact ⟨l, us, rfl, Or.inr hkind⟩

theorem Spelled.statement_first {node : Node} (h : Spelled (.statement node) ts)
    (hraw : node.isRaw = false) :
    ∃ l us, ts = l :: us ∧ Begins l := by
  cases h with
  | constantStatement is lead => exact ⟨_, _, rfl, constant?_begins is⟩
  | identifierStatement word lead segments => exact ⟨_, _, rfl, Or.inl word.1⟩
  | callStatement word lead segments tail => exact ⟨_, _, rfl, Or.inl word.1⟩
  | commandStatement word lead segments starts inside => exact ⟨_, _, rfl, Or.inl word.1⟩
  | delegated word is lead word' line mark line' word'' line'' segments tail =>
    exact ⟨_, _, rfl, Or.inl word⟩
  | assignment word lead lead' segments mark is => exact ⟨_, _, rfl, Or.inl word.1⟩
  | raw lead => cases hraw

end First

def Phrase.Every (p : Node → Bool) : Phrase → Prop
  | statements nodes => ∀ node ∈ nodes, node.every p = true
  | statement node | expression node | argument node | block node => node.every p = true
  | parenthesized arguments => ∀ a ∈ arguments.items, a.node.every p = true
  | items list | command list => ∀ a ∈ list, a.node.every p = true
  | rest arguments body | tail _ arguments body =>
    (∀ a ∈ arguments, ∀ item ∈ a.items, item.node.every p = true) ∧ ∀ b ∈ body, b.every p = true

theorem every_call_iff {p : Node → Bool} {h : Head} {name : String} {types : Option String}
    {arguments : Option (Arguments Node)} {body : Option Node} {delegate : Option Delegate} :
    every p (call h ⟨name, types, arguments, body, delegate⟩) = true ↔
      p (call h ⟨name, types, arguments, body, delegate⟩) = true ∧
        (Phrase.tail types arguments body).Every p := by
  rw [every_call]
  refine and_congr_right fun _ => and_congr ?_ Iff.rfl
  cases arguments <;> simp [Call.argumentNodes]

/-- No statement at or below the node is kept verbatim. -/
def isParsed (n : Node) : Bool := n.every fun m => !m.isRaw

def Phrase.IsParsed (phrase : Phrase) : Prop := phrase.Every fun m => !m.isRaw

/-- With enough depth, the rule reads a value again that differs from `a` in names only, whatever
follows, as long as it meets the condition. -/
def Rereads {α β : Type} (rule : Nat → List Lexeme → Option (α × List Lexeme)) (bare : α → β)
    (depth : Nat) (ends : List Lexeme → Prop) (a : α) (ts : List Lexeme) : Prop :=
  ∀ fuel rest, 8 * ts.length + depth ≤ fuel → ends rest →
    ∃ b, rule fuel (ts ++ rest) = some (b, rest) ∧ bare b = bare a

def Phrase.Rereads : Phrase → List Lexeme → Prop
  | statements nodes, ts =>
    ∀ fuel inClosure rest, 8 * ts.length + 2 ≤ fuel → BlockEnds inClosure rest →
    ∃ again, Node.statements fuel inClosure (ts ++ rest) = (again, rest) ∧
      again.map bare = nodes.map bare
  | statement node, ts =>
    ∀ l us, ts = l :: us → ∀ fuel rest, 8 * ts.length ≤ fuel → StatementEnds rest →
    ∃ again, Node.statement fuel l (us ++ rest) = some (again, rest) ∧ again.bare = node.bare
  | expression node, ts => Node.Rereads Node.expression bare 2 ExpressionEnds node ts
  | argument node, ts => Node.Rereads Node.argument bare 3 ExpressionEnds node ts
  | block node, ts => Node.Rereads closureBody bare 1 (fun _ => True) node ts
  | parenthesized arguments, ts =>
    Node.Rereads Node.parenthesized (Arguments.map bare) 1 (fun _ => True) arguments ts
  | items list, ts =>
    Node.Rereads parenthesizedItems (List.map (Argument.map bare)) 0 (fun _ => True) list ts
  | command list, ts =>
    Node.Rereads commandItems (List.map (Argument.map bare)) 4 StatementEnds list ts
  | rest arguments body, ts =>
    Node.Rereads callRest (Prod.map (Option.map (Arguments.map bare)) (Option.map bare))
    2 ExpressionEnds (arguments, body) ts
  | tail types arguments body, ts => ∀ head name command,
    Node.Rereads (fun fuel => callOrIdentifier fuel head name command) bare 5 ExpressionEnds
      (call head ⟨name, types, arguments, body, none⟩) ts

section Rules

variable {fuel : Nat} {ts ms : List Lexeme} {l : Lexeme} {name : String}

/-- A name with nothing behind it is an identifier. -/
theorem callOrIdentifier_alone (head : Head) (name : String) {command : Bool}
    (hends : ExpressionEnds ms) (hcommand : command = true → startsCommand ms = false) :
    callOrIdentifier (fuel + 1) head name command ms = some (identifier head name, ms) := by
  have havoids := hends.avoids
  have hstarts : (command && startsCommand ms) = false := by
    cases command with
    | false => rfl
    | true => exact hcommand rfl
  have hparen : continuesWith .parenOpen ms = false := havoids.continuesWith (by simp)
  have hbrace : continuesWith .braceOpen ms = false := havoids.continuesWith (by simp)
  simp [callOrIdentifier_succ, havoids.typeArguments (by simp), hparen, hbrace, hstarts]

/-- An expression that starts with a name goes on behind the reference. -/
theorem expression_name (hname : IsName l) (hreference : Reference l.text ts name)
    (havoids : Avoids [.dot, .colon] ms) :
    expression (fuel + 1) (l :: ts ++ ms) = callOrIdentifier fuel (headOf l) name false ms := by
  have hread := hreference.read_append havoids
  simp only [List.cons_append, expression_succ, Query.step, answer_callOrIdentifier,
    constant?_eq_none_of_isName hname, hname.1, if_true, hread]

def LooksDelegated (ls : List Lexeme) : Prop :=
  ∃ property by' us, ls = property :: by' :: us ∧ property.kind = .word ∧
    property.startsLine = false ∧
    by'.kind = .word ∧ by'.startsLine = false

theorem delegated_eq_none (h : ¬ LooksDelegated ms) : delegated fuel l ms = none := by
  cases fuel with
  | zero => rfl
  | succ fuel =>
    rw [Option.eq_none_iff_forall_ne_some]
    rintro ⟨node, left⟩ hread
    cases readsDelegated hread with
    | mk words is =>
      exact h ⟨_, _, _, rfl, words.word, words.line, words.mark.1, words.line'⟩

/-- A dotted name does not look like a property, and what follows decides otherwise. -/
theorem not_looksDelegated_append {start : String} (h : Segments start ts name)
    (hms : ¬ LooksDelegated ms) :
    ¬ LooksDelegated (ts ++ ms) := by
  cases h with
  | nil => exact hms
  | cons mark first word second more =>
    rintro ⟨property, by', us, heq, hproperty, -⟩
    obtain ⟨rfl, -⟩ := List.cons.inj heq
    rw [mark.1] at hproperty
    cases hproperty

theorem not_looksDelegated_of_avoids (h : Avoids [.word] ms) : ¬ LooksDelegated ms := by
  rintro ⟨property, by', us, rfl, hproperty, -⟩
  exact h _ _ rfl (by simp [hproperty])

/-- A statement that starts with a name and does not delegate goes on behind the name. -/
theorem statement_name (hname : IsName l) (hsegments : Segments l.text ts name)
    (havoids : Avoids [.dot, .equals] ms) (hdelegated : ¬ LooksDelegated ms) :
    statement (fuel + 1) l (ts ++ ms) = callOrIdentifier fuel (headOf l) name true ms := by
  have hread := hsegments.dottedName_append (havoids.mono (by simp))
  have hnone := @delegated_eq_none fuel _ l (not_looksDelegated_append hsegments hdelegated)
  simp only [statement_succ, Query.step, answer_delegated, answer_expression,
    answer_callOrIdentifier, hname.1, hname.2, hnone, hread, decide_true, Bool.not_false,
    Bool.and_self, if_true]
  cases ms with
  | nil => rfl
  | cons m ms =>
    have hne : m.kind ≠ .equals := fun hk => havoids m ms rfl (by simp [hk])
    simp only [hne, if_false]

theorem Spelled.expression_second {node : Node} (h : Spelled (.expression node) (l :: ts))
    (hword : l.kind = .word) : Avoids [.word] ts := by
  generalize hls : l :: ts = ls at h
  have hsegments : ∀ {start name : String} {us vs : List Lexeme}, Segments start us name →
      Avoids [.word] vs →
      Avoids [.word] (us ++ vs) := by
    intro start name us vs hsegments hvs
    cases hsegments with
    | nil => exact hvs
    | cons mark first word second more =>
      rintro m ms hm
      obtain ⟨rfl, -⟩ := List.cons.inj hm
      simp [mark.1]
  have hreference : ∀ {start name : String} {us vs : List Lexeme}, Reference start us name →
      Avoids [.word] vs →
      Avoids [.word] (us ++ vs) := by
    intro start name us vs hreference hvs
    cases hreference with
    | plain segments => exact hsegments segments hvs
    | member segments mark near mark' near' kind near'' =>
      rw [List.append_assoc]
      refine hsegments segments ?_
      rintro m ms hm
      obtain ⟨rfl, -⟩ := List.cons.inj hm
      simp [mark.1]
  cases h with
  | constant is lead =>
    obtain ⟨rfl, rfl⟩ := List.cons.inj hls
    rintro m ms ⟨⟩
  | identifier word lead reference =>
    obtain ⟨rfl, rfl⟩ := List.cons.inj hls
    have hnil : Avoids [.word] [] := by rintro m ms ⟨⟩
    simpa using hreference reference hnil
  | call word lead reference tail =>
    obtain ⟨rfl, rfl⟩ := List.cons.inj hls
    have htail := tail.tail_avoids []
    rw [List.append_nil] at htail
    exact hreference reference (htail.mono (by simp))
  | closure block =>
    obtain ⟨m, us, rfl, hkind⟩ := block.block_first
    obtain ⟨rfl, rfl⟩ := List.cons.inj hls
    rw [hword] at hkind
    cases hkind

/-- Behind the first word of an argument no word follows. -/
theorem Spelled.argument_second {node : Node} (h : Spelled (.argument node) (l :: ts))
    (hword : l.kind = .word) :
    Avoids [.word] ts := by
  cases h with
  | named word lead mark is =>
    rintro m ms hm
    obtain ⟨rfl, -⟩ := List.cons.inj hm
    simp [mark.1]
  | unnamed is => exact is.expression_second hword

theorem Spelled.not_looksDelegated {items : List (Argument Node)} (h : Spelled (.command items) ts)
    (hends : StatementEnds ms) : ¬ LooksDelegated (ts ++ ms) := by
  rintro ⟨property, by', us, heq, hproperty, -, hby, hline⟩
  -- The second word has to come from behind the first argument.
  have hsecond : ∀ {node : Node} {vs rest : List Lexeme}, Spelled (.argument node) vs →
      vs ++ rest = property :: by' :: us → rest = by' :: us := by
    intro node vs rest hargument hvs
    rcases vs with _ | ⟨v, _ | ⟨w, vs⟩⟩
    · exact absurd rfl (hargument.ne_nil (by simp))
    · exact (List.cons.inj hvs).2
    · simp only [List.cons_append, List.cons.injEq] at hvs
      obtain ⟨rfl, rfl, -⟩ := hvs
      exact absurd (by simp [hby]) (hargument.argument_second hproperty w vs rfl)
  cases h with
  | lastCommand is =>
    have hms := hsecond is heq
    subst hms
    obtain hclose | ⟨hstart, -⟩ := hends
    · rw [hby] at hclose
      cases hclose
    · rw [hline] at hstart
      cases hstart
  | command is mark more =>
    rw [List.append_assoc] at heq
    obtain ⟨rfl, -⟩ := List.cons.inj (hsecond is heq)
    rw [mark.1] at hby
    cases hby

end Rules

section Expressions

variable {l : Lexeme} {h : Head} {name : String} {ts us : List Lexeme}

theorem rereads_constant {value : LiteralValue} {source : String}
    (is : constant? l = some (.literal (headOf l) value source)) (lead : h.lead = l.lead) :
    (Phrase.expression (.literal h value source)).Rereads [l] := by
  intro fuel rest hfuel _
  obtain ⟨fuel, rfl⟩ : ∃ k, fuel = k + 1 := ⟨fuel - 1, by omega⟩
  exact ⟨literal (headOf l) value source, by simp [expression_succ, is],
    by simp [headOf, Head.new, lead]⟩

theorem rereads_identifier (word : IsName l) (lead : h.lead = l.lead)
    (reference : Reference l.text ts name) :
    (Phrase.expression (.identifier h name)).Rereads (l :: ts) := by
  intro fuel rest hfuel hends
  obtain ⟨fuel, rfl⟩ : ∃ k, fuel = k + 2 := ⟨fuel - 2, by omega⟩
  refine ⟨identifier (headOf l) name, ?_, by simp [headOf, Head.new, lead]⟩
  rw [expression_name word reference (hends.avoids.mono (by simp))]
  exact callOrIdentifier_alone (headOf l) name hends (by simp)

theorem rereads_call {types : Option String} {arguments : Option (Arguments Node)}
    {body : Option Node} (word : IsName l) (lead : h.lead = l.lead)
    (reference : Reference l.text ts name) (tail : Spelled (.tail types arguments body) us)
    (ih : (Phrase.tail types arguments body).Rereads us) :
    (Phrase.expression (.call h ⟨name, types, arguments, body, none⟩)).Rereads (l :: ts ++ us) := by
  intro fuel rest hfuel hends
  simp only [List.length_append, List.length_cons] at hfuel
  obtain ⟨fuel, rfl⟩ : ∃ k, fuel = k + 1 := ⟨fuel - 1, by omega⟩
  obtain ⟨again, hread, hbare⟩ := ih (headOf l) name false fuel rest (by omega) hends
  refine ⟨again, ?_, ?_⟩
  · rw [List.append_assoc, expression_name word reference ((tail.tail_avoids rest).mono (by simp))]
    exact hread
  · rw [hbare]
    simp [headOf, Head.new, lead]

theorem rereads_closure {node : Node} (block : Spelled (.block node) ts)
    (ih : (Phrase.block node).Rereads ts) :
    (Phrase.expression node).Rereads ts := by
  intro fuel rest hfuel _
  obtain ⟨fuel, rfl⟩ : ∃ k, fuel = k + 1 := ⟨fuel - 1, by omega⟩
  obtain ⟨again, hread, hbare⟩ := ih fuel rest (by omega) trivial
  obtain ⟨opening, vs, rfl, hkind⟩ := block.block_first
  have hconstant : constant? opening = none := by simp [constant?, hkind]
  refine ⟨again, ?_, hbare⟩
  simpa [expression_succ, hconstant, hkind] using hread

theorem rereads_block {opening close : Lexeme} {nodes : List Node} (lead : h.lead = opening.lead)
    (mark' : close.Marks .braceClose "\x7d") (ih : (Phrase.statements nodes).Rereads ts) :
    (Phrase.block (.closure h nodes close.lead)).Rereads (opening :: ts ++ [close]) := by
  intro fuel rest hfuel _
  simp only [List.length_append, List.length_cons] at hfuel
  obtain ⟨fuel, rfl⟩ : ∃ k, fuel = k + 1 := ⟨fuel - 1, by omega⟩
  obtain ⟨again, hread, hbare⟩ := ih fuel true (close :: rest) (by omega) ⟨rfl, mark'.1⟩
  refine ⟨closure (headOf opening) again close.lead, ?_, by simp [headOf, Head.new, lead, hbare]⟩
  have hrow : opening :: ts ++ [close] ++ rest = opening :: (ts ++ close :: rest) := by simp
  rw [hrow]
  simp only [closureBody_succ, Query.step, answer_statements, hread, mark'.1, if_true]

end Expressions

section Arguments

variable {l : Lexeme} {h : Head} {node : Node} {ts us : List Lexeme}

theorem rereads_named {colon : Lexeme} {value : Node} (word : l.kind = .word)
    (lead : h.lead = l.lead) (mark : colon.Marks .colon ":") (is : Spelled (.expression value) ts)
    (ih : (Phrase.expression value).Rereads ts) :
    (Phrase.argument (.named h l.text colon.lead value)).Rereads (l :: colon :: ts) := by
  intro fuel rest hfuel hends
  simp only [List.length_cons] at hfuel
  obtain ⟨fuel, rfl⟩ : ∃ k, fuel = k + 1 := ⟨fuel - 1, by omega⟩
  obtain ⟨again, hread, hbare⟩ := ih fuel rest (by omega) hends
  have hnext : ((ts ++ rest).head?.map Lexeme.kind ≠ some .colon) := by
    obtain ⟨m, ms, rfl, (hkind | hkind | hkind) | hkind⟩ := is.expression_first <;> simp [hkind]
  refine ⟨named (headOf l) l.text colon.lead again, ?_, by simp [headOf, Head.new, lead, hbare]⟩
  simp only [List.cons_append, argument_succ, Query.step, answer_expression, word, mark.1, hnext,
    hread, decide_true, ne_eq, not_false_eq_true, Bool.and_self, if_true]
  rfl

/-- A colon right behind a reference or in it is followed by another one. -/
theorem Reference.colon_colon {start name : String} {m : Lexeme} {ms rest : List Lexeme}
    (h : Reference start ts name) (hrest : Avoids [.colon] rest) (hrow : ts ++ rest = m :: ms)
    (hkind : m.kind = .colon) : ms.head?.map Lexeme.kind = some .colon := by
  have hsegments : ∀ {vs ws : List Lexeme} {name : String}, Segments start vs name →
      vs ++ ws = m :: ms →
      ws = m :: ms := by
    intro vs ws name hsegments hrow
    cases hsegments with
    | nil => exact hrow
    | cons mark =>
      obtain ⟨rfl, -⟩ := List.cons.inj hrow
      rw [mark.1] at hkind
      cases hkind
  cases h with
  | plain segments => exact absurd (by simp [hkind]) (hrest m ms (hsegments segments hrow))
  | member segments mark near mark' =>
    rw [List.append_assoc] at hrow
    obtain ⟨rfl, rfl⟩ := List.cons.inj (hsegments segments hrow)
    simp [mark'.1]

/-- An expression is no named argument: behind its first word no single colon follows. -/
theorem Spelled.argument_eq_expression {fuel : Nat} {rest : List Lexeme}
    (is : Spelled (.expression node) ts) (hends : ExpressionEnds rest) :
    argument (fuel + 1) (ts ++ rest) = expression fuel (ts ++ rest) := by
  have hcolon : ∀ {m n : Lexeme} {ms : List Lexeme}, ts ++ rest = m :: n :: ms → m.kind = .word →
      n.kind = .colon → ms.head?.map Lexeme.kind = some .colon := by
    intro m n ms hrow hword hkind
    cases is with
    | constant is lead =>
      obtain ⟨rfl, rfl⟩ := List.cons.inj hrow
      exact absurd (by simp [hkind]) (hends.avoids n ms rfl)
    | identifier word lead reference =>
      simp only [List.cons_append, List.cons.injEq] at hrow
      exact reference.colon_colon (hends.avoids.mono (by simp)) hrow.2 hkind
    | call word lead reference tail =>
      simp only [List.cons_append, List.append_assoc, List.cons.injEq] at hrow
      exact reference.colon_colon ((tail.tail_avoids rest).mono (by simp)) hrow.2 hkind
    | closure block =>
      obtain ⟨opening, vs, rfl, hopening⟩ := block.block_first
      obtain ⟨rfl, -⟩ := List.cons.inj hrow
      rw [hword] at hopening
      cases hopening
  generalize ts ++ rest = ls at hcolon
  rcases ls with _ | ⟨m, _ | ⟨n, ms⟩⟩
  · rfl
  · rfl
  · simp only [argument_succ, Query.step, answer_expression]
    split_ifs with hnamed
    · simp only [Bool.and_eq_true, decide_eq_true_eq] at hnamed
      exact absurd (hcolon rfl hnamed.1.1 hnamed.1.2) hnamed.2
    · rfl

theorem rereads_unnamed (is : Spelled (.expression node) ts)
    (ih : (Phrase.expression node).Rereads ts) :
    (Phrase.argument node).Rereads ts := by
  intro fuel rest hfuel hends
  obtain ⟨fuel, rfl⟩ : ∃ k, fuel = k + 1 := ⟨fuel - 1, by omega⟩
  obtain ⟨again, hread, hbare⟩ := ih fuel rest (by omega) hends
  exact ⟨again, by rw [is.argument_eq_expression hends, hread], hbare⟩

theorem rereads_last {close : Lexeme} (mark : close.Marks .parenClose ")")
    (ih : (Phrase.argument node).Rereads ts) :
    (Phrase.items [⟨node, close.lead⟩]).Rereads (ts ++ [close]) := by
  intro fuel rest hfuel _
  simp only [List.length_append, List.length_cons] at hfuel
  obtain ⟨fuel, rfl⟩ : ∃ k, fuel = k + 1 := ⟨fuel - 1, by omega⟩
  obtain ⟨again, hread, hbare⟩ := ih fuel (close :: rest) (by omega) (Or.inr (Or.inl mark.1))
  refine ⟨[⟨again, close.lead⟩], ?_, by simp [Argument.map, hbare]⟩
  rw [List.append_assoc]
  simp [parenthesizedItems_succ, hread, mark.1]

/-- Behind a comma a row of arguments goes on, whichever rule reads it. -/
theorem rereads_behind_comma
    {rule : Nat → List Lexeme → Option (List (Argument Node) × List Lexeme)} {depth : Nat}
    {ends : List Lexeme → Prop} {comma : Lexeme} {items : List (Argument Node)}
    (hrule : ∀ fuel ls first behind more left, argument fuel ls = some (first, comma :: behind) →
      rule fuel behind = some (more, left) →
        rule (fuel + 1) ls = some (⟨first, comma.lead⟩ :: more, left))
    (mark : comma.Marks .comma ",") (ih : (Phrase.argument node).Rereads ts)
    (ih' : Rereads rule (List.map (Argument.map bare)) depth ends items us) :
    Rereads rule (List.map (Argument.map bare)) depth ends (⟨node, comma.lead⟩ :: items)
      (ts ++ comma :: us) := by
  intro fuel rest hfuel hends
  simp only [List.length_append, List.length_cons] at hfuel
  obtain ⟨fuel, rfl⟩ : ∃ k, fuel = k + 1 := ⟨fuel - 1, by omega⟩
  obtain ⟨again, hread, hbare⟩ := ih fuel (comma :: (us ++ rest)) (by omega) (Or.inl mark.1)
  obtain ⟨more, hmore, hbare'⟩ := ih' fuel rest (by omega) hends
  refine ⟨⟨again, comma.lead⟩ :: more, ?_, by simpa [Argument.map, hbare] using hbare'⟩
  rw [List.append_assoc]
  exact hrule fuel _ again _ more rest hread hmore

theorem rereads_item {comma : Lexeme} {items : List (Argument Node)} (mark : comma.Marks .comma ",")
    (ih : (Phrase.argument node).Rereads ts) (ih' : (Phrase.items items).Rereads us) :
    (Phrase.items (⟨node, comma.lead⟩ :: items)).Rereads (ts ++ comma :: us) := by
  refine rereads_behind_comma ?_ mark ih ih'
  intro fuel ls first behind more left hfirst hmore
  simp [parenthesizedItems_succ, hfirst, hmore, mark.1]

theorem rereads_lastCommand (ih : (Phrase.argument node).Rereads ts) :
    (Phrase.command [⟨node, ""⟩]).Rereads ts := by
  intro fuel rest hfuel hends
  obtain ⟨fuel, rfl⟩ : ∃ k, fuel = k + 1 := ⟨fuel - 1, by omega⟩
  obtain ⟨again, hread, hbare⟩ := ih fuel rest (by omega) hends.expressionEnds
  refine ⟨[⟨again, ""⟩], ?_, by simp [Argument.map, hbare]⟩
  cases rest with
  | nil =>
    rw [List.append_nil] at hread ⊢
    simp [commandItems_succ, hread]
  | cons m rest =>
    have hne : m.kind ≠ .comma := fun hk => hends.avoids m rest rfl (by simp [hk])
    simp [commandItems_succ, hread, hne]

theorem rereads_command {comma : Lexeme} {items : List (Argument Node)}
    (mark : comma.Marks .comma ",") (ih : (Phrase.argument node).Rereads ts)
    (ih' : (Phrase.command items).Rereads us) :
    (Phrase.command (⟨node, comma.lead⟩ :: items)).Rereads (ts ++ comma :: us) := by
  refine rereads_behind_comma ?_ mark ih ih'
  intro fuel ls first behind more left hfirst hmore
  simp [commandItems_succ, hfirst, hmore, mark.1]

end Arguments

section Calls

variable {opening : Lexeme} {arguments : Arguments Node} {node : Node} {ts us : List Lexeme}

theorem rereads_empty {close : Lexeme} (mark' : close.Marks .parenClose ")") :
    (Phrase.parenthesized ⟨true, opening.lead, [], close.lead⟩).Rereads [opening, close] := by
  intro fuel rest hfuel _
  obtain ⟨fuel, rfl⟩ : ∃ k, fuel = k + 1 := ⟨fuel - 1, by omega⟩
  exact ⟨⟨true, opening.lead, [], close.lead⟩,
    by simp [parenthesized_succ, mark'.1], rfl⟩

theorem Spelled.items_first {items : List (Argument Node)} (h : Spelled (.items items) ts) :
    ∃ l us, ts = l :: us ∧ l.kind ≠ .parenClose := by
  have hargument : ∀ {node : Node} {vs : List Lexeme}, Spelled (.argument node) vs →
      ∃ l us, vs = l :: us ∧ l.kind ≠ .parenClose := by
    intro node vs h
    cases h with
    | named word lead mark is => exact ⟨_, _, rfl, by simp [word]⟩
    | unnamed is =>
      obtain ⟨l, us, rfl, (hkind | hkind | hkind) | hkind⟩ := is.expression_first <;>
        exact ⟨l, us, rfl, by simp [hkind]⟩
  cases h with
  | last is mark =>
    obtain ⟨l, us, rfl, hkind⟩ := hargument is
    exact ⟨l, _, rfl, hkind⟩
  | item is mark more =>
    obtain ⟨l, us, rfl, hkind⟩ := hargument is
    exact ⟨l, _, rfl, hkind⟩

theorem rereads_items {items : List (Argument Node)} (inside : Spelled (.items items) ts)
    (ih : (Phrase.items items).Rereads ts) :
    (Phrase.parenthesized ⟨true, opening.lead, items, ""⟩).Rereads (opening :: ts) := by
  intro fuel rest hfuel hends
  simp only [List.length_cons] at hfuel
  obtain ⟨fuel, rfl⟩ : ∃ k, fuel = k + 1 := ⟨fuel - 1, by omega⟩
  obtain ⟨again, hread, hbare⟩ := ih fuel rest (by omega) hends
  obtain ⟨l, us, rfl, hkind⟩ := inside.items_first
  refine ⟨⟨true, opening.lead, again, ""⟩, ?_, by simpa [Arguments.map] using hbare⟩
  rw [List.cons_append] at hread
  simp [parenthesized_succ, hkind, hread]

theorem continuesWith_cons {kind : LexemeKind} (hkind : opening.kind = kind)
    (line : opening.startsLine = false) (ls : List Lexeme) :
    continuesWith kind (opening :: ls) = true := by
  simp [continuesWith, hkind, line]

theorem rereads_arguments (is : Spelled (.parenthesized arguments) (opening :: ts))
    (line : opening.startsLine = false)
    (ih : (Phrase.parenthesized arguments).Rereads (opening :: ts)) :
    (Phrase.rest (some arguments) none).Rereads (opening :: ts) := by
  intro fuel rest hfuel hends
  obtain ⟨fuel, rfl⟩ : ∃ k, fuel = k + 1 := ⟨fuel - 1, by omega⟩
  obtain ⟨again, hread, hbare⟩ := ih fuel rest (by omega) trivial
  obtain ⟨_, _, ⟨rfl, rfl⟩, hkind⟩ := is.parenthesized_first
  have hparen := continuesWith_cons hkind line (ts ++ rest)
  have hbrace : continuesWith .braceOpen rest = false := hends.avoids.continuesWith (by simp)
  refine ⟨(some again, none), ?_, by simp [hbare]⟩
  rw [List.cons_append] at hread ⊢
  simp [callRest_succ, hparen, hread, hbrace]

theorem rereads_body (is : Spelled (.block node) (opening :: ts))
    (line : opening.startsLine = false) (ih : (Phrase.block node).Rereads (opening :: ts)) :
    (Phrase.rest none (some node)).Rereads (opening :: ts) := by
  intro fuel rest hfuel hends
  obtain ⟨fuel, rfl⟩ : ∃ k, fuel = k + 1 := ⟨fuel - 1, by omega⟩
  obtain ⟨again, hread, hbare⟩ := ih fuel rest (by omega) trivial
  obtain ⟨_, _, ⟨rfl, rfl⟩, hkind⟩ := is.block_first
  have hbrace := continuesWith_cons hkind line (ts ++ rest)
  have hparen : continuesWith .parenOpen (opening :: (ts ++ rest)) = false := by
    simp [continuesWith, hkind]
  refine ⟨(none, some again), ?_, by simp [hbare]⟩
  rw [List.cons_append] at hread ⊢
  simp [callRest_succ, hparen, hread, hbrace]

theorem rereads_both {opening' : Lexeme} (is : Spelled (.parenthesized arguments) (opening :: ts))
    (line : opening.startsLine = false) (is' : Spelled (.block node) (opening' :: us))
    (line' : opening'.startsLine = false)
    (ih : (Phrase.parenthesized arguments).Rereads (opening :: ts))
    (ih' : (Phrase.block node).Rereads (opening' :: us)) :
    (Phrase.rest (some arguments) (some node)).Rereads (opening :: ts ++ opening' :: us) := by
  intro fuel rest hfuel hends
  rw [List.length_append] at hfuel
  obtain ⟨fuel, rfl⟩ : ∃ k, fuel = k + 1 := ⟨fuel - 1, by omega⟩
  obtain ⟨again, hread, hbare⟩ := ih fuel (opening' :: us ++ rest) (by omega) trivial
  obtain ⟨again', hread', hbare'⟩ := ih' fuel rest (by omega) trivial
  obtain ⟨_, _, ⟨rfl, rfl⟩, hkind⟩ := is.parenthesized_first
  obtain ⟨_, _, ⟨rfl, rfl⟩, hkind'⟩ := is'.block_first
  have hparen := continuesWith_cons hkind line (ts ++ (opening' :: us ++ rest))
  have hbrace := continuesWith_cons hkind' line' (us ++ rest)
  refine ⟨(some again, some again'), ?_, by simp [hbare, hbare']⟩
  rw [List.append_assoc, List.cons_append]
  rw [List.cons_append] at hread
  rw [List.cons_append] at hread' hread hparen ⊢
  simp [callRest_succ, hparen, hread, hbrace, hread']

end Calls

section Tails

variable {arguments : Option (Arguments Node)} {body : Option Node} {ts us : List Lexeme}

theorem Spelled.rest_continues (h : Spelled (.rest arguments body) ts) (rest : List Lexeme) :
    continuesWith .parenOpen (ts ++ rest) = true ∨
      continuesWith .braceOpen (ts ++ rest) = true := by
  obtain ⟨l, us, rfl, line, hkind⟩ := h.rest_first
  exact hkind.imp (fun hkind => continuesWith_cons hkind line _) fun hkind =>
    continuesWith_cons hkind line _

theorem rereads_untyped (is : Spelled (.rest arguments body) ts)
    (ih : (Phrase.rest arguments body).Rereads ts) :
    (Phrase.tail none arguments body).Rereads ts := by
  intro head name command fuel rest hfuel hends
  obtain ⟨fuel, rfl⟩ : ∃ k, fuel = k + 1 := ⟨fuel - 1, by omega⟩
  obtain ⟨⟨arguments', body'⟩, hread, hbare⟩ := ih fuel rest (by omega) hends
  simp only [Prod.map_apply, Prod.mk.injEq] at hbare
  have hnext := is.rest_continues rest
  have htypes : typeArguments (ts ++ rest) = none := by
    obtain ⟨l, us, rfl, -, hkind⟩ := is.rest_first
    have havoids : Avoids [.other] (l :: us ++ rest) := by
      rintro m ms hm
      obtain ⟨rfl, -⟩ := List.cons.inj hm
      obtain hkind | hkind := hkind <;> simp [hkind]
    exact havoids.typeArguments (by simp)
  refine ⟨call head (.plain name arguments' body'), ?_, by simp [Call.plain, Call.map, hbare]⟩
  simp [callOrIdentifier_succ, htypes, hnext, hread]

theorem rereads_typed {text : String} (types : Types text ts)
    (is : Spelled (.rest arguments body) us) (ih : (Phrase.rest arguments body).Rereads us) :
    (Phrase.tail (some text) arguments body).Rereads (ts ++ us) := by
  intro head name command fuel rest hfuel hends
  rw [List.length_append] at hfuel
  obtain ⟨fuel, rfl⟩ : ∃ k, fuel = k + 1 := ⟨fuel - 1, by omega⟩
  obtain ⟨⟨arguments', body'⟩, hread, hbare⟩ := ih fuel rest (by omega) hends
  simp only [Prod.map_apply, Prod.mk.injEq] at hbare
  have htypes := types.typeArguments_append (is.rest_continues rest)
  refine ⟨call head ⟨name, some text, arguments', body', none⟩, ?_, by simp [Call.map, hbare]⟩
  simp [callOrIdentifier_succ, htypes, hread]

end Tails

section Statements

variable {l : Lexeme} {h : Head} {name : String} {ts us : List Lexeme}

theorem rereads_constantStatement {value : LiteralValue} {source : String}
    (is : constant? l = some (.literal (headOf l) value source)) (lead : h.lead = l.lead) :
    (Phrase.statement (.literal h value source)).Rereads [l] := by
  rintro _ _ ⟨⟩ fuel rest hfuel _
  simp only [List.length_cons] at hfuel
  obtain ⟨fuel, rfl⟩ : ∃ k, fuel = k + 1 := ⟨fuel - 1, by omega⟩
  have hname : (l.kind = .word && !isKeywordLiteral l.text) = false := by
    by_contra hname
    simp only [Bool.not_eq_false, Bool.and_eq_true, Bool.not_eq_true', decide_eq_true_eq] at hname
    rw [constant?_eq_none_of_isName hname] at is
    cases is
  refine ⟨literal (headOf l) value source, ?_, by simp [headOf, Head.new, lead]⟩
  simp only [statement_succ, Query.step, answer_delegated, answer_expression,
    answer_callOrIdentifier, hname, is]
  rfl

theorem not_looksDelegated_of_ends {ms : List Lexeme} (h : StatementEnds ms) :
    ¬ LooksDelegated ms := by
  rintro ⟨property, by', vs, rfl, hproperty, hline, -⟩
  obtain hkind | ⟨hstart, -⟩ := h
  · rw [hproperty] at hkind
    cases hkind
  · rw [hline] at hstart
    cases hstart

theorem rereads_identifierStatement (word : IsName l) (lead : h.lead = l.lead)
    (segments : Segments l.text ts name) :
    (Phrase.statement (.identifier h name)).Rereads (l :: ts) := by
  rintro _ _ ⟨⟩ fuel rest hfuel hends
  simp only [List.length_cons] at hfuel
  obtain ⟨fuel, rfl⟩ : ∃ k, fuel = k + 2 := ⟨fuel - 2, by omega⟩
  refine ⟨identifier (headOf l) name, ?_, by simp [headOf, Head.new, lead]⟩
  rw [statement_name word segments (hends.expressionEnds.avoids.mono (by simp))
    (not_looksDelegated_of_ends hends)]
  exact callOrIdentifier_alone (headOf l) name hends.expressionEnds fun _ => hends.startsCommand

theorem rereads_callStatement {types : Option String} {arguments : Option (Arguments Node)}
    {body : Option Node} (word : IsName l) (lead : h.lead = l.lead)
    (segments : Segments l.text ts name) (tail : Spelled (.tail types arguments body) us)
    (ih : (Phrase.tail types arguments body).Rereads us) :
    (Phrase.statement (.call h ⟨name, types, arguments, body, none⟩)).Rereads (l :: ts ++ us) := by
  intro _ _ hrow fuel rest hfuel hends
  simp only [List.cons_append] at hrow
  cases hrow
  simp only [List.cons_append, List.length_cons, List.length_append] at hfuel
  obtain ⟨fuel, rfl⟩ : ∃ k, fuel = k + 1 := ⟨fuel - 1, by omega⟩
  obtain ⟨again, hread, hbare⟩ := ih (headOf l) name true fuel rest (by omega) hends.expressionEnds
  have havoids := tail.tail_avoids rest
  refine ⟨again, ?_, ?_⟩
  · rw [List.append_assoc, statement_name word segments (havoids.mono (by simp))
      (not_looksDelegated_of_avoids (havoids.mono (by simp)))]
    exact hread
  · rw [hbare]
    simp [headOf, Head.new, lead]

theorem startsCommand_append (h : startsCommand us = true) (rest : List Lexeme) :
    startsCommand (us ++ rest) = true := by
  cases us with
  | nil => cases h
  | cons u us => exact h

theorem avoids_of_startsCommand (h : startsCommand us = true) :
    Avoids [.dot, .equals, .other, .parenOpen, .braceOpen] us := by
  rintro u vs rfl
  simp only [startsCommand, Bool.and_eq_true, Bool.or_eq_true, decide_eq_true_eq] at h
  obtain ⟨-, (hkind | hkind) | hkind⟩ := h <;> simp [hkind]

theorem rereads_commandStatement {items : List (Argument Node)} (word : IsName l)
    (lead : h.lead = l.lead) (segments : Segments l.text ts name) (starts : startsCommand us = true)
    (inside : Spelled (.command items) us) (ih : (Phrase.command items).Rereads us) :
    (Phrase.statement (.call h ⟨name, none, some ⟨false, "", items, ""⟩, none, none⟩)).Rereads
      (l :: ts ++ us) := by
  intro _ _ hrow fuel rest hfuel hends
  simp only [List.cons_append] at hrow
  cases hrow
  simp only [List.cons_append, List.length_cons, List.length_append] at hfuel
  obtain ⟨fuel, rfl⟩ : ∃ k, fuel = k + 2 := ⟨fuel - 2, by omega⟩
  obtain ⟨again, hread, hbare⟩ := ih fuel rest (by omega) hends
  have hstarts := startsCommand_append starts rest
  have havoids := avoids_of_startsCommand hstarts
  have hparen : continuesWith .parenOpen (us ++ rest) = false := havoids.continuesWith (by simp)
  have hbrace : continuesWith .braceOpen (us ++ rest) = false := havoids.continuesWith (by simp)
  refine ⟨call (headOf l) (.plain name (some ⟨false, "", again, ""⟩) none), ?_, ?_⟩
  · rw [List.append_assoc, statement_name word segments (havoids.mono (by simp))
      (inside.not_looksDelegated hends)]
    simp [callOrIdentifier_succ, havoids.typeArguments (by simp), hparen, hbrace,
      hstarts, hread]
  · simp only [bare_call, Call.plain, Call.map, Arguments.map, Option.map_some, hbare]
    simp [headOf, Head.new, lead]

theorem eq_call_of_bare {again : Node} {c : Call Node} (hbare : again.bare = (call h c).bare) :
    ∃ h' c', again = call h' c' ∧ c'.map bare = c.map bare := by
  cases again with
  | call h' c' =>
    simp only [bare_call, Node.call.injEq] at hbare
    exact ⟨h', c', rfl, hbare.2⟩
  | closure | literal | identifier | named | assignment | raw => simp at hbare

theorem rereads_delegated {keyword property by' callee : Lexeme} {types : Option String}
    {arguments : Option (Arguments Node)} {body : Option Node} (word : keyword.kind = .word)
    (is : keyword.text = "val" ∨ keyword.text = "var") (lead : h.lead = keyword.lead)
    (word' : property.kind = .word) (line : property.startsLine = false)
    (mark : by'.Marks .word "by") (line' : by'.startsLine = false) (word'' : callee.kind = .word)
    (line'' : callee.startsLine = false) (segments : Segments callee.text ts name)
    (tail : Spelled (.tail types arguments body) us)
    (ih : (Phrase.tail types arguments body).Rereads us) :
    (Phrase.statement (.call h ⟨name, types, arguments, body,
      some ⟨keyword.text, property.lead, property.text, by'.lead, callee.lead⟩⟩)).Rereads
      (keyword :: property :: by' :: callee :: ts ++ us) := by
  intro _ _ hrow fuel rest hfuel hends
  simp only [List.cons_append] at hrow
  cases hrow
  simp only [List.cons_append, List.length_cons, List.length_append] at hfuel
  obtain ⟨fuel, rfl⟩ : ∃ k, fuel = k + 2 := ⟨fuel - 2, by omega⟩
  obtain ⟨again, hread, hbare⟩ :=
    ih (headOf callee) name false fuel rest (by omega) hends.expressionEnds
  obtain ⟨h', c', rfl, hc⟩ := eq_call_of_bare hbare
  have hname : isKeywordLiteral keyword.text = false := by
    obtain is | is := is <;> simp [is, isKeywordLiteral]
  have hdotted := segments.dottedName_append ((tail.tail_avoids rest).mono (by simp))
  let delegate : Delegate := ⟨keyword.text, property.lead, property.text, by'.lead, callee.lead⟩
  refine ⟨call (headOf keyword) { c' with delegate := some delegate }, ?_, ?_⟩
  · simp only [List.cons_append, List.append_assoc]
    simp [statement_succ, delegated_succ, word, hname, is, word', line, mark.1, mark.2,
      line', word'', line'', hdotted, hread, delegate]
  · simp only [Call.map, Call.mk.injEq] at hc
    simp [Call.map, hc, headOf, Head.new, lead, delegate]

theorem rereads_assignment {operator : Lexeme} {h' : Head} {value : Node} (word : IsName l)
    (lead : h.lead = l.lead) (lead' : h'.lead = "") (segments : Segments l.text ts name)
    (mark : operator.Marks .equals "=") (ih : (Phrase.expression value).Rereads us) :
    (Phrase.statement (.assignment h (.identifier h' name) operator.lead value)).Rereads
      (l :: ts ++ operator :: us) := by
  intro _ _ hrow fuel rest hfuel hends
  simp only [List.cons_append] at hrow
  cases hrow
  simp only [List.cons_append, List.length_cons, List.length_append] at hfuel
  obtain ⟨fuel, rfl⟩ : ∃ k, fuel = k + 1 := ⟨fuel - 1, by omega⟩
  obtain ⟨again, hread, hbare⟩ := ih fuel rest (by omega) hends.expressionEnds
  have hoperator : Avoids [.dot, .word] (operator :: (us ++ rest)) := by
    rintro m ms hm
    obtain ⟨rfl, -⟩ := List.cons.inj hm
    simp [mark.1]
  have hdotted := segments.dottedName_append (hoperator.mono (by simp))
  have hnone := @delegated_eq_none fuel _ l
    (not_looksDelegated_append segments (not_looksDelegated_of_avoids (hoperator.mono (by simp))))
  refine ⟨assignment (Head.new (operator.start + 1) l.lead)
    (identifier (Head.new (l.start + 1) "") name)
    operator.lead again, ?_, by simp [Head.new, lead, lead', hbare]⟩
  rw [List.append_assoc, List.cons_append]
  simp [statement_succ, word.1, word.2, hnone, hdotted, mark.1, hread]

theorem Spelled.statements_first {nodes : List Node} (h : Spelled (.statements nodes) (l :: ts))
    (hraw : ∀ node ∈ nodes, node.isRaw = false) : Begins l := by
  generalize hls : l :: ts = ls at h
  cases h with
  | nil => cases hls
  | cons first ends more =>
    rw [List.forall_mem_cons] at hraw
    obtain ⟨m, ms, rfl, hbegins⟩ := first.statement_first hraw.1
    obtain ⟨rfl, -⟩ := List.cons.inj hls
    exact hbegins

theorem rereads_cons {node : Node} {nodes : List Node} (first : Spelled (.statement node) ts)
    (ends : node.isRaw = true ∨ terminated us = true) (more : Spelled (.statements nodes) us)
    (hraw : ∀ n ∈ node :: nodes, n.isRaw = false) (ih : (Phrase.statement node).Rereads ts)
    (ih' : (Phrase.statements nodes).Rereads us) :
    (Phrase.statements (node :: nodes)).Rereads (ts ++ us) := by
  intro fuel inClosure rest hfuel hends
  rw [List.forall_mem_cons] at hraw
  obtain ⟨l, vs, rfl, hbegins⟩ := first.statement_first hraw.1
  simp only [List.length_append, List.length_cons] at hfuel
  obtain ⟨fuel, rfl⟩ : ∃ k, fuel = k + 2 := ⟨fuel - 2, by omega⟩
  -- The next statement, if there is one, starts on a line of its own.
  have hnext : StatementEnds (us ++ rest) := by
    cases us with
    | nil => exact hends.statementEnds
    | cons u us =>
      have hu := more.statements_first hraw.2
      simp only [hraw.1, Bool.false_eq_true, false_or, terminated, Bool.or_eq_true,
        decide_eq_true_eq] at ends
      obtain (hline | hsemicolon) | hclose := ends
      · exact Or.inr ⟨hline, hu⟩
      · obtain hkind | hkind | hkind := hu <;> simp [hkind] at hsemicolon
      · exact Or.inl hclose
  obtain ⟨again, hread, hbare⟩ :=
    ih l vs rfl fuel (us ++ rest) (by simp only [List.length_cons]; omega) hnext
  obtain ⟨again', hread', hbare'⟩ := ih' (fuel + 1) inClosure rest (by omega) hends
  have hopen : (inClosure && l.kind = .braceClose) = false := by
    obtain hkind | hkind | hkind := hbegins <;> simp [hkind]
  refine ⟨again :: again', ?_, by simp [hbare, hbare']⟩
  rw [List.append_assoc, List.cons_append]
  simp [statements_cons, hopen, statementOrVerbatim_succ, hread,
    hnext.terminated, hread']

end Statements

theorem isRaw_of_isParsed {node : Node} (hp : node.isParsed = true) : node.isRaw = false := by
  simpa using self_of_every hp

theorem tail_isParsed {h : Head} {name : String} {types : Option String}
    {arguments : Option (Arguments Node)} {body : Option Node} {delegate : Option Delegate}
    (hp : (call h ⟨name, types, arguments, body, delegate⟩).isParsed = true) :
    (Phrase.tail types arguments body).IsParsed :=
  (every_call_iff.mp hp).2

/-- What some lexemes spell is read back from them if nothing in it is kept verbatim. -/
theorem Spelled.rereads {phrase : Phrase} {ts : List Lexeme} (h : Spelled phrase ts)
    (hp : phrase.IsParsed) :
    phrase.Rereads ts := by
  induction h with
  | constant is lead => exact rereads_constant is lead
  | identifier word lead reference => exact rereads_identifier word lead reference
  | call word lead reference tail ih =>
    exact rereads_call word lead reference tail (ih (tail_isParsed hp))
  | closure block ih => exact rereads_closure block (ih hp)
  | block mark lead inside mark' ih => exact rereads_block lead mark' (ih (every_closure.mp hp).2)
  | named word lead mark is ih => exact rereads_named word lead mark is (ih (every_named.mp hp).2)
  | unnamed is ih => exact rereads_unnamed is (ih hp)
  | last is mark ih => exact rereads_last mark (ih (List.forall_mem_cons.mp hp).1)
  | item is mark more ih ih' =>
    obtain ⟨hfirst, hmore⟩ := List.forall_mem_cons.mp hp
    exact rereads_item mark (ih hfirst) (ih' hmore)
  | lastCommand is ih => exact rereads_lastCommand (ih (List.forall_mem_cons.mp hp).1)
  | command is mark more ih ih' =>
    obtain ⟨hfirst, hmore⟩ := List.forall_mem_cons.mp hp
    exact rereads_command mark (ih hfirst) (ih' hmore)
  | empty mark mark' => exact rereads_empty mark'
  | items mark inside ih => exact rereads_items inside (ih hp)
  | arguments is line ih => exact rereads_arguments is line (ih (hp.1 _ rfl))
  | body is line ih => exact rereads_body is line (ih (hp.2 _ rfl))
  | both is line is' line' ih ih' =>
    exact rereads_both is line is' line' (ih (hp.1 _ rfl)) (ih' (hp.2 _ rfl))
  | untyped is ih => exact rereads_untyped is (ih hp)
  | typed types is ih => exact rereads_typed types is (ih hp)
  | constantStatement is lead => exact rereads_constantStatement is lead
  | identifierStatement word lead segments => exact rereads_identifierStatement word lead segments
  | callStatement word lead segments tail ih =>
    exact rereads_callStatement word lead segments tail (ih (tail_isParsed hp))
  | commandStatement word lead segments starts inside ih =>
    exact rereads_commandStatement word lead segments starts inside
      (ih ((tail_isParsed hp).1 _ rfl))
  | delegated word is lead word' line mark line' word'' line'' segments tail ih =>
    exact rereads_delegated word is lead word' line mark line' word'' line'' segments tail
      (ih (tail_isParsed hp))
  | assignment word lead lead' segments mark is ih =>
    exact rereads_assignment word lead lead' segments mark (ih (every_assignment.mp hp).2.2)
  | raw lead => cases hp
  | nil =>
    intro fuel inClosure rest hfuel hends
    obtain ⟨fuel, rfl⟩ : ∃ k, fuel = k + 1 := ⟨fuel - 1, by omega⟩
    refine ⟨[], ?_, rfl⟩
    cases rest with
    | nil => rfl
    | cons l rest => simp [statements_cons, hends.1, hends.2]
  | cons first ends more ih ih' =>
    have hraw := fun n hn => isRaw_of_isParsed (hp n hn)
    obtain ⟨hfirst, hmore⟩ := List.forall_mem_cons.mp hp
    exact rereads_cons first ends more hraw (ih hfirst) (ih' hmore)

/-- The statements of a script that has no verbatim ones are read again from its lexemes, up to the
names of nodes. -/
theorem Spelled.statements_fuelFor {nodes : List Node} {ts : List Lexeme}
    (h : Spelled (.statements nodes) ts) (hp : ∀ node ∈ nodes, node.isParsed = true) :
    (statements (fuelFor ts) false ts).1.map bare = nodes.map bare := by
  obtain ⟨again, hread, hbare⟩ :=
    h.rereads hp (fuelFor ts) false [] (by unfold fuelFor; omega) trivial
  rw [List.append_nil] at hread
  rw [hread, hbare]

end BuildScript.Node
