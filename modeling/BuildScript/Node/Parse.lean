import BuildScript.Lexeme.Scan
import BuildScript.Node.Basic
import BuildScript.Text.Escape

/-!
# Parsing

Reads the statements of a build script from its lexemes: calls with and without parentheses,
trailing closures, literals, dotted names, named arguments, assignments, type arguments, class
references and delegated properties. A statement outside this grammar, or one that is not followed
by a line break, `;` or a closing brace, is kept verbatim up to the end of its line.

Every rule returns what it read together with the lexemes behind it. The rules call each other. They
are written as one step, which answers a question with the answers to other questions; a rule is
this step iterated to some depth, and `fuelFor` gives enough depth for a row of lexemes.
-/

namespace BuildScript.Node

/-- The next lexeme has the given kind and stands on the same line as the one before. -/
def continuesWith (kind : LexemeKind) : List Lexeme → Bool
  | l :: _ => l.kind = kind && !l.startsLine
  | [] => false

/-- A statement may end in front of these lexemes. -/
def terminated : List Lexeme → Bool
  | [] => true
  | l :: _ => l.startsLine || l.kind = .semicolon || l.kind = .braceClose

/-- The head of the node that a lexeme introduces. -/
def headOf (l : Lexeme) : Head := Head.new (l.start + 1) l.lead

/-- The lexemes that a verbatim statement takes beyond those read so far, and the rest. `depth`
counts the open brackets. -/
def verbatimRest (inClosure : Bool) : Nat → List Lexeme → List Lexeme × List Lexeme
  | _, [] => ([], [])
  | depth, l :: rest =>
    if depth = 0 && (l.startsLine || (inClosure && l.kind = .braceClose)) then ([], l :: rest)
    else
      let depth := l.kind.depthAfter depth
      if l.kind = .semicolon && depth = 0 then ([l], rest)
      else
        let (taken, left) := verbatimRest inClosure depth rest
        (l :: taken, left)

/-- A statement kept as it is: up to a line break or `;` outside brackets, or up to the brace that
closes the enclosing closure. -/
def verbatim (inClosure : Bool) (l : Lexeme) (rest : List Lexeme) : Node × List Lexeme :=
  if l.kind = .semicolon then (raw (headOf l) l.text, rest)
  else
    let (taken, left) := verbatimRest inClosure (l.kind.depthAfter 0) rest
    (raw (headOf l) (l.text ++ Lexeme.writtenAll taken), left)

def isKeywordLiteral (word : String) : Bool := word = "true" || word = "false" || word = "null"

/-- Extends a name by the segments that follow it without blanks around the dots. -/
def dottedName (name : String) : List Lexeme → String × List Lexeme
  | dot :: segment :: rest =>
    if dot.kind = .dot && dot.adjoins && segment.kind = .word && segment.adjoins then
      dottedName (name ++ "." ++ segment.text) rest
    else (name, dot :: segment :: rest)
  | rest => (name, rest)

/-- Extends a name by a class reference `::member` that follows it without blanks. -/
def classReference (name : String) : List Lexeme → String × List Lexeme
  | first :: second :: member :: rest =>
    if first.kind = .colon && first.adjoins && second.kind = .colon && second.adjoins &&
        member.kind = .word && member.adjoins then
      (name ++ "::" ++ member.text, rest)
    else (name, first :: second :: member :: rest)
  | rest => (name, rest)

/-- The rest of a list of type arguments behind its first lexeme, with the closing bracket. -/
def typeArgumentsRest : List Lexeme → Option (String × List Lexeme)
  | [] => none
  | l :: rest =>
    if l.kind = .word || l.kind = .dot || l.kind = .comma then do
      let (text, left) ← typeArgumentsRest rest
      some (l.written ++ text, left)
    else if l.kind = .other && l.text = ">" then some (l.written, rest)
    else none

/-- Type arguments in angle brackets, directly behind a name and at least one lexeme long. They
count only in front of a parenthesis or brace on the same line. -/
def typeArguments : List Lexeme → Option (String × List Lexeme)
  | opening :: first :: rest =>
    if opening.kind = .other && opening.text = "<" && opening.adjoins &&
        (first.kind = .word || first.kind = .dot || first.kind = .comma) then do
      let (text, left) ← typeArgumentsRest rest
      if continuesWith .parenOpen left || continuesWith .braceOpen left then
        some (opening.text ++ first.written ++ text, left)
      else none
    else none
  | _ => none

/-- An argument without parentheses may start here. -/
def startsCommand : List Lexeme → Bool
  | l :: _ =>
    !l.startsLine && !l.adjoins && (l.kind = .quoted || l.kind = .number || l.kind = .word)
  | [] => false

/-- A literal or the word of a constant. -/
def constant? (l : Lexeme) : Option Node :=
  match l.kind with
  | .quoted => some (literal (headOf l) (.string (Text.quotedValue l.text)) l.text)
  | .number => some (literal (headOf l) (.number l.text) l.text)
  | .word =>
    if l.text = "true" then some (literal (headOf l) (.boolean true) l.text)
    else if l.text = "false" then some (literal (headOf l) (.boolean false) l.text)
    else if l.text = "null" then some (literal (headOf l) .null l.text)
    else none
  | _ => none

/-- A rule with what it is given to read. -/
inductive Query where
  /-- The next statement, verbatim if need be. -/
  | statementOrVerbatim (inClosure : Bool) (l : Lexeme) (rest : List Lexeme)
  /-- Statements up to the end, or up to the brace that closes the enclosing closure. -/
  | statements (inClosure : Bool) (ls : List Lexeme)
  | statement (l : Lexeme) (rest : List Lexeme)
  /-- A property that delegates to a call, all on one line. -/
  | delegated (keyword : Lexeme) (rest : List Lexeme)
  /-- What a name introduces: a call with arguments in parentheses, a closure or both, a call in the
  command form where `command` allows it, or nothing but the name. -/
  | callOrIdentifier (head : Head) (name : String) (command : Bool) (ls : List Lexeme)
  /-- Arguments in parentheses and a closure on the same line; one of them may be missing. -/
  | callRest (ls : List Lexeme)
  | parenthesized (ls : List Lexeme)
  /-- Arguments up to the closing parenthesis. -/
  | parenthesizedItems (ls : List Lexeme)
  /-- Arguments in the command form, as long as commas follow. -/
  | commandItems (ls : List Lexeme)
  /-- `name: value`, unless a second colon makes it a class reference, or an expression. -/
  | argument (ls : List Lexeme)
  | expression (ls : List Lexeme)
  /-- A closure with its braces. -/
  | closureBody (ls : List Lexeme)

namespace Query

/-- What the rule returns. -/
abbrev Answer : Query → Type
  | statementOrVerbatim _ _ _ => Node × List Lexeme
  | statements _ _ => List Node × List Lexeme
  | statement _ _ | delegated _ _ | callOrIdentifier _ _ _ _ | argument _ | expression _
  | closureBody _ => Option (Node × List Lexeme)
  | callRest _ => Option ((Option (Arguments Node) × Option Node) × List Lexeme)
  | parenthesized _ => Option (Arguments Node × List Lexeme)
  | parenthesizedItems _ | commandItems _ => Option (List (Argument Node) × List Lexeme)

/-- The rules, each with the given answers to what it asks of the others. -/
def step (ask : (q : Query) → q.Answer) : (q : Query) → q.Answer
  | statementOrVerbatim inClosure l rest =>
    match ask (statement l rest) with
    | some (node, left) => if terminated left then (node, left) else verbatim inClosure l rest
    | none => verbatim inClosure l rest
  | statements _ [] => ([], [])
  | statements inClosure (l :: rest) =>
    if inClosure && l.kind = .braceClose then ([], l :: rest)
    else
      let (node, left) := ask (statementOrVerbatim inClosure l rest)
      let (nodes, left) := ask (statements inClosure left)
      (node :: nodes, left)
  | statement l rest =>
    if l.kind = .word && !isKeywordLiteral l.text then
      match ask (delegated l rest) with
      | some reading => some reading
      | none =>
        let (name, left) := dottedName l.text rest
        match left with
        | operator :: left' =>
          if operator.kind = .equals then do
            let (value, left) ← ask (expression left')
            let target := identifier (Head.new (l.start + 1) "") name
            some (assignment (Head.new (operator.start + 1) l.lead) target operator.lead value,
              left)
          else ask (callOrIdentifier (headOf l) name true left)
        | [] => ask (callOrIdentifier (headOf l) name true left)
    else (constant? l).map fun node => (node, rest)
  | delegated keyword (property :: by' :: callee :: rest) =>
    if (keyword.text = "val" || keyword.text = "var") &&
        property.kind = .word && !property.startsLine &&
        by'.kind = .word && by'.text = "by" && !by'.startsLine &&
        callee.kind = .word && !callee.startsLine then
      let (name, left) := dottedName callee.text rest
      match ask (callOrIdentifier (headOf callee) name false left) with
      | some (call _ c, left) =>
        let delegate := ⟨keyword.text, property.lead, property.text, by'.lead, callee.lead⟩
        some (call (headOf keyword) { c with delegate := some delegate }, left)
      | _ => none
    else none
  | delegated _ _ => none
  | callOrIdentifier head name command ls =>
    match typeArguments ls with
    | some (text, left) => do
      let ((arguments, trailing), left) ← ask (callRest left)
      some (call head ⟨name, some text, arguments, trailing, none⟩, left)
    | none =>
      if continuesWith .parenOpen ls || continuesWith .braceOpen ls then do
        let ((arguments, trailing), left) ← ask (callRest ls)
        some (call head (.plain name arguments trailing), left)
      else if command && startsCommand ls then do
        let (items, left) ← ask (commandItems ls)
        some (call head (.plain name (some ⟨false, "", items, ""⟩) none), left)
      else some (identifier head name, ls)
  | callRest ls => do
    let (arguments, left) ←
      if continuesWith .parenOpen ls then do
        let (arguments, left) ← ask (parenthesized ls)
        some (some arguments, left)
      else some (none, ls)
    if continuesWith .braceOpen left then do
      let (body, left) ← ask (closureBody left)
      some ((arguments, some body), left)
    else some ((arguments, none), left)
  | parenthesized (opening :: next :: rest) =>
    if next.kind = .parenClose then some (⟨true, opening.lead, [], next.lead⟩, rest)
    else do
      let (items, left) ← ask (parenthesizedItems (next :: rest))
      some (⟨true, opening.lead, items, ""⟩, left)
  | parenthesized _ => none
  | parenthesizedItems ls => do
    let (node, left) ← ask (argument ls)
    match left with
    | [] => none
    | separator :: left =>
      if separator.kind = .comma then do
        let (items, left) ← ask (parenthesizedItems left)
        some (⟨node, separator.lead⟩ :: items, left)
      else if separator.kind = .parenClose then some ([⟨node, separator.lead⟩], left)
      else none
  | commandItems ls => do
    let (node, left) ← ask (argument ls)
    match left with
    | [] => some ([⟨node, ""⟩], [])
    | separator :: rest =>
      if separator.kind = .comma then do
        let (items, left) ← ask (commandItems rest)
        some (⟨node, separator.lead⟩ :: items, left)
      else some ([⟨node, ""⟩], separator :: rest)
  | argument (l :: colon :: rest) =>
    if l.kind = .word && colon.kind = .colon && rest.head?.map Lexeme.kind ≠ some .colon then do
      let (value, left) ← ask (expression rest)
      some (named (headOf l) l.text colon.lead value, left)
    else ask (expression (l :: colon :: rest))
  | argument ls => ask (expression ls)
  | expression (l :: rest) =>
    match constant? l with
    | some node => some (node, rest)
    | none =>
      if l.kind = .word then
        let (name, left) := dottedName l.text rest
        let (name, left) := classReference name left
        ask (callOrIdentifier (headOf l) name false left)
      else if l.kind = .braceOpen then ask (closureBody (l :: rest))
      else none
  | expression _ => none
  | closureBody (opening :: rest) =>
    match ask (statements true rest) with
    | (nodes, close :: left) =>
      if close.kind = .braceClose then some (closure (headOf opening) nodes close.lead, left)
      else none
    | (_, []) => none
  | closureBody _ => none

/-- The answers of rules that may not call any other. -/
def cutOff : (q : Query) → q.Answer
  | statementOrVerbatim inClosure l rest => verbatim inClosure l rest
  | statements _ ls => ([], ls)
  | statement _ _ | delegated _ _ | callOrIdentifier _ _ _ _ | argument _ | expression _
  | closureBody _ => none
  | callRest _ => none
  | parenthesized _ => none
  | parenthesizedItems _ | commandItems _ => none

/-- The answer of the rule at the given depth. -/
def answer : Nat → (q : Query) → q.Answer
  | 0, q => q.cutOff
  | fuel + 1, q => step (answer fuel) q

end Query

section Rules

variable (fuel : Nat) (inClosure : Bool) (l : Lexeme) (ls : List Lexeme)

def statementOrVerbatim : Node × List Lexeme :=
  Query.answer fuel (.statementOrVerbatim inClosure l ls)

def statements : List Node × List Lexeme := Query.answer fuel (.statements inClosure ls)

def statement : Option (Node × List Lexeme) := Query.answer fuel (.statement l ls)

def delegated : Option (Node × List Lexeme) := Query.answer fuel (.delegated l ls)

def callOrIdentifier (head : Head) (name : String) (command : Bool) (ls : List Lexeme) :
    Option (Node × List Lexeme) :=
  Query.answer fuel (.callOrIdentifier head name command ls)

def callRest : Option ((Option (Arguments Node) × Option Node) × List Lexeme) :=
  Query.answer fuel (.callRest ls)

def parenthesized : Option (Arguments Node × List Lexeme) := Query.answer fuel (.parenthesized ls)

def parenthesizedItems : Option (List (Argument Node) × List Lexeme) :=
  Query.answer fuel (.parenthesizedItems ls)

def commandItems : Option (List (Argument Node) × List Lexeme) :=
  Query.answer fuel (.commandItems ls)

def argument : Option (Node × List Lexeme) := Query.answer fuel (.argument ls)

def expression : Option (Node × List Lexeme) := Query.answer fuel (.expression ls)

def closureBody : Option (Node × List Lexeme) := Query.answer fuel (.closureBody ls)

end Rules

/-- A depth that the rules never exceed on these lexemes. -/
def fuelFor (ls : List Lexeme) : Nat := 8 * ls.length + 8

/-- The statements of a script and the trivia behind the last. -/
def parseScript (script : String) : List Node × String :=
  let (lexemes, tail) := Lexeme.scan script
  ((statements (fuelFor lexemes) false lexemes).1, tail)

/-- The statements of a fragment; trivia behind the last is dropped. -/
def parseSnippet (snippet : String) : List Node := (parseScript snippet).1

end BuildScript.Node
