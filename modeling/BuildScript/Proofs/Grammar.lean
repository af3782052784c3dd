import BuildScript.Node.Parse
import BuildScript.Node.Print
import Mathlib.Data.List.Basic

/-!
# The grammar of build scripts

A relation between the parts of a tree and the lexemes that spell them. It does not look at where
the lexemes stand in a script or at the names of nodes, so it also covers trees that were edited.
Whatever is spelled by some lexemes prints as they are written.
-/

namespace BuildScript

def LexemeKind.mark? : LexemeKind → Option String
  | braceOpen => some "\x7b"
  | braceClose => some "\x7d"
  | parenOpen => some "("
  | parenClose => some ")"
  | bracketOpen => some "["
  | bracketClose => some "]"
  | comma => some ","
  | dot => some "."
  | colon => some ":"
  | semicolon => some ";"
  | equals => some "="
  | word | quoted | number | other => none

namespace Lexeme

/-- The lexeme is a mark of the given kind, which is always written in the same way. -/
def Marks (l : Lexeme) (kind : LexemeKind) (text : String) : Prop := l.kind = kind ∧ l.text = text

def Formed (l : Lexeme) : Prop := ∀ text, l.kind.mark? = some text → l.text = text

theorem Formed.marks {l : Lexeme} {kind : LexemeKind} {text : String} (h : l.Formed)
    (is : l.kind = kind) (mark : kind.mark? = some text) : l.Marks kind text :=
  ⟨is, h text (is ▸ mark)⟩

@[simp] theorem writtenAll_nil : writtenAll [] = "" := rfl

@[simp] theorem writtenAll_cons (l : Lexeme) (ls : List Lexeme) :
    writtenAll (l :: ls) = l.lead ++ l.text ++ writtenAll ls := rfl

@[simp] theorem writtenAll_append (ls ms : List Lexeme) :
    writtenAll (ls ++ ms) = writtenAll ls ++ writtenAll ms := by
  induction ls with
  | nil => simp
  | cons l ls ih => simp [ih, String.append_assoc]

theorem adjoins_iff {l : Lexeme} : l.adjoins = true ↔ l.lead = "" := by
  simp [adjoins]

end Lexeme

namespace Node

def isRaw : Node → Bool
  | raw _ _ => true
  | _ => false

inductive Segments : String → List Lexeme → String → Prop
  | nil (name : String) : Segments name [] name
  | cons {start name : String} {dot segment : Lexeme} {ts : List Lexeme}
      (mark : dot.Marks .dot ".") (first : dot.lead = "")
      (word : segment.kind = .word) (second : segment.lead = "")
      (more : Segments (start ++ "." ++ segment.text) ts name) :
      Segments start (dot :: segment :: ts) name

/-- Segments and the class reference that may follow them. -/
inductive Reference : String → List Lexeme → String → Prop
  | plain {start name : String} {ts : List Lexeme} (segments : Segments start ts name) :
      Reference start ts name
  | member {start name : String} {ts : List Lexeme} {first second word : Lexeme}
      (segments : Segments start ts name)
      (mark : first.Marks .colon ":") (near : first.lead = "")
      (mark' : second.Marks .colon ":") (near' : second.lead = "")
      (kind : word.kind = .word) (near'' : word.lead = "") :
      Reference start (ts ++ [first, second, word]) (name ++ "::" ++ word.text)

/-- A lexeme that may stand between the brackets of type arguments. -/
def InTypes (l : Lexeme) : Prop := l.kind = .word ∨ l.kind = .dot ∨ l.kind = .comma

inductive Types : String → List Lexeme → Prop
  | mk {opening first close : Lexeme} {ts : List Lexeme}
      (mark : opening.Marks .other "<") (near : opening.lead = "")
      (inside : ∀ l ∈ first :: ts, InTypes l) (mark' : close.Marks .other ">") :
      Types ("<" ++ Lexeme.writtenAll (first :: ts ++ [close])) (opening :: first :: ts ++ [close])

/-- The parts of a tree that the grammar has rules for. -/
inductive Phrase where
  | statements (nodes : List Node)
  | statement (node : Node)
  | expression (node : Node)
  | argument (node : Node)
  /-- A closure with its braces. -/
  | block (node : Node)
  /-- Arguments with their parentheses. -/
  | parenthesized (arguments : Arguments Node)
  /-- Arguments up to and with the closing parenthesis. -/
  | items (list : List (Argument Node))
  /-- Arguments of the command form. -/
  | command (list : List (Argument Node))
  /-- What stands behind the name of a call and its type arguments. -/
  | rest (arguments : Option (Arguments Node)) (closure : Option Node)
  /-- What stands behind the name of a call. -/
  | tail (typeArguments : Option String) (arguments : Option (Arguments Node))
      (closure : Option Node)

def IsName (l : Lexeme) : Prop := l.kind = .word ∧ isKeywordLiteral l.text = false

inductive Spelled : Phrase → List Lexeme → Prop
  | constant {l : Lexeme} {h : Head} {value : LiteralValue} {source : String}
      (is : constant? l = some (.literal (headOf l) value source)) (lead : h.lead = l.lead) :
      Spelled (.expression (.literal h value source)) [l]
  | identifier {l : Lexeme} {h : Head} {name : String} {ts : List Lexeme}
      (word : IsName l) (lead : h.lead = l.lead) (reference : Reference l.text ts name) :
      Spelled (.expression (.identifier h name)) (l :: ts)
  | call {l : Lexeme} {h : Head} {name : String} {ts us : List Lexeme} {types : Option String}
      {arguments : Option (Arguments Node)} {closure : Option Node}
      (word : IsName l) (lead : h.lead = l.lead) (reference : Reference l.text ts name)
      (tail : Spelled (.tail types arguments closure) us) :
      Spelled (.expression (.call h ⟨name, types, arguments, closure, none⟩)) (l :: ts ++ us)
  | closure {node : Node} {ts : List Lexeme} (block : Spelled (.block node) ts) :
      Spelled (.expression node) ts
  | block {opening close : Lexeme} {h : Head} {nodes : List Node} {ts : List Lexeme}
      (mark : opening.Marks .braceOpen "\x7b") (lead : h.lead = opening.lead)
      (inside : Spelled (.statements nodes) ts) (mark' : close.Marks .braceClose "\x7d") :
      Spelled (.block (.closure h nodes close.lead)) (opening :: ts ++ [close])
  | named {l colon : Lexeme} {h : Head} {value : Node} {ts : List Lexeme}
      (word : l.kind = .word) (lead : h.lead = l.lead) (mark : colon.Marks .colon ":")
      (is : Spelled (.expression value) ts) :
      Spelled (.argument (.named h l.text colon.lead value)) (l :: colon :: ts)
  | unnamed {node : Node} {ts : List Lexeme} (is : Spelled (.expression node) ts) :
      Spelled (.argument node) ts
  | last {node : Node} {close : Lexeme} {ts : List Lexeme}
      (is : Spelled (.argument node) ts) (mark : close.Marks .parenClose ")") :
      Spelled (.items [⟨node, close.lead⟩]) (ts ++ [close])
  | item {node : Node} {comma : Lexeme} {items : List (Argument Node)} {ts us : List Lexeme}
      (is : Spelled (.argument node) ts) (mark : comma.Marks .comma ",")
      (more : Spelled (.items items) us) :
      Spelled (.items (⟨node, comma.lead⟩ :: items)) (ts ++ comma :: us)
  | lastCommand {node : Node} {ts : List Lexeme} (is : Spelled (.argument node) ts) :
      Spelled (.command [⟨node, ""⟩]) ts
  | command {node : Node} {comma : Lexeme} {items : List (Argument Node)} {ts us : List Lexeme}
      (is : Spelled (.argument node) ts) (mark : comma.Marks .comma ",")
      (more : Spelled (.command items) us) :
      Spelled (.command (⟨node, comma.lead⟩ :: items)) (ts ++ comma :: us)
  | empty {opening close : Lexeme} (mark : opening.Marks .parenOpen "(")
      (mark' : close.Marks .parenClose ")") :
      Spelled (.parenthesized ⟨true, opening.lead, [], close.lead⟩) [opening, close]
  | items {opening : Lexeme} {items : List (Argument Node)} {ts : List Lexeme}
      (mark : opening.Marks .parenOpen "(") (inside : Spelled (.items items) ts) :
      Spelled (.parenthesized ⟨true, opening.lead, items, ""⟩) (opening :: ts)
  | arguments {opening : Lexeme} {arguments : Arguments Node} {ts : List Lexeme}
      (is : Spelled (.parenthesized arguments) (opening :: ts))
      (line : opening.startsLine = false) :
      Spelled (.rest (some arguments) none) (opening :: ts)
  | body {opening : Lexeme} {node : Node} {ts : List Lexeme}
      (is : Spelled (.block node) (opening :: ts)) (line : opening.startsLine = false) :
      Spelled (.rest none (some node)) (opening :: ts)
  | both {opening opening' : Lexeme} {arguments : Arguments Node} {node : Node}
      {ts us : List Lexeme} (is : Spelled (.parenthesized arguments) (opening :: ts))
      (line : opening.startsLine = false) (is' : Spelled (.block node) (opening' :: us))
      (line' : opening'.startsLine = false) :
      Spelled (.rest (some arguments) (some node)) (opening :: ts ++ opening' :: us)
  | untyped {arguments : Option (Arguments Node)} {closure : Option Node} {ts : List Lexeme}
      (is : Spelled (.rest arguments closure) ts) : Spelled (.tail none arguments closure) ts
  | typed {text : String} {arguments : Option (Arguments Node)} {closure : Option Node}
      {ts us : List Lexeme} (types : Types text ts) (is : Spelled (.rest arguments closure) us) :
      Spelled (.tail (some text) arguments closure) (ts ++ us)
  | constantStatement {l : Lexeme} {h : Head} {value : LiteralValue} {source : String}
      (is : constant? l = some (.literal (headOf l) value source)) (lead : h.lead = l.lead) :
      Spelled (.statement (.literal h value source)) [l]
  | identifierStatement {l : Lexeme} {h : Head} {name : String} {ts : List Lexeme}
      (word : IsName l) (lead : h.lead = l.lead) (segments : Segments l.text ts name) :
      Spelled (.statement (.identifier h name)) (l :: ts)
  | callStatement {l : Lexeme} {h : Head} {name : String} {ts us : List Lexeme}
      {types : Option String} {arguments : Option (Arguments Node)} {closure : Option Node}
      (word : IsName l) (lead : h.lead = l.lead) (segments : Segments l.text ts name)
      (tail : Spelled (.tail types arguments closure) us) :
      Spelled (.statement (.call h ⟨name, types, arguments, closure, none⟩)) (l :: ts ++ us)
  | commandStatement {l : Lexeme} {h : Head} {name : String} {items : List (Argument Node)}
      {ts us : List Lexeme}
      (word : IsName l) (lead : h.lead = l.lead) (segments : Segments l.text ts name)
      (starts : startsCommand us = true) (inside : Spelled (.command items) us) :
      Spelled (.statement (.call h ⟨name, none, some ⟨false, "", items, ""⟩, none, none⟩))
        (l :: ts ++ us)
  | delegated {keyword property by' callee : Lexeme} {h : Head} {name : String}
      {types : Option String} {arguments : Option (Arguments Node)} {closure : Option Node}
      {ts us : List Lexeme} (word : keyword.kind = .word)
      (is : keyword.text = "val" ∨ keyword.text = "var") (lead : h.lead = keyword.lead)
      (word' : property.kind = .word) (line : property.startsLine = false)
      (mark : by'.Marks .word "by") (line' : by'.startsLine = false) (word'' : callee.kind = .word)
      (line'' : callee.startsLine = false) (segments : Segments callee.text ts name)
      (tail : Spelled (.tail types arguments closure) us) :
      Spelled (.statement (.call h ⟨name, types, arguments, closure,
        some ⟨keyword.text, property.lead, property.text, by'.lead, callee.lead⟩⟩))
        (keyword :: property :: by' :: callee :: ts ++ us)
  | assignment {l operator : Lexeme} {h h' : Head} {name : String} {value : Node}
      {ts us : List Lexeme} (word : IsName l) (lead : h.lead = l.lead) (lead' : h'.lead = "")
      (segments : Segments l.text ts name) (mark : operator.Marks .equals "=")
      (is : Spelled (.expression value) us) :
      Spelled (.statement (.assignment h (.identifier h' name) operator.lead value))
        (l :: ts ++ operator :: us)
  | raw {l : Lexeme} {h : Head} {ts : List Lexeme} (lead : h.lead = l.lead) :
      Spelled (.statement (.raw h (l.text ++ Lexeme.writtenAll ts))) (l :: ts)
  | nil : Spelled (.statements []) []
  | cons {node : Node} {nodes : List Node} {ts us : List Lexeme}
      (first : Spelled (.statement node) ts) (ends : node.isRaw = true ∨ terminated us = true)
      (more : Spelled (.statements nodes) us) :
      Spelled (.statements (node :: nodes)) (ts ++ us)

def printArguments : Option (Arguments Node) → String
  | none => ""
  | some ⟨true, lead, items, tail⟩ => lead ++ "(" ++ printItems items ++ tail ++ ")"
  | some ⟨false, lead, items, _⟩ => lead ++ printItems items

def printClosure : Option Node → String
  | none => ""
  | some node => node.print

theorem print_call (h : Head) (c : Call Node) :
    (call h c).print = h.lead ++ Delegate.print c.delegate ++ c.name ++ c.typeArguments.getD "" ++
      printArguments c.arguments ++ printClosure c.closure := by
  rcases c with ⟨name, types, _ | ⟨_ | _, lead, items, tail⟩, _ | body, delegate⟩ <;> rfl

def Phrase.print : Phrase → String
  | statements nodes => printAll nodes
  | statement node | expression node | argument node | block node => node.print
  | parenthesized arguments => printArguments (some arguments)
  | items list => printItems list ++ ")"
  | command list => printItems list
  | rest arguments body => printArguments arguments ++ printClosure body
  | tail types arguments body => types.getD "" ++ printArguments arguments ++ printClosure body

theorem Segments.append_written {start name : String} {ts : List Lexeme}
    (h : Segments start ts name) :
    name = start ++ Lexeme.writtenAll ts := by
  induction h with
  | nil name => simp
  | cons mark first word second more ih =>
    rw [ih]
    simp [mark.2, first, second, String.append_assoc]

theorem Reference.append_written {start name : String} {ts : List Lexeme}
    (h : Reference start ts name) :
    name = start ++ Lexeme.writtenAll ts := by
  cases h with
  | plain segments => exact segments.append_written
  | member segments mark near mark' near' kind near'' =>
    have hcolons (text : String) : "::" ++ text = ":" ++ (":" ++ text) := by
      rw [← String.append_assoc]
      rfl
    rw [segments.append_written]
    simp [mark.2, mark'.2, near, near', near'', hcolons, String.append_assoc]

theorem Types.eq_written {text : String} {ts : List Lexeme} (h : Types text ts) :
    text = Lexeme.writtenAll ts := by
  cases h with
  | mk mark near inside mark' => simp [mark.2, near, String.append_assoc]

theorem Spelled.items_ne_nil {items : List (Argument Node)} {ts : List Lexeme}
    (h : Spelled (.items items) ts) : items ≠ [] := by
  cases h <;> simp

theorem Spelled.command_ne_nil {items : List (Argument Node)} {ts : List Lexeme}
    (h : Spelled (.command items) ts) : items ≠ [] := by
  cases h <;> simp

theorem printItems_cons {node : Node} {trail : String} {items : List (Argument Node)}
    (h : items ≠ []) :
    printItems (⟨node, trail⟩ :: items) = node.print ++ trail ++ "," ++ printItems items := by
  cases items with
  | nil => exact absurd rfl h
  | cons item rest => rfl

theorem source_of_constant? {l : Lexeme} {value : LiteralValue} {source : String}
    (h : constant? l = some (.literal (headOf l) value source)) : source = l.text := by
  unfold constant? at h
  split at h
  · simp_all
  · simp_all
  · split_ifs at h <;> simp_all
  · cases h

/-- A part of a tree prints as the lexemes that spell it are written. -/
theorem Spelled.print_eq {phrase : Phrase} {ts : List Lexeme} (h : Spelled phrase ts) :
    phrase.print = Lexeme.writtenAll ts := by
  induction h with
  | constant is lead => simp [Phrase.print, Node.print, lead, source_of_constant? is]
  | identifier word lead reference =>
    simp [Phrase.print, Node.print, lead, reference.append_written, String.append_assoc]
  | call word lead reference tail ih =>
    rw [Phrase.print, print_call]
    simp [Phrase.print, Delegate.print] at ih ⊢
    simp [lead, reference.append_written, ← ih, String.append_assoc]
  | closure block ih => exact ih
  | block mark lead inside mark' ih =>
    simp only [Phrase.print] at ih
    simp [Phrase.print, Node.print, lead, mark.2, mark'.2, ih, String.append_assoc]
  | named word lead mark is ih =>
    simp only [Phrase.print] at ih
    simp [Phrase.print, Node.print, lead, mark.2, ih, String.append_assoc]
  | unnamed is ih => exact ih
  | last is mark ih =>
    simp only [Phrase.print] at ih
    simp [Phrase.print, printItems, mark.2, ih, String.append_assoc]
  | item is mark more ih ih' =>
    simp only [Phrase.print] at ih ih'
    simp [Phrase.print, printItems_cons more.items_ne_nil, mark.2, ih, ← ih', String.append_assoc]
  | lastCommand is ih =>
    simp only [Phrase.print] at ih
    simp [Phrase.print, printItems, ih]
  | command is mark more ih ih' =>
    simp only [Phrase.print] at ih ih'
    simp [Phrase.print, printItems_cons more.command_ne_nil, mark.2, ih, ← ih', String.append_assoc]
  | empty mark mark' =>
    simp [Phrase.print, printArguments, printItems, mark.2, mark'.2, String.append_assoc]
  | items mark inside ih =>
    simp only [Phrase.print] at ih
    simp [Phrase.print, printArguments, mark.2, ← ih, String.append_assoc]
  | arguments is line ih => simpa [Phrase.print, printClosure] using ih
  | body is line ih => simpa [Phrase.print, printArguments, printClosure] using ih
  | both is line is' line' ih ih' =>
    simp only [Phrase.print] at ih ih'
    rw [Lexeme.writtenAll_append, ← ih, ← ih']
    rfl
  | untyped is ih => simpa [Phrase.print] using ih
  | typed types is ih =>
    simp only [Phrase.print] at ih
    simp [Phrase.print, types.eq_written, ← ih, String.append_assoc]
  | constantStatement is lead => simp [Phrase.print, Node.print, lead, source_of_constant? is]
  | identifierStatement word lead segments =>
    simp [Phrase.print, Node.print, lead, segments.append_written, String.append_assoc]
  | callStatement word lead segments tail ih =>
    rw [Phrase.print, print_call]
    simp [Phrase.print, Delegate.print] at ih ⊢
    simp [lead, segments.append_written, ← ih, String.append_assoc]
  | commandStatement word lead segments starts inside ih =>
    rw [Phrase.print, print_call]
    simp only [Phrase.print] at ih
    simp [lead, segments.append_written, ← ih, Delegate.print, printArguments, printClosure,
      String.append_assoc]
  | delegated word is lead word' line mark line' word'' line'' segments tail ih =>
    rw [Phrase.print, print_call]
    simp [Phrase.print, Delegate.print] at ih ⊢
    simp [lead, segments.append_written, mark.2, ← ih, String.append_assoc]
  | assignment word lead lead' segments mark is ih =>
    simp only [Phrase.print] at ih
    simp [Phrase.print, Node.print, lead, lead', segments.append_written, mark.2, ih,
      String.append_assoc]
  | raw lead => simp [Phrase.print, Node.print, lead, String.append_assoc]
  | nil => rfl
  | cons first ends more ih ih' =>
    simp only [Phrase.print] at ih ih'
    simp [Phrase.print, printAll, ih, ih']

end Node

end BuildScript
