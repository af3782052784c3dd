import BuildScript.Proofs.Lossless
import BuildScript.Proofs.Splicing
import BuildScript.Proofs.Subtrees

/-!
# Parsed trees

Beside names and literals a parsed tree keeps the blanks and comments in front of its lexemes. Its
nodes are where the grammar has a place for their kind: a verbatim node is a statement, a named
argument belongs to a call, and a closure is no statement of its own. A file is no node, so it is
never below one.
-/

namespace BuildScript

namespace Lexeme

variable {row more trivia : List Stretch} {script : String} {l : Lexeme}

def IsGap (text : String) : Prop := (scan text).1 = []

theorem isGap_empty : IsGap "" := rfl

theorem stops_of_takeWhile {p : Char → Bool} {body text : List Char}
    (h : ((body ++ text).takeWhile p).length = body.length) :
    (∀ c ∈ body, p c = true) ∧ Stops p text := by
  induction body with
  | nil =>
    refine ⟨by simp, ?_⟩
    rintro c rest rfl
    by_contra hc
    simp [hc] at h
  | cons c body ih =>
    cases hc : p c with
    | true =>
      simp only [List.cons_append, List.takeWhile_cons, hc, if_true, List.length_cons,
        Nat.add_right_cancel_iff] at h
      exact ⟨List.forall_mem_cons.mpr ⟨hc, (ih h).1⟩, (ih h).2⟩
    | false => simp [hc] at h

theorem Stops.left {p : Char → Bool} {text other : List Char} (h : Stops p (text ++ other)) :
    Stops p text := by
  rintro c rest rfl
  exact h c (rest ++ other) rfl

/-- Trivia is the same in a text that ends earlier. -/
theorem munch_trivia_left {c : Char} {body text other : List Char}
    (h : munch c (body ++ (text ++ other)) = (none, body.length)) :
    munch c (body ++ text) = (none, body.length) := by
  have hrule : Rule c (body ++ (text ++ other)) none body.length := by
    have hrule := rule_munch c (body ++ (text ++ other))
    rwa [h] at hrule
  refine munch_of_rule ?_ (by simp)
  generalize hlength : body.length = n at hrule
  cases hrule with
  | space is =>
    obtain ⟨hbody, hstops⟩ := stops_of_takeWhile hlength.symm
    rw [← hlength]
    have hspace := @Rule.space c (body ++ text) is
    rwa [takeWhile_of_stops hbody hstops.left] at hspace
  | @line rest is behind =>
    cases body with
    | nil =>
      rw [List.length_nil] at hlength
      omega
    | cons d body =>
      obtain ⟨rfl, rfl⟩ := List.cons.inj behind
      rw [List.length_cons, Nat.add_comm, Nat.add_left_cancel_iff] at hlength
      obtain ⟨hbody, hstops⟩ := stops_of_takeWhile hlength.symm
      have hline := @Rule.line c ('/' :: body ++ text) (body ++ text) is rfl
      rw [← hlength]
      rwa [takeWhile_of_stops hbody hstops.left] at hline
  | @comment rest n is behind closed =>
    cases body with
    | nil =>
      rw [List.length_nil] at hlength
      omega
    | cons d body =>
      obtain ⟨rfl, rfl⟩ := List.cons.inj behind
      rw [List.length_cons] at hlength
      exact .comment is rfl (commentRest_append closed (by omega) text)

/-- Each stretch that has a lexical rule is what the rules take from there on. -/
def Ruled : List Stretch → Prop
  | [] => True
  | s :: row =>
    (s.kind ≠ some .other →
      ∃ c body, s.chars = c :: body ∧ munch c (body ++ flat row) = (s.kind, body.length)) ∧
      Ruled row

theorem ruled_joinOther (h : Cut row) : Ruled (joinOther row) := by
  fun_induction joinOther row with
  | case1 => trivial
  | case2 chars rest more joined hjoined ih =>
    have hrest := ih h.2
    rw [hjoined] at hrest
    exact ⟨fun hkind => absurd rfl hkind, hrest.2⟩
  | case3 kind chars rest hne ih =>
    refine ⟨fun _ => ?_, ih h.2⟩
    rw [flat_joinOther]
    exact h.1

theorem Ruled.right (h : Ruled (row ++ more)) : Ruled more := by
  induction row with
  | nil => exact h
  | cons s row ih => exact ih h.2

theorem Ruled.cut_trivia (h : Ruled (trivia ++ more)) (htrivia : ∀ s ∈ trivia, s.kind = none) :
    Cut trivia := by
  induction trivia with
  | nil => trivial
  | cons s trivia ih =>
    rw [List.cons_append] at h
    rw [List.forall_mem_cons] at htrivia
    obtain ⟨c, body, hchars, hmunch⟩ := h.1 (by simp [htrivia.1])
    rw [htrivia.1, flat_append] at hmunch
    refine ⟨⟨c, body, hchars, ?_⟩, ih h.2 htrivia.2⟩
    rw [htrivia.1]
    exact munch_trivia_left hmunch

theorem isGap_of_trivia (hcut : Cut trivia) (htrivia : ∀ s ∈ trivia, s.kind = none) :
    IsGap (String.ofList (flat trivia)) := by
  have hapart : Apart trivia := apart_of_ne fun s hs => by simp [htrivia s hs]
  rw [IsGap, scan_flat hcut hapart, ofStretches_trivia htrivia]

theorem ruled_joined (script : String) :
    Ruled (joined script) := ruled_joinOther (cut_stretches (Nat.le_refl _)).2

/-- Where a lexeme of a script comes from. -/
theorem exists_joined (hl : l ∈ (scan script).1) :
    ∃ front trivia behind,
      joined script = front ++ (trivia ++ ⟨some l.kind, l.text.toList⟩ :: behind) ∧
      (∀ s ∈ trivia, s.kind = none) ∧ l.lead = String.ofList (flat trivia) := by
  obtain ⟨before, after, hls⟩ := List.append_of_mem hl
  have hscan : ofStretches 0 [] (joined script) =
      (before ++ l :: after, (ofStretches 0 [] (joined script)).2) := by
    rw [← hls, scan_eq]
  obtain ⟨front, behind, hrow, -, hbehind, -⟩ := exists_split hscan
  obtain ⟨trivia, behind, rfl, htrivia, hlead, -, -, -⟩ := exists_first hbehind
  exact ⟨front, trivia, behind, hrow, htrivia, by simpa using hlead⟩

/-- Only blanks and comments stand in front of a lexeme. -/
theorem isGap_lead (hl : l ∈ (scan script).1) : IsGap l.lead := by
  obtain ⟨front, trivia, behind, hrow, htrivia, hlead⟩ := exists_joined hl
  have hruled := hrow ▸ ruled_joined script
  rw [hlead]
  exact isGap_of_trivia (hruled.right.cut_trivia htrivia) htrivia

/-- Only blanks and comments stand behind the last lexeme. -/
theorem isGap_tail (script : String) : IsGap (scan script).2 := by
  have hscan : ofStretches 0 [] (joined script) =
      ((scan script).1 ++ [], (ofStretches 0 [] (joined script)).2) := by
    rw [List.append_nil, scan_eq]
  obtain ⟨front, behind, hrow, -, hbehind, -⟩ := exists_split hscan
  have htrivia := trivia_of_ofStretches hbehind
  rw [ofStretches_trivia htrivia, List.nil_append, Prod.mk.injEq] at hbehind
  have hruled : Ruled (behind ++ []) := by
    rw [List.append_nil]
    exact (hrow ▸ ruled_joined script).right
  have hgap := isGap_of_trivia (hruled.cut_trivia htrivia) htrivia
  rw [scan_eq]
  rwa [hbehind.2] at hgap

end Lexeme

variable {α : Type}

def Arguments.gaps (a : Arguments α) : List String := a.lead :: a.tail :: a.items.map Argument.trail

def Delegate.gaps (d : Delegate) : List String := [d.propertyLead, d.byLead, d.callLead]

namespace Node

/-- The texts between the lexemes of a node, those of its children apart. -/
def gaps : Node → List String
  | call h c =>
    h.lead :: c.arguments.toList.flatMap Arguments.gaps ++ c.delegate.toList.flatMap Delegate.gaps
  | closure h _ tail => [h.lead, tail]
  | named h _ colonLead _ => [h.lead, colonLead]
  | assignment h _ operatorLead _ => [h.lead, operatorLead]
  | literal h _ _ | identifier h _ | raw h _ => [h.lead]

def isValue (n : Node) : Bool := !n.isRaw && !n.isNamed

def isStatement (n : Node) : Bool := !n.isNamed && !n.isClosure

/-- The children of a node are of the kinds that the grammar allows in their places. -/
def Arranged : Node → Prop
  | call _ c => (∀ a ∈ c.argumentNodes, a.isRaw = false) ∧ ∀ b ∈ c.closure, b.isClosure = true
  | closure _ statements _ => ∀ s ∈ statements, s.isStatement = true
  | named _ _ _ value => value.isValue = true
  | assignment _ target _ value =>
    target.isIdentifier = true ∧ target.lead = "" ∧ value.isValue = true
  | literal _ _ _ | identifier _ _ | raw _ _ => True

def InFront (ls : List Lexeme) (text : String) : Prop := text = "" ∨ ∃ l ∈ ls, l.lead = text

structure ReadFrom (ls : List Lexeme) (n : Node) : Prop where
  gaps : ∀ text ∈ n.gaps, InFront ls text
  constant : ∀ h value source, n = literal h value source →
    ∃ l ∈ ls, constant? l = some (literal (headOf l) value source)
  arranged : n.Arranged

section Reading

variable {ls ts : List Lexeme} {l : Lexeme} {h : Head} {n : Node} {name : String}
    {types : Option String}
  {arguments : Option (Arguments Node)} {body : Option Node} {delegate : Option Delegate}

structure ArgumentFrom (ls : List Lexeme) (a : Argument Node) : Prop where
  trail : InFront ls a.trail
  isRaw : a.node.isRaw = false
  all : a.node.All (ReadFrom ls)

structure ArgumentsFrom (ls : List Lexeme) (a : Arguments Node) : Prop where
  lead : InFront ls a.lead
  tail : InFront ls a.tail
  items : ∀ item ∈ a.items, ArgumentFrom ls item

def Phrase.From (ls : List Lexeme) : Phrase → Prop
  | statements nodes => ∀ s ∈ nodes, s.All (ReadFrom ls)
  | statement node | expression node | argument node | block node => node.All (ReadFrom ls)
  | parenthesized arguments => ArgumentsFrom ls arguments
  | items list | command list => ∀ item ∈ list, ArgumentFrom ls item
  | rest arguments body | tail _ arguments body =>
    (∀ a ∈ arguments, ArgumentsFrom ls a) ∧ ∀ b ∈ body, b.All (ReadFrom ls)

theorem inFront_lead (hl : l ∈ ls) : InFront ls l.lead := Or.inr ⟨l, hl, rfl⟩

theorem Spelled.expression_isValue (h : Spelled (.expression n) ts) : n.isValue = true := by
  cases h with
  | closure block =>
    cases block with
    | block mark lead inside mark' => rfl
  | _ => rfl

theorem Spelled.argument_isRaw (h : Spelled (.argument n) ts) : n.isRaw = false := by
  cases h with
  | named word lead mark is => rfl
  | unnamed is =>
    have hvalue := is.expression_isValue
    simp only [isValue, Bool.and_eq_true, Bool.not_eq_true'] at hvalue
    exact hvalue.1

theorem all_literal {value : LiteralValue} {source : String} (hl : l ∈ ls)
    (is : constant? l = some (literal (headOf l) value source)) (lead : h.lead = l.lead) :
    (literal h value source).All (ReadFrom ls) := by
  refine all_iff.mpr ⟨⟨?_, ?_, trivial⟩, List.forall_mem_nil _⟩
  · exact List.forall_mem_singleton.mpr (lead ▸ inFront_lead hl)
  · rintro _ _ _ ⟨⟩
    exact ⟨l, hl, is⟩

theorem all_identifier (hlead : InFront ls h.lead) : (identifier h name).All (ReadFrom ls) := by
  refine all_iff.mpr ⟨⟨List.forall_mem_singleton.mpr hlead, ?_, trivial⟩, List.forall_mem_nil _⟩
  rintro _ _ _ ⟨⟩

theorem all_call_from (hlead : InFront ls h.lead) (hbody : ∀ b ∈ body, b.isClosure = true)
    (htail : (Phrase.tail types arguments body).From ls)
    (hdelegate : ∀ d ∈ delegate, ∀ text ∈ d.gaps, InFront ls text) :
    (call h ⟨name, types, arguments, body, delegate⟩).All (ReadFrom ls) := by
  obtain ⟨harguments, hbodies⟩ := htail
  have hitem : ∀ a ∈ Call.argumentNodes ⟨name, types, arguments, body, delegate⟩,
      a.isRaw = false ∧ a.All (ReadFrom ls) := by
    intro a ha
    cases arguments with
    | none => cases ha
    | some arguments =>
      obtain ⟨item, hitem, rfl⟩ := List.mem_map.mp ha
      have hfrom := (harguments arguments rfl).items item hitem
      exact ⟨hfrom.isRaw, hfrom.all⟩
  refine all_call.mpr ⟨⟨?_, ?_, ?_⟩, fun a ha => (hitem a ha).2, hbodies⟩
  · simp only [gaps, List.cons_append, List.forall_mem_cons, List.forall_mem_append,
      List.forall_mem_flatMap, Option.mem_toList]
    refine ⟨hlead, fun a ha => ?_, hdelegate⟩
    have hfrom := harguments a ha
    simp only [Arguments.gaps, List.forall_mem_cons, List.forall_mem_map]
    exact ⟨hfrom.lead, hfrom.tail, fun item hmem => (hfrom.items item hmem).trail⟩
  · rintro _ _ _ ⟨⟩
  · exact ⟨fun a ha => (hitem a ha).1, hbody⟩

theorem Spelled.closure_of_tail (h : Spelled (.tail types arguments body) ts) :
    ∀ b ∈ body, b.isClosure = true := by
  have hall := h.tail_isClosure
  rintro b rfl
  exact hall

/-- A part of a tree is read from the lexemes that spell it. -/
theorem Spelled.readFrom {phrase : Phrase} (h : Spelled phrase ts) (hts : ∀ l ∈ ts, l ∈ ls) :
    phrase.From ls := by
  induction h with
  | constant is lead => exact all_literal (hts _ List.mem_cons_self) is lead
  | identifier word lead reference =>
    exact all_identifier (lead ▸ inFront_lead (hts _ List.mem_cons_self))
  | call word lead reference tail ih =>
    rw [List.forall_mem_append, List.forall_mem_cons] at hts
    exact all_call_from (lead ▸ inFront_lead hts.1.1) tail.closure_of_tail (ih hts.2) (by simp)
  | closure block ih => exact ih hts
  | @block opening close h nodes ts mark lead inside mark' ih =>
    rw [List.forall_mem_append, List.forall_mem_cons, List.forall_mem_singleton] at hts
    refine all_iff.mpr ⟨⟨?_, by rintro _ _ _ ⟨⟩, ?_⟩, ih hts.1.2⟩
    · simp only [gaps, List.forall_mem_cons]
      exact ⟨lead ▸ inFront_lead hts.1.1, inFront_lead hts.2, List.forall_mem_nil _⟩
    · intro s hs
      simp [isStatement, inside.statements_isNamed_isClosure s hs]
  | named word lead mark is ih =>
    rw [List.forall_mem_cons, List.forall_mem_cons] at hts
    refine all_iff.mpr ⟨⟨?_, by rintro _ _ _ ⟨⟩, is.expression_isValue⟩,
      List.forall_mem_singleton.mpr (ih hts.2.2)⟩
    simp only [gaps, List.forall_mem_cons]
    exact ⟨lead ▸ inFront_lead hts.1, inFront_lead hts.2.1, List.forall_mem_nil _⟩
  | unnamed is ih => exact ih hts
  | last is mark ih =>
    rw [List.forall_mem_append, List.forall_mem_singleton] at hts
    exact List.forall_mem_singleton.mpr ⟨inFront_lead hts.2, is.argument_isRaw, ih hts.1⟩
  | item is mark more ih ih' =>
    rw [List.forall_mem_append, List.forall_mem_cons] at hts
    exact List.forall_mem_cons.mpr ⟨⟨inFront_lead hts.2.1, is.argument_isRaw, ih hts.1⟩,
      ih' hts.2.2⟩
  | lastCommand is ih => exact List.forall_mem_singleton.mpr ⟨Or.inl rfl, is.argument_isRaw, ih hts⟩
  | command is mark more ih ih' =>
    rw [List.forall_mem_append, List.forall_mem_cons] at hts
    exact List.forall_mem_cons.mpr ⟨⟨inFront_lead hts.2.1, is.argument_isRaw, ih hts.1⟩,
      ih' hts.2.2⟩
  | empty mark mark' =>
    rw [List.forall_mem_cons, List.forall_mem_singleton] at hts
    exact ⟨inFront_lead hts.1, inFront_lead hts.2, List.forall_mem_nil _⟩
  | items mark inside ih =>
    rw [List.forall_mem_cons] at hts
    exact ⟨inFront_lead hts.1, Or.inl rfl, ih hts.2⟩
  | arguments is line ih =>
    refine ⟨?_, by simp⟩
    rintro _ ⟨⟩
    exact ih hts
  | body is line ih =>
    refine ⟨by simp, ?_⟩
    rintro _ ⟨⟩
    exact ih hts
  | both is line is' line' ih ih' =>
    rw [List.forall_mem_append] at hts
    refine ⟨?_, ?_⟩ <;> rintro _ ⟨⟩
    · exact ih hts.1
    · exact ih' hts.2
  | untyped is ih => exact ih hts
  | typed types is ih => exact ih (List.forall_mem_append.mp hts).2
  | constantStatement is lead => exact all_literal (hts _ List.mem_cons_self) is lead
  | identifierStatement word lead segments =>
    exact all_identifier (lead ▸ inFront_lead (hts _ List.mem_cons_self))
  | callStatement word lead segments tail ih =>
    rw [List.forall_mem_append, List.forall_mem_cons] at hts
    exact all_call_from (lead ▸ inFront_lead hts.1.1) tail.closure_of_tail (ih hts.2) (by simp)
  | commandStatement word lead segments starts inside ih =>
    rw [List.forall_mem_append, List.forall_mem_cons] at hts
    refine @all_call_from _ _ _ none _ _ _ (lead ▸ inFront_lead hts.1.1) (by simp) ⟨?_,
      by simp⟩ (by simp)
    rintro _ ⟨⟩
    exact ⟨Or.inl rfl, Or.inl rfl, ih hts.2⟩
  | delegated word is lead word' line mark line' word'' line'' segments tail ih =>
    simp only [List.cons_append, List.forall_mem_cons, List.forall_mem_append] at hts
    obtain ⟨hkeyword, hproperty, hby, hcallee, -, hus⟩ := hts
    refine all_call_from (lead ▸ inFront_lead hkeyword) tail.closure_of_tail (ih hus) ?_
    rintro _ ⟨⟩
    simp only [Delegate.gaps, List.forall_mem_cons]
    exact ⟨inFront_lead hproperty, inFront_lead hby, inFront_lead hcallee, List.forall_mem_nil _⟩
  | assignment word lead lead' segments mark is ih =>
    rw [List.forall_mem_append, List.forall_mem_cons, List.forall_mem_cons] at hts
    refine all_iff.mpr ⟨⟨?_, by rintro _ _ _ ⟨⟩, rfl, lead', is.expression_isValue⟩, ?_⟩
    · simp only [gaps, List.forall_mem_cons]
      exact ⟨lead ▸ inFront_lead hts.1.1, inFront_lead hts.2.1, List.forall_mem_nil _⟩
    · simp only [children, List.forall_mem_cons]
      exact ⟨all_identifier (Or.inl lead'), ih hts.2.2, List.forall_mem_nil _⟩
  | raw lead =>
    refine all_iff.mpr ⟨⟨?_, by rintro _ _ _ ⟨⟩, trivial⟩, List.forall_mem_nil _⟩
    exact List.forall_mem_singleton.mpr (lead ▸ inFront_lead (hts _ List.mem_cons_self))
  | nil => exact List.forall_mem_nil _
  | cons first ends more ih ih' =>
    rw [List.forall_mem_append] at hts
    exact List.forall_mem_cons.mpr ⟨ih hts.1, ih' hts.2⟩

end Reading

end Node

namespace SourceFile

open Node

/-- Every node of a parsed file is read from the lexemes of the script. -/
theorem all_readFrom (path script : String) :
    (parse path script).All (ReadFrom (Lexeme.scan script).1) :=
  all_iff.mpr ((spelled_parseScript script).readFrom fun _ hl => hl)

/-- All texts that a parsed file keeps between its lexemes are blanks and comments, and its nodes
are where the grammar has a place for their kind. -/
theorem parse_arranged (path script : String) :
    (Lexeme.IsGap (parse path script).head.lead ∧ Lexeme.IsGap (parse path script).tail ∧
      ∀ s ∈ (parse path script).statements, s.isStatement = true) ∧
    ∀ place n, (parse path script).get? place = some n →
      (∀ text ∈ n.gaps, Lexeme.IsGap text) ∧ n.Arranged := by
  refine ⟨⟨Lexeme.isGap_empty, Lexeme.isGap_tail script, fun s hs => ?_⟩, fun place n hn => ?_⟩
  · simp [isStatement, (spelled_parseScript script).statements_isNamed_isClosure s hs]
  · have hread := all_readFrom path script place n hn
    refine ⟨fun text htext => ?_, hread.arranged⟩
    obtain rfl | ⟨l, hl, rfl⟩ := hread.gaps text htext
    · exact Lexeme.isGap_empty
    · exact Lexeme.isGap_lead hl

end SourceFile

end BuildScript
