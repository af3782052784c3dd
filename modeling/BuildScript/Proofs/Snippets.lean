import BuildScript.Proofs.Coordinates
import BuildScript.Proofs.Readers
import BuildScript.Proofs.Scanning
import BuildScript.Proofs.Tidiness

/-!
# Written statements

What a recipe writes is scanned as the lexemes that it is made of, and parsed as one statement: a
call of one literal, or a `dependencies` block around it.
-/

namespace BuildScript

namespace Lexeme

variable {row more : List Stretch} {kind : LexemeKind} {c : Char} {body text : List Char}

def Stops (p : Char → Bool) (text : List Char) : Prop := ∀ c rest, text = c :: rest → p c = false

theorem takeWhile_of_stops {p : Char → Bool} (hbody : ∀ c ∈ body, p c = true)
    (hstops : Stops p text) :
    (body ++ text).takeWhile p = body := by
  rw [List.takeWhile_append_of_pos hbody]
  cases text with
  | nil => simp
  | cons c rest => simp [hstops c rest rfl]

theorem cut_space (hc : isSpace c = true) (hbody : ∀ d ∈ body, isSpace d = true)
    (hstops : Stops isSpace (flat more)) (hmore : Cut more) :
    Cut (⟨none, c :: body⟩ :: more) := by
  refine ⟨⟨c, body, rfl, ?_⟩, hmore⟩
  have hrule := @Rule.space c (body ++ flat more) hc
  rw [takeWhile_of_stops hbody hstops] at hrule
  exact munch_of_rule hrule (by simp)

theorem cut_word (hc : isWordStart c = true) (hbody : ∀ d ∈ body, isWordPart d = true)
    (hstops : Stops isWordPart (flat more)) (hmore : Cut more) :
    Cut (⟨some .word, c :: body⟩ :: more) := by
  refine ⟨⟨c, body, rfl, ?_⟩, hmore⟩
  have hrule := @Rule.word c (body ++ flat more) hc
  rw [takeWhile_of_stops hbody hstops] at hrule
  exact munch_of_rule hrule (by simp)

theorem cut_mark (hc : punctuation? c = some kind) (hmore : Cut more) :
    Cut (⟨some kind, [c]⟩ :: more) := by
  refine ⟨⟨c, [], rfl, munch_of_rule (.mark hc) ?_⟩, hmore⟩
  intro h
  have hmark := mark?_of_punctuation? hc
  rw [Option.some.inj h] at hmark
  cases hmark

theorem quotedRest_of_plain {quote : Char} (hquote : quote ≠ '\\')
    (hbody : ∀ d ∈ body, d ≠ quote ∧ d ≠ '\\') (text : List Char) :
    quotedRest quote (body ++ quote :: text) = (body.length + 1, true) := by
  induction body with
  | nil => simp [quotedRest, hquote]
  | cons d body ih =>
    rw [List.forall_mem_cons] at hbody
    rw [List.cons_append, quotedRest, ih hbody.2]
    · simp [hbody.1.1]
    · rintro rest rfl
      exact absurd rfl hbody.1.2
    · rintro e rest rfl
      exact absurd rfl hbody.1.2

theorem cut_quoted {quote : Char} (hquote : quote = '"' ∨ quote = '\'')
    (hbody : ∀ d ∈ body, d ≠ quote ∧ d ≠ '\\') (hmore : Cut more) :
    Cut (⟨some .quoted, quote :: (body ++ [quote])⟩ :: more) := by
  refine ⟨⟨quote, body ++ [quote], rfl, munch_of_rule (.quoted hquote ?_) (by simp)⟩, hmore⟩
  have hne : quote ≠ '\\' := by
    obtain rfl | rfl := hquote <;> decide
  simpa using quotedRest_of_plain hne hbody (flat more)

/-- Stretches without a rule are nowhere next to each other. -/
def Apart (row : List Stretch) : Prop :=
  row.IsChain fun s t => s.kind = some .other → t.kind ≠ some .other

theorem joinOther_of_apart (h : Apart row) : joinOther row = row := by
  have htail : ∀ {s : Stretch} {row : List Stretch}, Apart (s :: row) → Apart row := by
    intro s row h
    cases row with
    | nil => exact .nil
    | cons t row => exact (List.isChain_cons_cons.mp h).2
  fun_induction joinOther row with
  | case1 => rfl
  | case2 chars rest more joined hjoined ih =>
    rw [ih (htail h)] at hjoined
    subst hjoined
    exact absurd rfl ((List.isChain_cons_cons.mp h).1 rfl)
  | case3 kind chars rest hne ih => rw [ih (htail h)]

theorem apart_of_ne (h : ∀ s ∈ row, s.kind ≠ some .other) : Apart row := by
  induction row with
  | nil => exact .nil
  | cons s row ih =>
    rw [List.forall_mem_cons] at h
    cases row with
    | nil => exact .singleton s
    | cons t row => exact .cons_cons (fun hs => absurd hs h.1) (ih h.2)

/-- A row that is a cut of its text, with no other stretches to join, is what the text is scanned
as. -/
theorem scan_flat (hcut : Cut row) (hapart : Apart row) :
    scan (String.ofList (flat row)) =
      ((ofStretches 0 [] row).1, String.ofList (ofStretches 0 [] row).2) := by
  simp only [scan_eq, joined, String.toList_ofList, stretches_flat hcut (Nat.le_refl _),
    joinOther_of_apart hapart]

theorem ofStretches_append (start : Nat) (lead : List Char) (row more : List Stretch) :
    ofStretches start lead (row ++ more) =
      ((ofStretches start lead row).1 ++
        (ofStretches (start + (flat row).length) (ofStretches start lead row).2 more).1,
      (ofStretches (start + (flat row).length) (ofStretches start lead row).2 more).2) := by
  induction row generalizing start lead with
  | nil => simp [ofStretches]
  | cons s row ih =>
    rcases s with ⟨_ | kind, chars⟩
    · simp [ofStretches, ih, Nat.add_assoc]
    · simp [ofStretches, ih, Nat.add_assoc]

theorem ofStretches_trivia (htrivia : ∀ s ∈ row, s.kind = none) (start : Nat) (lead : List Char) :
    ofStretches start lead row = ([], lead ++ flat row) := by
  induction row generalizing start lead with
  | nil => simp [ofStretches]
  | cons s row ih =>
    rw [List.forall_mem_cons] at htrivia
    rcases s with ⟨kind, chars⟩
    obtain rfl : kind = none := htrivia.1
    rw [ofStretches, ih htrivia.2, flat_cons, List.append_assoc]

def isIdentifier (text : String) : Bool :=
  match text.toList with
  | [] => false
  | c :: rest => isWordStart c && rest.all isWordPart && !Node.isKeywordLiteral text

theorem cut_identifier {name : String} (hname : isIdentifier name = true)
    (hstops : Stops isWordPart (flat more)) (hmore : Cut more) :
    Cut (⟨some .word, name.toList⟩ :: more) := by
  unfold isIdentifier at hname
  cases hchars : name.toList with
  | nil => simp [hchars] at hname
  | cons c rest =>
    simp only [hchars, Bool.and_eq_true, List.all_eq_true] at hname
    exact cut_word hname.1.1 hname.1.2 hstops hmore

/-- No blank starts a word. -/
theorem stops_identifier {name : String} (hname : isIdentifier name = true) (row : List Stretch) :
    Stops isSpace (flat (⟨some .word, name.toList⟩ :: row)) := by
  unfold isIdentifier at hname
  split at hname
  · cases hname
  · rename_i c rest hchars
    simp only [Bool.and_eq_true] at hname
    rw [flat_cons, hchars]
    rintro _ text ⟨rfl, -⟩
    by_contra hspace
    have hstart : isWordStart c = true := hname.1.1
    obtain rfl | rfl | rfl | rfl | rfl := isSpace_eq (by simpa using hspace) <;> cases hstart

theorem cut_plain {quote : Char} {written : String} (hquote : quote = '"' ∨ quote = '\'')
    (hplain : Text.isPlain written = true) (hmore : Cut more) :
    Cut (⟨some .quoted, quote :: (written.toList ++ [quote])⟩ :: more) := by
  refine cut_quoted hquote (fun d hd => ?_) hmore
  simp only [Text.isPlain, List.all_eq_true, Bool.and_eq_true, decide_eq_true_eq] at hplain
  obtain ⟨⟨hdouble, hsingle⟩, hbackslash⟩ := hplain d hd
  obtain rfl | rfl := hquote
  · exact ⟨hdouble, hbackslash⟩
  · exact ⟨hsingle, hbackslash⟩

theorem isKeywordLiteral_of_isIdentifier {name : String} (hname : isIdentifier name = true) :
    Node.isKeywordLiteral name = false := by
  unfold isIdentifier at hname
  split at hname
  · cases hname
  · simp only [Bool.and_eq_true, Bool.not_eq_true'] at hname
    exact hname.2

end Lexeme

theorem Text.quotedValue_of_isPlain {written : String} (hplain : Text.isPlain written = true)
    (quote : Char) :
    Text.quotedValue (String.ofList (quote :: (written.toList ++ [quote]))) = written := by
  have hbackslash : '\\' ∉ written.toList := by
    intro hmem
    simp only [Text.isPlain, List.all_eq_true, Bool.and_eq_true, decide_eq_true_eq] at hplain
    exact (hplain _ hmem).2 rfl
  simp [Text.quotedValue, hbackslash]

inductive Node.IsCallOf (lead configuration written : String) : Node → Prop
  | mk {h h' : Head} {arguments : Option (Arguments Node)} {source : String}
      (lead_eq : h.lead = lead)
      (one : Call.argumentNodes ⟨configuration, none, arguments, none, none⟩ =
        [.literal h' (.string written) source]) :
      IsCallOf lead configuration written (.call h ⟨configuration, none, arguments, none, none⟩)

/-- A statement that declares the dependency in the configuration: a call of one string that is read
as the dependency. -/
def Node.IsDeclaration (lead configuration : String) (dependency : Dependency) (d : Node) : Prop :=
  ∃ written, d.IsCallOf lead configuration written ∧ Dependency.parse written = .ok dependency

namespace Node.IsCallOf

variable {lead configuration written : String} {d : Node}

theorem isNamed (h : d.IsCallOf lead configuration written) : d.isNamed = false := by
  cases h
  rfl

theorem head_lead (h : d.IsCallOf lead configuration written) : d.lead = lead := by
  cases h with
  | mk lead_eq one => exact lead_eq

theorem every {p : Node → Bool} (h : d.IsCallOf lead configuration written) (hself : p d = true)
    (hliteral : ∀ h value source, p (.literal h value source) = true) : d.every p = true := by
  cases h with
  | mk lead_eq one =>
    refine every_call.mpr ⟨hself, ?_, by simp⟩
    rw [one, List.forall_mem_singleton]
    exact hliteral _ _ _

theorem isTidy {values : Bool} (h : d.IsCallOf lead configuration written) :
    d.every (Node.isTidy values) = true := by
  refine h.every ?_ fun _ _ _ => rfl
  cases h
  rfl

theorem isPlaced (h : d.IsCallOf lead configuration written) : d.every Node.isPlaced = true := by
  refine h.every ?_ fun _ _ _ => rfl
  cases h
  rfl

theorem isParsed (h : d.IsCallOf lead configuration written) : d.isParsed = true := by
  refine h.every ?_ fun _ _ _ => rfl
  cases h
  rfl

theorem isLeaf (h : d.IsCallOf lead configuration written) : d.IsLeaf := by
  cases h with
  | mk lead_eq one => exact .mk rfl rfl rfl one

theorem callsDependencies (h : d.IsCallOf lead configuration written)
    (hname : BuildScript.simpleName configuration ≠ "dependencies") :
    d.callsDependencies = false := by
  cases h
  exact decide_eq_false hname

theorem ofStatement? {dependency : Dependency} (h : d.IsCallOf lead configuration written)
    (hreads : Dependency.parse written = .ok dependency) :
    Declaration.ofStatement? d = some ⟨configuration, dependency⟩ := by
  cases h with
  | mk lead_eq one =>
    simp [Declaration.ofStatement?, Node.call?, one, Declaration.dependency?, Node.string?, hreads,
      Except.toOption]

end Node.IsCallOf

namespace Node.IsDeclaration

variable {lead configuration : String} {dependency : Dependency} {d : Node}

theorem isLeaf (h : d.IsDeclaration lead configuration dependency) : d.IsLeaf := by
  obtain ⟨written, hcall, -⟩ := h
  exact hcall.isLeaf

theorem callsDependencies (h : d.IsDeclaration lead configuration dependency)
    (hname : BuildScript.simpleName configuration ≠ "dependencies") :
    d.callsDependencies = false := by
  obtain ⟨written, hcall, -⟩ := h
  exact hcall.callsDependencies hname

theorem ofStatement? (h : d.IsDeclaration lead configuration dependency) :
    Declaration.ofStatement? d = some ⟨configuration, dependency⟩ := by
  obtain ⟨written, hcall, hreads⟩ := h
  exact hcall.ofStatement? hreads

end Node.IsDeclaration

namespace Recipe

open Lexeme

variable {dsl : Dsl} {quote : Char} {configuration written : String} {more : List Stretch}

def statementRow (dsl : Dsl) (quote : Char) (configuration written : String) : List Stretch :=
  match dsl with
  | .groovy =>
    [⟨some .word, configuration.toList⟩, ⟨none, [' ']⟩,
      ⟨some .quoted, quote :: (written.toList ++ [quote])⟩]
  | .kotlin =>
    [⟨some .word, configuration.toList⟩, ⟨some .parenOpen, ['(']⟩,
      ⟨some .quoted, '"' :: (written.toList ++ ['"'])⟩, ⟨some .parenClose, [')']⟩]

theorem flat_statementRow :
    flat (statementRow dsl quote configuration written) =
      (statement dsl quote configuration written).toList := by
  have hopen : "(\"".toList = ['(', '"'] := rfl
  have hclose : "\")".toList = ['"', ')'] := rfl
  cases dsl with
  | groovy => simp [statementRow, statement, String.toList_append]
  | kotlin => simp [statementRow, statement, String.toList_append, hopen, hclose]

theorem cut_statementRow (hname : isIdentifier configuration = true)
    (hquote : quote = '"' ∨ quote = '\'') (hplain : Text.isPlain written = true)
    (hmore : Cut more) :
    Cut (statementRow dsl quote configuration written ++ more) := by
  cases dsl with
  | groovy =>
    refine cut_identifier hname ?_ (cut_space rfl (by simp) ?_ (cut_plain hquote hplain hmore))
    · rintro c rest ⟨rfl, -⟩
      rfl
    · rintro c rest ⟨rfl, -⟩
      obtain rfl | rfl := hquote <;> rfl
  | kotlin =>
    refine cut_identifier hname ?_
      (cut_mark rfl (cut_plain (Or.inl rfl) hplain (cut_mark rfl hmore)))
    rintro c rest ⟨rfl, -⟩
    rfl

def statementNode (dsl : Dsl) (quote : Char) (lead configuration written : String) : Node :=
  let value (lead : String) (quote : Char) : Node :=
    .literal (Head.new 0 lead) (.string written)
      (String.ofList (quote :: (written.toList ++ [quote])))
  match dsl with
  | .groovy =>
    .call (Head.new 0 lead)
      (.plain configuration (some ⟨false, "", [⟨value " " quote, ""⟩], ""⟩) none)
  | .kotlin =>
    .call (Head.new 0 lead) (.plain configuration (some ⟨true, "", [⟨value "" '"', ""⟩], ""⟩) none)

theorem spelled_statementNode (hname : isIdentifier configuration = true)
    (hplain : Text.isPlain written = true) (start : Nat) (lead : List Char) :
    Node.Spelled (.statement (statementNode dsl quote (String.ofList lead) configuration written))
      (ofStretches start lead (statementRow dsl quote configuration written)).1 := by
  have hword : ∀ lead start stop, Node.IsName ⟨.word, lead, configuration, start, stop⟩ :=
    fun _ _ _ => ⟨rfl, isKeywordLiteral_of_isIdentifier hname⟩
  have hvalue : ∀ (lead : String) (quote : Char) (start stop : Nat),
      Node.Spelled (.argument (.literal (Head.new 0 lead) (.string written)
          (String.ofList (quote :: (written.toList ++ [quote])))))
        [⟨.quoted, lead, String.ofList (quote :: (written.toList ++ [quote])), start, stop⟩] := by
    intro lead quote start stop
    refine .unnamed (.constant ?_ rfl)
    simp only [Node.constant?, Text.quotedValue_of_isPlain hplain]
  have hnext : ∀ text start stop,
      Node.startsCommand [⟨.quoted, " ", text, start, stop⟩] = true := by
    intro text start stop
    simp [Node.startsCommand, startsLine, adjoins]
  let stop := start + configuration.toList.length
  cases dsl with
  | groovy =>
    have hspelled := @Node.Spelled.commandStatement _ (Head.new 0 (String.ofList lead)) _ _ [] _
      (hword (String.ofList lead) start stop) rfl (.nil _) (hnext _ _ _)
      (.lastCommand (hvalue " " quote (stop + 1) (stop + 1 + (written.toList.length + 1 + 1))))
    simpa [statementRow, statementNode, Call.plain, ofStretches, stop] using hspelled
  | kotlin =>
    have hopen : Marks ⟨.parenOpen, "", "(", stop, stop + 1⟩ .parenOpen "(" := ⟨rfl, rfl⟩
    let close := stop + 1 + (written.toList.length + 1 + 1)
    have hclose : Marks ⟨.parenClose, "", ")", close, close + 1⟩ .parenClose ")" := ⟨rfl, rfl⟩
    have hitems := Node.Spelled.items hopen (.last (hvalue "" '"' (stop + 1) close) hclose)
    have hspelled := @Node.Spelled.callStatement _ (Head.new 0 (String.ofList lead)) _ [] _ _ _ _
      (hword (String.ofList lead) start stop) rfl (.nil _) (.untyped (.arguments hitems rfl))
    simpa [statementRow, statementNode, Call.plain, ofStretches, stop, close] using hspelled

theorem behind_statementRow (start : Nat) (lead : List Char) :
    (ofStretches start lead (statementRow dsl quote configuration written)).2 = [] := by
  cases dsl <;> rfl

theorem kind_statementRow :
    ∀ s ∈ statementRow dsl quote configuration written, s.kind ≠ some .other := by
  cases dsl <;> simp [statementRow]

theorem stops_statementRow (hname : isIdentifier configuration = true) :
    Stops isSpace (flat (statementRow dsl quote configuration written ++ more)) := by
  cases dsl <;> exact stops_identifier hname _

def bracedRow (body : List Stretch) : List Stretch :=
  [⟨some .word, "dependencies".toList⟩, ⟨none, [' ']⟩, ⟨some .braceOpen, ['\x7b']⟩] ++
    (body ++ [⟨none, ['\n']⟩, ⟨some .braceClose, ['\x7d']⟩])

theorem cut_bracedRow {body : List Stretch} (hbody : ∀ more, Cut more → Cut (body ++ more))
    (hmore : Cut more) :
    Cut (bracedRow body ++ more) := by
  have hclose : Cut (⟨none, ['\n']⟩ :: ⟨some .braceClose, ['\x7d']⟩ :: more) := by
    refine cut_space rfl (by simp) ?_ (cut_mark rfl hmore)
    rintro c rest ⟨rfl, -⟩
    rfl
  have hinside := hbody _ hclose
  simp only [bracedRow, List.append_assoc, List.cons_append, List.nil_append]
  refine cut_identifier rfl ?_ (cut_space rfl (by simp) ?_ (cut_mark rfl hinside))
  · rintro c rest ⟨rfl, -⟩
    rfl
  · rintro c rest ⟨rfl, -⟩
    rfl

/-- Lines that are read as statements make a block of them. -/
theorem spelled_bracedRow {body : List Stretch} {nodes : List Node}
    (hnodes : ∀ start, Node.Spelled (.statements nodes) (ofStretches start [] body).1)
    (hbehind : ∀ start, (ofStretches start [] body).2 = []) (start : Nat) (lead : List Char) :
    Node.Spelled (.statement (.call (Head.new 0 (String.ofList lead))
        (.plain "dependencies" none (some (.closure (Head.new 0 " ") nodes "\n")))))
      (ofStretches start lead (bracedRow body)).1 := by
  have hblock := @Node.Spelled.block ⟨.braceOpen, " ", "\x7b", start + 13, start + 14⟩
    ⟨.braceClose, "\n", "\x7d", start + 14 + (flat body).length + 1,
      start + 14 + (flat body).length + 1 + 1⟩ (Head.new 0 " ") _ _ ⟨rfl, rfl⟩ rfl
    (hnodes (start + 14)) ⟨rfl, rfl⟩
  have hspelled := @Node.Spelled.callStatement
    ⟨.word, String.ofList lead, "dependencies", start, start + 12⟩
    (Head.new 0 (String.ofList lead)) _ [] _ _ _ _ ⟨rfl, rfl⟩ rfl (.nil _)
    (.untyped (.body hblock (by simp [startsLine])))
  simpa [bracedRow, Call.plain, ofStretches, ofStretches_append, hbehind] using hspelled

theorem flat_bracedRow (body : List Stretch) :
    flat (bracedRow body) = "dependencies \x7b".toList ++ (flat body ++ "\n\x7d".toList) := by
  simp [bracedRow]

theorem kind_bracedRow {body : List Stretch} (h : ∀ s ∈ body, s.kind ≠ some .other) :
    ∀ s ∈ bracedRow body, s.kind ≠ some .other := by
  simp only [bracedRow, List.forall_mem_append]
  exact ⟨by simp, h, by simp⟩

def blockRow (dsl : Dsl) (quote : Char) (configuration written : String) : List Stretch :=
  bracedRow (⟨none, ['\n', ' ', ' ', ' ', ' ']⟩ :: statementRow dsl quote configuration written)

theorem flat_blockRow :
    flat (blockRow dsl quote configuration written) =
      ("dependencies \x7b\n    " ++ statement dsl quote configuration written ++
        "\n\x7d").toList := by
  simp [blockRow, flat_bracedRow, flat_statementRow, String.toList_append]

theorem kind_blockRow : ∀ s ∈ blockRow dsl quote configuration written, s.kind ≠ some .other :=
  kind_bracedRow (List.forall_mem_cons.mpr ⟨by simp, kind_statementRow⟩)

theorem cut_blockRow (hname : isIdentifier configuration = true)
    (hquote : quote = '"' ∨ quote = '\'') (hplain : Text.isPlain written = true)
    (hmore : Cut more) :
    Cut (blockRow dsl quote configuration written ++ more) := by
  have hindent : ∀ d ∈ [' ', ' ', ' ', ' '], isSpace d = true := by simp [isSpace]
  refine cut_bracedRow (fun more hmore => ?_) hmore
  exact cut_space rfl hindent (stops_statementRow hname)
    (cut_statementRow hname hquote hplain hmore)

def blockNode (dsl : Dsl) (quote : Char) (lead configuration written : String) : Node :=
  .call (Head.new 0 lead) (.plain "dependencies" none
    (some (.closure (Head.new 0 " ")
      [statementNode dsl quote "\n    " configuration written] "\n")))

theorem spelled_blockNode (hname : isIdentifier configuration = true)
    (hplain : Text.isPlain written = true) (start : Nat) (lead : List Char) :
    Node.Spelled (.statement (blockNode dsl quote (String.ofList lead) configuration written))
      (ofStretches start lead (blockRow dsl quote configuration written)).1 := by
  have hstatement : ∀ start,
      Node.Spelled (.statements [statementNode dsl quote "\n    " configuration written])
      (ofStretches start [] (⟨none,
        ['\n', ' ', ' ', ' ', ' ']⟩ :: statementRow dsl quote configuration written)).1 := by
    intro start
    have hnode :=
      @spelled_statementNode dsl quote _ _ hname hplain (start + 5) ['\n', ' ', ' ', ' ', ' ']
    have hnodes := Node.Spelled.cons hnode (Or.inr rfl) .nil
    rw [List.append_nil] at hnodes
    exact hnodes
  exact spelled_bracedRow hstatement (fun start => behind_statementRow (start + 5) _) start lead

def leadRow (lead : List Char) : List Stretch := if lead.isEmpty then [] else [⟨none, lead⟩]

theorem ofStretches_leadRow (start : Nat) (lead : List Char) (row : List Stretch) :
    ofStretches start [] (leadRow lead ++ row) = ofStretches (start + lead.length) lead row := by
  cases lead with
  | nil => rfl
  | cons c lead => rfl

theorem flat_leadRow (lead : List Char) : flat (leadRow lead) = lead := by
  cases lead with
  | nil => rfl
  | cons c lead => simp [leadRow]

theorem cut_leadRow {lead : List Char} (hlead : ∀ c ∈ lead, isSpace c = true)
    (hstops : Stops isSpace (flat more)) (hmore : Cut more) :
    Cut (leadRow lead ++ more) := by
  cases lead with
  | nil => exact hmore
  | cons c lead =>
    rw [List.forall_mem_cons] at hlead
    exact cut_space hlead.1 hlead.2 hstops hmore

theorem trivia_leadRow (lead : List Char) : ∀ s ∈ leadRow lead, s.kind = none := by
  cases lead with
  | nil => simp [leadRow]
  | cons c lead => simp [leadRow]

theorem kind_leadRow (lead : List Char) : ∀ s ∈ leadRow lead, s.kind ≠ some .other := by
  intro s hs
  simp [trivia_leadRow lead s hs]

/-- A fragment of one statement behind some trivia is read as that statement. -/
theorem parseSnippet_of_spelled {trivia row : List Stretch} {node : Node}
    (htrivia : ∀ s ∈ trivia, s.kind = none)
    (hcut : Cut (trivia ++ row)) (hkind : ∀ s ∈ row, s.kind ≠ some .other)
    (hspelled : Node.Spelled (.statement node)
      (ofStretches (flat trivia).length (flat trivia) row).1)
    (hparsed : node.isParsed = true) :
    ∃ again, Node.parseSnippet (String.ofList (flat trivia ++ flat row)) = [again] ∧
      again.bare = node.bare := by
  have hapart : Apart (trivia ++ row) := by
    apply apart_of_ne
    rw [List.forall_mem_append]
    exact ⟨fun s hs => by simp [htrivia s hs], hkind⟩
  have hscan := scan_flat hcut hapart
  simp only [ofStretches_append, ofStretches_trivia htrivia, List.nil_append, flat_append,
    Nat.zero_add] at hscan
  have hall : Node.Spelled (.statements [node])
      (ofStretches (flat trivia).length (flat trivia) row).1 := by
    simpa using Node.Spelled.cons hspelled (Or.inr rfl) .nil
  have hbare := hall.statements_fuelFor (List.forall_mem_singleton.mpr hparsed)
  rw [List.map_singleton, List.map_eq_singleton_iff] at hbare
  obtain ⟨again, hagain, heq⟩ := hbare
  refine ⟨again, ?_, heq⟩
  simp only [Node.parseSnippet, Node.parseScript, hscan]
  exact hagain

theorem isCallOf_of_bare {lead : String} {d : Node}
    (hbare : d.bare = (statementNode dsl quote lead configuration written).bare) :
    d.IsCallOf lead configuration written := by
  obtain ⟨h, c, hnode, hlead, hname, htypes, hclosure, hdelegate, h', source, hone⟩ : ∃ h c,
      statementNode dsl quote lead configuration written = .call h c ∧ h.lead = lead ∧
        c.name = configuration ∧
        c.typeArguments = none ∧ c.closure = none ∧ c.delegate = none ∧
        ∃ h' source, c.argumentNodes = [.literal h' (.string written) source] := by
    cases dsl <;> exact ⟨_, _, rfl, rfl, rfl, rfl, rfl, rfl, _, _, rfl⟩
  rw [hnode] at hbare
  cases d with
  | call head again =>
    simp only [Node.bare_call, Node.call.injEq, Head.new, Head.mk.injEq, true_and] at hbare
    obtain ⟨hsame, hmap⟩ := hbare
    have harguments := congrArg Call.argumentNodes hmap
    rw [Call.argumentNodes_map, Call.argumentNodes_map, hone, List.map_singleton,
      List.map_eq_singleton_iff] at harguments
    obtain ⟨value, hvalue, heq⟩ := harguments
    rcases again with ⟨name, types, arguments, closure, delegate⟩
    simp only [Call.map, hname, htypes, hclosure, hdelegate, Option.map_none,
      Option.map_eq_none_iff, Call.mk.injEq] at hmap
    obtain ⟨rfl, rfl, -, rfl, rfl⟩ := hmap
    cases value with
    | literal head' value' source' =>
      simp only [Node.bare_literal, Node.literal.injEq] at heq
      obtain ⟨-, rfl, -⟩ := heq
      exact .mk (hsame.trans hlead) hvalue
    | _ => simp at heq
  | _ => simp at hbare

/-- The text is a statement that a recipe can write to call the configuration with a string. -/
inductive Phrases (configuration written : String) : String → Prop
  | mk {dsl : Dsl} {quote : Char} (name : isIdentifier configuration = true)
      (quoted : quote = '"' ∨ quote = '\'') (plain : Text.isPlain written = true) :
      Phrases configuration written (statement dsl quote configuration written)

def Writes (configuration : String) (dependency : Dependency) (text : String) : Prop :=
  ∃ written, Phrases configuration written text ∧ Dependency.parse written = .ok dependency

variable {dependency : Dependency} {text : String}

/-- A written statement is read as the call behind trivia that anything but a blank may follow. -/
theorem Phrases.behind {trivia : List Stretch} (h : Phrases configuration written text)
    (htrivia : ∀ s ∈ trivia, s.kind = none)
    (hcut : ∀ more, Stops isSpace (flat more) → Cut more → Cut (trivia ++ more)) :
    ∃ d, Node.parseSnippet (String.ofList (flat trivia) ++ text) = [d] ∧
      d.IsCallOf (String.ofList (flat trivia)) configuration written := by
  cases h with
  | @mk dsl quote hname hquote hplain =>
    have hrow := @cut_statementRow dsl quote configuration written [] hname hquote hplain trivial
    have hstops := @stops_statementRow dsl quote configuration written [] hname
    rw [List.append_nil] at hrow hstops
    have hspelled :=
      @spelled_statementNode dsl quote _ _ hname hplain (flat trivia).length (flat trivia)
    obtain ⟨d, hparse, hbare⟩ :=
      parseSnippet_of_spelled htrivia (hcut _ hstops hrow) kind_statementRow hspelled
        (by cases dsl <;> rfl)
    rw [flat_statementRow, String.ofList_append, String.ofList_toList] at hparse
    exact ⟨d, hparse, isCallOf_of_bare hbare⟩

/-- A written statement is read as the declaration behind such trivia. -/
theorem Writes.behind {trivia : List Stretch} (h : Writes configuration dependency text)
    (htrivia : ∀ s ∈ trivia, s.kind = none)
    (hcut : ∀ more, Stops isSpace (flat more) → Cut more → Cut (trivia ++ more)) :
    ∃ d, Node.parseSnippet (String.ofList (flat trivia) ++ text) = [d] ∧
      d.IsDeclaration (String.ofList (flat trivia)) configuration dependency := by
  obtain ⟨written, hphrases, hreads⟩ := h
  obtain ⟨d, hparse, hd⟩ := hphrases.behind htrivia hcut
  exact ⟨d, hparse, written, hd, hreads⟩

/-- A written statement with blanks in front of it is read as the call. -/
theorem Phrases.statement {indent : String} (h : Phrases configuration written text)
    (hindent : indent.toList.all isSpace = true) :
    ∃ d, Node.parseSnippet ("\n" ++ indent ++ text) = [d] ∧
      d.IsCallOf ("\n" ++ indent) configuration written := by
  have hlead : ∀ c ∈ "\n".toList ++ indent.toList, isSpace c = true := by
    rw [List.forall_mem_append]
    exact ⟨by simp [isSpace], by simpa using hindent⟩
  have hread := h.behind (trivia_leadRow _) fun _ => cut_leadRow hlead
  rwa [flat_leadRow, String.ofList_append, String.ofList_toList, String.ofList_toList] at hread

theorem Writes.statement {indent : String} (h : Writes configuration dependency text)
    (hindent : indent.toList.all isSpace = true) :
    ∃ d, Node.parseSnippet ("\n" ++ indent ++ text) = [d] ∧
      d.IsDeclaration ("\n" ++ indent) configuration dependency := by
  obtain ⟨written, hphrases, hreads⟩ := h
  obtain ⟨d, hparse, hd⟩ := hphrases.statement hindent
  exact ⟨d, hparse, written, hd, hreads⟩

/-- A written block with blanks in front of it is read as a block of one call. -/
theorem Phrases.block {lead : String} (h : Phrases configuration written text)
    (hlead : lead.toList.all isSpace = true) :
    ∃ h ch d, Node.parseSnippet (lead ++ ("dependencies \x7b\n    " ++ text ++ "\n\x7d")) =
        [.call h (.plain "dependencies" none (some (.closure ch [d] "\n")))] ∧
      h.lead = lead ∧ d.IsCallOf "\n    " configuration written := by
  cases h with
  | @mk dsl quote hname hquote hplain =>
    have hrow := @cut_blockRow dsl quote configuration written [] hname hquote hplain trivial
    rw [List.append_nil] at hrow
    have hstops : Stops isSpace (flat (blockRow dsl quote configuration written)) := by
      rintro c rest ⟨rfl, -⟩
      rfl
    have hcut := cut_leadRow (by simpa using hlead) hstops hrow
    have hspelled := @spelled_blockNode dsl quote _ _ hname hplain lead.toList.length lead.toList
    obtain ⟨again, hparse, hbare⟩ :=
      parseSnippet_of_spelled (trivia_leadRow lead.toList) hcut kind_blockRow
      (by rwa [flat_leadRow]) (by cases dsl <;> rfl)
    rw [flat_leadRow, flat_blockRow, ← String.toList_append, String.ofList_toList] at hparse
    rw [String.ofList_toList] at hbare
    cases again with
    | call h c =>
      rcases c with ⟨name, types, arguments, body, delegate⟩
      simp only [blockNode, Call.plain, Node.bare_call, Node.call.injEq, Call.map, Head.new,
        Head.mk.injEq, true_and,
        Option.map_none, Option.map_some, Option.map_eq_none_iff, Option.map_eq_some_iff,
          Node.bare_closure,
        Call.mk.injEq, List.map_singleton] at hbare
      obtain ⟨hsame, rfl, rfl, rfl, ⟨body, rfl, hbody⟩, rfl⟩ := hbare
      cases body with
      | closure ch statements tail =>
        simp only [Node.bare_closure, Node.closure.injEq, List.map_eq_singleton_iff] at hbody
        obtain ⟨-, ⟨d, rfl, hd⟩, rfl⟩ := hbody
        exact ⟨h, ch, d, hparse, hsame, isCallOf_of_bare hd⟩
      | _ => simp at hbody
    | _ => simp [blockNode] at hbare

end Recipe

end BuildScript
