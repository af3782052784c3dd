import BuildScript.Proofs.Agreement
import BuildScript.Proofs.BareTrees
import BuildScript.Proofs.Roundtrip
import BuildScript.Proofs.WrittenFields

/-!
# Blocks of declarations

A declaration can be written in several forms: with the dependency as one string, in either kind of
quotes or in parentheses, or with a named argument for each field. A `dependencies` block with one
declaration a line is read as these declarations, whatever forms follow each other.
-/

namespace BuildScript

open Lexeme

variable {more : List Stretch}

/-- The text of a statement: where the lexical rules cut it, and the tree that it is read as behind
the trivia `lead`. -/
structure Node.IsWritten (text : String) (row : List Stretch) (node : String → Node) : Prop extends
    IsPiece text row where
  spelled : ∀ start lead,
    Node.Spelled (.statement (node (String.ofList lead))) (ofStretches start lead row).1
  parsed : ∀ lead, (node lead).isParsed = true

theorem isWritten_statement {dsl : Dsl} {quote : Char} {configuration written : String}
    (hname : isIdentifier configuration = true) (hquote : quote = '"' ∨ quote = '\'')
    (hplain : Text.isPlain written = true) :
    Node.IsWritten (Recipe.statement dsl quote configuration written)
      (Recipe.statementRow dsl quote configuration written)
      fun lead => Recipe.statementNode dsl quote lead configuration written where
  flat_eq := Recipe.flat_statementRow
  kind := Recipe.kind_statementRow
  cut _ hmore := Recipe.cut_statementRow hname hquote hplain hmore
  stops _ := Recipe.stops_statementRow hname
  behind := Recipe.behind_statementRow
  spelled := Recipe.spelled_statementNode hname hplain
  parsed _ := by cases dsl <;> rfl

structure NamedField where
  name : String
  value : String
  deriving DecidableEq, Repr

namespace NamedField

variable {field next : NamedField} {fields : List NamedField}

def write (field : NamedField) : String := field.name ++ ": '" ++ field.value ++ "'"

structure IsPlain (field : NamedField) : Prop where
  name : isIdentifier field.name = true
  value : Text.isPlain field.value = true

def row (field : NamedField) : List Stretch :=
  [⟨some .word, field.name.toList⟩, ⟨some .colon, [':']⟩, ⟨none, [' ']⟩,
    ⟨some .quoted, '\'' :: (field.value.toList ++ ['\''])⟩]

def node (field : NamedField) (lead : String) : Node :=
  .named (Head.new 0 lead) field.name "" (.literal (Head.new 0 " ") (.string field.value)
    (String.ofList ('\'' :: (field.value.toList ++ ['\'']))))

theorem IsPlain.cut (h : field.IsPlain) (hmore : Cut more) : Cut (field.row ++ more) := by
  have hvalue := cut_plain (Or.inr rfl) h.value hmore
  refine cut_identifier h.name ?_ (cut_mark rfl (cut_space rfl (by simp) ?_ hvalue))
  · rintro c rest ⟨rfl, -⟩
    rfl
  · rintro c rest ⟨rfl, -⟩
    rfl

theorem IsPlain.spelled (h : field.IsPlain) (start : Nat) (lead : List Char) :
    Node.Spelled (.argument (field.node (String.ofList lead)))
      (ofStretches start lead field.row).1 := by
  have hvalue : ∀ start stop,
      Node.Spelled (.expression (.literal (Head.new 0 " ") (.string field.value)
      (String.ofList ('\'' :: (field.value.toList ++ ['\''])))))
      [⟨.quoted, " ", String.ofList ('\'' :: (field.value.toList ++ ['\''])), start, stop⟩] := by
    intro start stop
    refine .constant ?_ rfl
    simp only [Node.constant?, Text.quotedValue_of_isPlain h.value]
  let stop := start + field.name.toList.length
  have hnamed := @Node.Spelled.named ⟨.word, String.ofList lead, field.name, start, stop⟩
    ⟨.colon, "", ":", stop, stop + 1⟩ (Head.new 0 (String.ofList lead)) _ _ rfl rfl ⟨rfl, rfl⟩
    (hvalue (stop + 1 + 1) (stop + 1 + 1 + (field.value.toList.length + 1 + 1)))
  simpa [row, node, ofStretches, stop] using hnamed

theorem behind_row (start : Nat) (lead : List Char) :
    (ofStretches start lead field.row).2 = [] := rfl

def rowAll : List NamedField → List Stretch
  | [] => []
  | [field] => field.row
  | field :: next :: rest =>
    field.row ++ ⟨some .comma, [',']⟩ :: ⟨none, [' ']⟩ :: rowAll (next :: rest)

def items (lead : String) : List NamedField → List (Argument Node)
  | [] => []
  | field :: rest => ⟨field.node lead, ""⟩ :: items " " rest

theorem flat_rowAll (fields : List NamedField) :
    flat (rowAll fields) = (Text.joinWith ", " (fields.map write)).toList := by
  fun_induction rowAll fields with
  | case1 => rfl
  | case2 field => simp [row, Text.joinWith, write, String.toList_append]
  | case3 field next rest ih =>
    rw [flat_append, flat_cons, flat_cons, ih]
    simp [row, Text.joinWith, write, String.toList_append]

theorem kind_rowAll (fields : List NamedField) : ∀ s ∈ rowAll fields, s.kind ≠ some .other := by
  fun_induction rowAll fields with
  | case1 => simp
  | case2 field => simp [row]
  | case3 field next rest ih =>
    simp only [row, List.forall_mem_append, List.forall_mem_cons]
    exact ⟨by simp, by simp, by simp, ih⟩

theorem stops_rowAll (h : field.IsPlain) (fields : List NamedField) :
    Stops isSpace (flat (rowAll (field :: fields) ++ more)) := by
  cases fields <;> exact stops_identifier h.name _

theorem cut_rowAll (h : ∀ field ∈ fields, field.IsPlain) (hmore : Cut more) :
    Cut (rowAll fields ++ more) := by
  fun_induction rowAll fields with
  | case1 => exact hmore
  | case2 field => exact (h field (List.mem_singleton_self field)).cut hmore
  | case3 field next rest ih =>
    rw [List.forall_mem_cons] at h
    have hrest : Cut (⟨none, [' ']⟩ :: (rowAll (next :: rest) ++ more)) :=
      cut_space rfl (by simp) (stops_rowAll (h.2 next List.mem_cons_self) rest) (ih h.2)
    rw [List.append_assoc]
    exact h.1.cut (cut_mark rfl hrest)

theorem behind_rowAll (fields : List NamedField) (start : Nat) :
    (ofStretches start [' '] (rowAll (field :: fields))).2 = [] := by
  induction fields generalizing field start with
  | nil => rfl
  | cons next rest ih =>
    rw [rowAll, ofStretches_append]
    exact ih _

/-- Fields are read as the named arguments of a command. -/
theorem spelled_rowAll (h : ∀ f ∈ field :: fields, f.IsPlain) (start : Nat) :
    Node.Spelled (.command (items " " (field :: fields)))
      (ofStretches start [' '] (rowAll (field :: fields))).1 := by
  induction fields generalizing field start with
  | nil => exact .lastCommand ((h field (List.mem_singleton_self field)).spelled start [' '])
  | cons next rest ih =>
    rw [List.forall_mem_cons] at h
    have hfirst := h.1.spelled start [' ']
    have hcomma : Marks ⟨.comma, "", ",", start + (flat field.row).length,
        start + (flat field.row).length + 1⟩
        .comma "," := ⟨rfl, rfl⟩
    have hrest := ih h.2 (start + (flat field.row).length + 1 + 1)
    rw [rowAll, ofStretches_append, behind_row]
    exact .command hfirst hcomma hrest

theorem startsCommand_rowAll (fields : List NamedField) (start : Nat) :
    Node.startsCommand (ofStretches start [' '] (rowAll (field :: fields))).1 = true := by
  cases fields <;> simp [rowAll, row, ofStretches, Node.startsCommand, startsLine, adjoins]

end NamedField

def Dependency.fields (d : Dependency) : List NamedField :=
  ⟨"group", d.group⟩ :: ⟨"name", d.artifact⟩ :: d.version.toList.map fun version =>
    ⟨"version", version⟩

namespace Declaration

inductive Form where
  | singleQuoted
  | doubleQuoted
  | parenthesized
  | named
  deriving DecidableEq, Repr

def write (d : Declaration) : Form → String
  | .singleQuoted => d.configuration ++ " '" ++ d.dependency.display ++ "'"
  | .doubleQuoted => d.configuration ++ " \"" ++ d.dependency.display ++ "\""
  | .parenthesized => d.configuration ++ "(\"" ++ d.dependency.display ++ "\")"
  | .named =>
    d.configuration ++ " " ++ Text.joinWith ", " (d.dependency.fields.map NamedField.write)

/-- The configuration is a name, and the fields can be told apart and stand between quotes. -/
structure IsPlain (d : Declaration) : Prop where
  configuration : isIdentifier d.configuration = true
  writable : d.dependency.IsWritable
  quotable : Text.isPlain d.dependency.display = true

instance (d : Declaration) : Decidable d.IsPlain :=
  decidable_of_iff (isIdentifier d.configuration = true ∧ d.dependency.IsWritable ∧
      Text.isPlain d.dependency.display = true)
    ⟨fun ⟨hname, hwritable, hquotable⟩ => ⟨hname, hwritable, hquotable⟩, fun h => ⟨h.1, h.2, h.3⟩⟩

variable {d : Declaration}

theorem IsPlain.fields (h : d.IsPlain) : ∀ field ∈ d.dependency.fields, field.IsPlain := by
  have hdisplay := h.quotable
  have hgroup : isIdentifier "group" = true := by decide
  have hname : isIdentifier "name" = true := by decide
  have hversion : isIdentifier "version" = true := by decide
  rcases d with ⟨configuration, ⟨⟨group, artifact⟩, _ | version⟩⟩
  · simp only [Dependency.display, Coordinate.display, Text.isPlain_append,
      Bool.and_eq_true] at hdisplay
    simp only [Dependency.fields, Option.toList_none, List.map_nil, List.forall_mem_cons]
    exact ⟨⟨hgroup, hdisplay.1.1⟩, ⟨hname, hdisplay.2⟩, by simp⟩
  · simp only [Dependency.display, Coordinate.display, Text.isPlain_append,
      Bool.and_eq_true] at hdisplay
    simp only [Dependency.fields, Option.toList_some, List.map_singleton, List.forall_mem_cons]
    exact ⟨⟨hgroup, hdisplay.1.1.1.1⟩, ⟨hname, hdisplay.1.1.2⟩, ⟨hversion, hdisplay.2⟩, by simp⟩

def row (d : Declaration) : Form → List Stretch
  | .singleQuoted => Recipe.statementRow .groovy '\'' d.configuration d.dependency.display
  | .doubleQuoted => Recipe.statementRow .groovy '"' d.configuration d.dependency.display
  | .parenthesized => Recipe.statementRow .kotlin '"' d.configuration d.dependency.display
  | .named =>
    ⟨some .word, d.configuration.toList⟩ :: ⟨none, [' ']⟩ :: NamedField.rowAll d.dependency.fields

def node (d : Declaration) (lead : String) : Form → Node
  | .singleQuoted => Recipe.statementNode .groovy '\'' lead d.configuration d.dependency.display
  | .doubleQuoted => Recipe.statementNode .groovy '"' lead d.configuration d.dependency.display
  | .parenthesized => Recipe.statementNode .kotlin '"' lead d.configuration d.dependency.display
  | .named =>
    .call (Head.new 0 lead)
      (.plain d.configuration (some ⟨false, "", NamedField.items " " d.dependency.fields, ""⟩) none)

theorem isWritten_named (h : d.IsPlain) :
    Node.IsWritten (d.write .named) (d.row .named) fun lead => d.node lead .named where
  flat_eq := by simp [row, write, NamedField.flat_rowAll, String.toList_append]
  kind := by
    rw [row, List.forall_mem_cons, List.forall_mem_cons]
    exact ⟨by simp, by simp, NamedField.kind_rowAll _⟩
  cut more hmore := by
    have hfields := NamedField.cut_rowAll h.fields hmore
    have hgroup := h.fields _ List.mem_cons_self
    refine cut_identifier h.configuration ?_
      (cut_space rfl (by simp) (NamedField.stops_rowAll hgroup _) hfields)
    rintro c rest ⟨rfl, -⟩
    rfl
  stops more := stops_identifier h.configuration _
  behind start lead := NamedField.behind_rowAll _ _
  spelled start lead := by
    have hword : Node.IsName ⟨.word, String.ofList lead, d.configuration, start,
        start + d.configuration.toList.length⟩ :=
          ⟨rfl, isKeywordLiteral_of_isIdentifier h.configuration⟩
    have hfields := NamedField.spelled_rowAll h.fields (start + d.configuration.toList.length + 1)
    have hspelled :=
      @Node.Spelled.commandStatement _ (Head.new 0 (String.ofList lead)) _ _ [] _ hword rfl (.nil _)
      (NamedField.startsCommand_rowAll _ _) hfields
    simpa [row, node, Call.plain, ofStretches, Dependency.fields] using hspelled
  parsed lead := by
    rcases d with ⟨configuration, ⟨coordinate, _ | version⟩⟩ <;> rfl

theorem isWritten (h : d.IsPlain) (form : Form) :
    Node.IsWritten (d.write form) (d.row form) fun lead => d.node lead form := by
  cases form with
  | singleQuoted =>
    have htext : d.write .singleQuoted =
        Recipe.statement .groovy '\'' d.configuration d.dependency.display := by
      rw [Recipe.statement, @String.append_assoc d.configuration " " (String.singleton '\'')]
      rfl
    rw [htext]
    exact isWritten_statement h.configuration (Or.inr rfl) h.quotable
  | doubleQuoted =>
    have htext : d.write .doubleQuoted =
        Recipe.statement .groovy '"' d.configuration d.dependency.display := by
      rw [Recipe.statement, @String.append_assoc d.configuration " " (String.singleton '"')]
      rfl
    rw [htext]
    exact isWritten_statement h.configuration (Or.inl rfl) h.quotable
  | parenthesized =>
    exact @isWritten_statement .kotlin '"' _ _ h.configuration (Or.inl rfl) h.quotable
  | named => exact isWritten_named h

/-- Whatever form it is written in, a declaration is read as it was meant. -/
theorem ofStatement?_node (h : d.IsPlain) (lead : String) (form : Form) :
    ofStatement? (d.node lead form) = some d := by
  have hparse := Dependency.parse_display h.writable
  cases form with
  | named =>
    rcases d with ⟨configuration, ⟨⟨group, artifact⟩, _ | version⟩⟩ <;> rfl
  | _ =>
    simp [ofStatement?, node, Recipe.statementNode, Node.call?, Call.plain, Call.argumentNodes,
      dependency?, Node.string?, hparse, Except.toOption]

structure Line where
  indent : String
  form : Form
  declaration : Declaration

namespace Line

def write (l : Line) : String := "\n" ++ l.indent ++ l.declaration.write l.form

structure IsPlain (l : Line) : Prop where
  indent : l.indent.toList.all isSpace = true
  declaration : l.declaration.IsPlain

instance (l : Line) : Decidable l.IsPlain :=
  decidable_of_iff (l.indent.toList.all isSpace = true ∧ l.declaration.IsPlain)
    ⟨fun ⟨hindent, hplain⟩ => ⟨hindent, hplain⟩, fun h => ⟨h.1, h.2⟩⟩

def row (l : Line) : List Stretch := ⟨none, '\n' :: l.indent.toList⟩ :: l.declaration.row l.form

def node (l : Line) : Node := l.declaration.node ("\n" ++ l.indent) l.form

variable {l : Line} {lines : List Line}

theorem flat_lines (h : ∀ l ∈ lines, l.IsPlain) :
    flat (lines.flatMap row) = (String.join (lines.map write)).toList := by
  induction lines with
  | nil => rfl
  | cons l lines ih =>
    rw [List.forall_mem_cons] at h
    have hrow := (isWritten h.1.declaration l.form).flat_eq
    rw [List.flatMap_cons, flat_append, ih h.2, row, flat_cons, hrow, List.map_cons,
      String.join_cons, write]
    simp [String.toList_append]

theorem kind_lines (h : ∀ l ∈ lines, l.IsPlain) :
    ∀ s ∈ lines.flatMap row, s.kind ≠ some .other := by
  intro s hs
  obtain ⟨l, hl, hs⟩ := List.mem_flatMap.mp hs
  rw [row, List.mem_cons] at hs
  obtain rfl | hs := hs
  · simp
  · exact (isWritten (h l hl).declaration l.form).kind s hs

theorem cut_lines (h : ∀ l ∈ lines, l.IsPlain) (hmore : Cut more) :
    Cut (lines.flatMap row ++ more) := by
  induction lines with
  | nil => exact hmore
  | cons l lines ih =>
    rw [List.forall_mem_cons] at h
    have hwritten := isWritten h.1.declaration l.form
    have hindent : ∀ c ∈ l.indent.toList, isSpace c = true := List.all_eq_true.mp h.1.indent
    rw [List.flatMap_cons, List.append_assoc]
    exact cut_space rfl hindent (hwritten.stops _) (hwritten.cut _ (ih h.2))

theorem behind_lines (h : ∀ l ∈ lines, l.IsPlain) (start : Nat) :
    (ofStretches start [] (lines.flatMap row)).2 = [] := by
  induction lines generalizing start with
  | nil => rfl
  | cons l lines ih =>
    rw [List.forall_mem_cons] at h
    rw [List.flatMap_cons, ofStretches_append, row, ofStretches,
      (isWritten h.1.declaration l.form).behind]
    exact ih h.2 _

/-- A line break ends a statement, whatever the next line holds. -/
theorem terminated_lines (lines : List Line) (start : Nat) :
    Node.terminated (ofStretches start [] (lines.flatMap row)).1 = true := by
  cases lines with
  | nil => rfl
  | cons l lines => exact terminated_ofStretches (List.mem_cons_self) _ _

theorem spelled_lines (h : ∀ l ∈ lines, l.IsPlain) (start : Nat) :
    Node.Spelled (.statements (lines.map node)) (ofStretches start [] (lines.flatMap row)).1 := by
  induction lines generalizing start with
  | nil => exact .nil
  | cons l lines ih =>
    rw [List.forall_mem_cons] at h
    have hwritten := isWritten h.1.declaration l.form
    have hlead : String.ofList ('\n' :: l.indent.toList) = "\n" ++ l.indent := by
      rw [← List.singleton_append, String.ofList_append, String.ofList_toList]
    have hfirst :=
      hwritten.spelled (start + ('\n' :: l.indent.toList).length) ('\n' :: l.indent.toList)
    rw [hlead] at hfirst
    rw [List.flatMap_cons, ofStretches_append, row, ofStretches, List.nil_append, hwritten.behind]
    exact .cons hfirst (Or.inr (terminated_lines lines _)) (ih h.2 _)

def block (lines : List Line) : String :=
  "dependencies \x7b" ++ String.join (lines.map write) ++ "\n\x7d"

def blockRow (lines : List Line) : List Stretch := Recipe.bracedRow (lines.flatMap row)

def blockNode (lines : List Line) : Node :=
  .call (Head.new 0 "")
    (.plain "dependencies" none (some (.closure (Head.new 0 " ") (lines.map node) "\n")))

theorem flat_blockRow (h : ∀ l ∈ lines, l.IsPlain) :
    flat (blockRow lines) = (block lines).toList := by
  simp [blockRow, Recipe.flat_bracedRow, flat_lines h, block, String.toList_append]

theorem kind_blockRow (h : ∀ l ∈ lines, l.IsPlain) : ∀ s ∈ blockRow lines, s.kind ≠ some .other :=
  Recipe.kind_bracedRow (kind_lines h)

theorem cut_blockRow (h : ∀ l ∈ lines, l.IsPlain) : Cut (blockRow lines) := by
  have hblock : Cut (blockRow lines ++ []) :=
    Recipe.cut_bracedRow (fun _ hmore => cut_lines h hmore) trivial
  rwa [List.append_nil] at hblock

theorem spelled_blockNode (h : ∀ l ∈ lines, l.IsPlain) :
    Node.Spelled (.statement (blockNode lines)) (ofStretches 0 [] (blockRow lines)).1 :=
  Recipe.spelled_bracedRow (spelled_lines h) (behind_lines h) 0 []

theorem isParsed_blockNode (h : ∀ l ∈ lines, l.IsPlain) : (blockNode lines).isParsed = true := by
  have hlines : ∀ n ∈ lines.map node, n.isParsed = true := by
    intro n hn
    obtain ⟨l, hl, rfl⟩ := List.mem_map.mp hn
    exact (isWritten (h l hl).declaration l.form).parsed _
  refine Node.every_call.mpr ⟨rfl, by simp [Call.plain, Call.argumentNodes], ?_⟩
  rintro _ ⟨⟩
  exact Node.every_closure.mpr ⟨rfl, hlines⟩

theorem blockDeclarations_blockNode (h : ∀ l ∈ lines, l.IsPlain) :
    (blockNode lines).blockDeclarations = lines.map declaration := by
  have hnode : ∀ l ∈ lines, ofStatement? l.node = some l.declaration := fun l hl =>
    ofStatement?_node (h l hl).declaration _ l.form
  have hname : simpleName "dependencies" = "dependencies" := by decide
  calc
    (blockNode lines).blockDeclarations = inBlock (.plain "dependencies" none
        (some (.closure (Head.new 0 " ") (lines.map node) "\n"))) := if_pos hname
    _ = (lines.map node).filterMap ofStatement? := inBlock_eq rfl
    _ = lines.filterMap (some ∘ declaration) := by
      rw [List.filterMap_map]
      exact List.filterMap_congr hnode
    _ = lines.map declaration := by rw [List.filterMap_eq_map]

end Line

end Declaration

/-- A block of declarations, each in a form of its own, is read as these declarations in their
order. -/
theorem SourceFile.declared_block_is_read_back (path : String) (lines : List Declaration.Line)
    (h : ∀ l ∈ lines, l.IsPlain) :
    (parse path (Declaration.Line.block lines)).topLevelDeclarations =
      lines.map Declaration.Line.declaration := by
  obtain ⟨again, hread, hbare⟩ := @Recipe.parseSnippet_of_spelled []
    (Declaration.Line.blockRow lines) _ (by simp) (Declaration.Line.cut_blockRow h)
    (Declaration.Line.kind_blockRow h) (Declaration.Line.spelled_blockNode h)
      (Declaration.Line.isParsed_blockNode h)
  rw [flat_nil, List.nil_append, Declaration.Line.flat_blockRow h, String.ofList_toList] at hread
  have hstatements : (parse path (Declaration.Line.block lines)).statements = [again] := hread
  rw [topLevelDeclarations_eq, hstatements, List.flatMap_singleton,
    ← Node.blockDeclarations_bare, hbare, Node.blockDeclarations_bare]
  exact Declaration.Line.blockDeclarations_blockNode h

theorem SourceFile.declared_block_is_read_back_four :
    let lines : List Declaration.Line :=
      [⟨"    ", .named, "api", ⟨⟨"g", "a"⟩, some "1.0"⟩⟩,
        ⟨"\t", .singleQuoted, "api", ⟨⟨"g", "b"⟩, none⟩⟩,
        ⟨"    ", .parenthesized, "implementation", ⟨⟨"g.h", "a"⟩, some "2"⟩⟩,
        ⟨"  ", .doubleQuoted, "api", ⟨⟨"g", "a"⟩, some "1.0"⟩⟩]
    Declaration.Line.block lines =
        "dependencies \x7b\n    api group: 'g', name: 'a', version: '1.0'\n\tapi 'g:b'" ++
          "\n    implementation(\"g.h:a:2\")\n  api \"g:a:1.0\"\n\x7d" ∧
      (parse "build.gradle" (Declaration.Line.block lines)).topLevelDeclarations =
        lines.map Declaration.Line.declaration := by
  exact ⟨by decide +kernel, declared_block_is_read_back _ _ (by decide +kernel)⟩

end BuildScript
