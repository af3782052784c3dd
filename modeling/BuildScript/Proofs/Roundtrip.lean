import BuildScript.Proofs.Declaring
import BuildScript.Proofs.Lossless
import BuildScript.Proofs.Refitting
import BuildScript.Proofs.Splicing

/-!
# Reading an edited file again

The text of an edited file is scanned as the stretches of the old text with those of the new
statement among them, and these spell the edited tree. So the tree is read back from its text, but
for the names of its nodes.
-/

namespace BuildScript

namespace Node

section Others

variable {ts : List Lexeme}

theorem Segments.bracketed {start name : String} (h : Segments start ts name) :
    ∀ l ∈ ts, l.Bracketed := by
  induction h with
  | nil name => simp
  | cons mark first word second more ih =>
    simp only [List.forall_mem_cons]
    exact ⟨.of_kind mark.1 (by decide), .of_kind word (by decide), ih⟩

theorem Reference.bracketed {start name : String} (h : Reference start ts name) :
    ∀ l ∈ ts, l.Bracketed := by
  cases h with
  | plain segments => exact segments.bracketed
  | member segments mark near mark' near' kind near'' =>
    simp only [List.forall_mem_append, List.forall_mem_cons]
    exact ⟨segments.bracketed, .of_kind mark.1 (by decide), .of_kind mark'.1 (by decide),
      .of_kind kind (by decide), by simp⟩

theorem Types.bracketed {text : String} (h : Types text ts) : ∀ l ∈ ts, l.Bracketed := by
  cases h with
  | mk mark near inside mark' =>
    have hinside : ∀ l, InTypes l → l.Bracketed := by
      rintro l (hkind | hkind | hkind)
      · exact .of_kind hkind (by decide)
      · exact .of_kind hkind (by decide)
      · exact .of_kind hkind (by decide)
    simp only [List.forall_mem_append, List.forall_mem_cons] at inside ⊢
    exact ⟨⟨fun _ => Or.inl mark.2, hinside _ inside.1, fun l hl => hinside l (inside.2 l hl)⟩,
      fun _ => Or.inr mark'.2, by simp⟩

theorem kind_of_constant? {l : Lexeme} {node : Node} (h : constant? l = some node) :
    l.Bracketed := by
  obtain hkind | hkind | hkind := constant?_begins h
  · exact .of_kind hkind (by decide)
  · exact .of_kind hkind (by decide)
  · exact .of_kind hkind (by decide)

/-- Only type arguments have lexemes that no rule is for. -/
theorem Spelled.bracketed {phrase : Phrase} (h : Spelled phrase ts) (hp : phrase.IsParsed) :
    ∀ l ∈ ts, l.Bracketed := by
  induction h with
  | constant is lead => simpa using kind_of_constant? is
  | identifier word lead reference =>
    exact List.forall_mem_cons.mpr ⟨.of_kind word.1 (by decide), reference.bracketed⟩
  | call word lead reference tail ih =>
    simp only [List.forall_mem_append, List.forall_mem_cons]
    exact ⟨⟨.of_kind word.1 (by decide), reference.bracketed⟩, ih (tail_isParsed hp)⟩
  | closure block ih => exact ih hp
  | block mark lead inside mark' ih =>
    simp only [List.forall_mem_append, List.forall_mem_cons]
    exact ⟨⟨.of_kind mark.1 (by decide), ih (every_closure.mp hp).2⟩,
      .of_kind mark'.1 (by decide), by simp⟩
  | named word lead mark is ih =>
    simp only [List.forall_mem_cons]
    exact ⟨.of_kind word (by decide), .of_kind mark.1 (by decide), ih (every_named.mp hp).2⟩
  | unnamed is ih => exact ih hp
  | last is mark ih =>
    simp only [List.forall_mem_append, List.forall_mem_cons]
    exact ⟨ih (List.forall_mem_cons.mp hp).1, .of_kind mark.1 (by decide), by simp⟩
  | item is mark more ih ih' =>
    obtain ⟨hfirst, hmore⟩ := List.forall_mem_cons.mp hp
    simp only [List.forall_mem_append, List.forall_mem_cons]
    exact ⟨ih hfirst, .of_kind mark.1 (by decide), ih' hmore⟩
  | lastCommand is ih => exact ih (List.forall_mem_cons.mp hp).1
  | command is mark more ih ih' =>
    obtain ⟨hfirst, hmore⟩ := List.forall_mem_cons.mp hp
    simp only [List.forall_mem_append, List.forall_mem_cons]
    exact ⟨ih hfirst, .of_kind mark.1 (by decide), ih' hmore⟩
  | empty mark mark' =>
    simp only [List.forall_mem_cons]
    exact ⟨.of_kind mark.1 (by decide), .of_kind mark'.1 (by decide), by simp⟩
  | items mark inside ih => exact List.forall_mem_cons.mpr ⟨.of_kind mark.1 (by decide), ih hp⟩
  | arguments is line ih => exact ih (hp.1 _ rfl)
  | body is line ih => exact ih (hp.2 _ rfl)
  | both is line is' line' ih ih' =>
    exact List.forall_mem_append.mpr ⟨ih (hp.1 _ rfl), ih' (hp.2 _ rfl)⟩
  | untyped is ih => exact ih hp
  | typed types is ih => exact List.forall_mem_append.mpr ⟨types.bracketed, ih hp⟩
  | constantStatement is lead => simpa using kind_of_constant? is
  | identifierStatement word lead segments =>
    exact List.forall_mem_cons.mpr ⟨.of_kind word.1 (by decide), segments.bracketed⟩
  | callStatement word lead segments tail ih =>
    simp only [List.forall_mem_append, List.forall_mem_cons]
    exact ⟨⟨.of_kind word.1 (by decide), segments.bracketed⟩, ih (tail_isParsed hp)⟩
  | commandStatement word lead segments starts inside ih =>
    simp only [List.forall_mem_append, List.forall_mem_cons]
    exact ⟨⟨.of_kind word.1 (by decide), segments.bracketed⟩, ih ((tail_isParsed hp).1 _ rfl)⟩
  | delegated word is lead word' line mark line' word'' line'' segments tail ih =>
    simp only [List.forall_mem_append, List.forall_mem_cons]
    exact ⟨⟨.of_kind word (by decide), .of_kind word' (by decide), .of_kind mark.1 (by decide),
      .of_kind word'' (by decide), segments.bracketed⟩, ih (tail_isParsed hp)⟩
  | assignment word lead lead' segments mark is ih =>
    simp only [List.forall_mem_append, List.forall_mem_cons]
    exact ⟨⟨.of_kind word.1 (by decide), segments.bracketed⟩, .of_kind mark.1 (by decide),
      ih (every_assignment.mp hp).2.2⟩
  | raw lead => cases hp
  | nil => simp
  | cons first ends more ih ih' =>
    obtain ⟨hfirst, hmore⟩ := List.forall_mem_cons.mp hp
    exact List.forall_mem_append.mpr ⟨ih hfirst, ih' hmore⟩

end Others

end Node

open Lexeme

/-- The row is what the text of the file is scanned as, and it spells the statements of the file. -/
structure SourceFile.Readable (f : SourceFile) (row : List Stretch) : Prop where
  scan : IsScan row
  lead : f.head.lead = ""
  spelled : Node.Spelled (.statements f.statements) (ofStretches 0 [] row).1
  tail : String.ofList (ofStretches 0 [] row).2 = f.tail
  parsed : ∀ s ∈ f.statements, s.isParsed = true

namespace SourceFile

variable {f f' : SourceFile} {row : List Stretch}

theorem readable_of_anywhere {ts : List Lexeme} (hscan : IsScan row) (hlead : f.head.lead = "")
    (hspelled : Node.Spelled (.statements f.statements) ts)
    (hrow : anywhere [] row = (ts.map unplaced, f.tail.toList))
    (hparsed : ∀ s ∈ f.statements, s.isParsed = true) : f.Readable row := by
  rw [anywhere, Prod.mk.injEq] at hrow
  exact ⟨hscan, hlead, hspelled.unplaced hrow.1.symm, by rw [hrow.2, String.ofList_toList], hparsed⟩

theorem Readable.print (h : f.Readable row) : f.print = String.ofList (flat row) := by
  have hprint := h.spelled.print_eq
  simp only [Node.Phrase.print] at hprint
  rw [SourceFile.print, h.lead, hprint, ← h.tail, String.empty_append, written_ofStretches,
    List.nil_append]

/-- A file is read back from its text, but for the names of its nodes. -/
theorem Readable.reread (h : f.Readable row) (path : String) :
    (parse path f.print).statements.map Node.bare = f.statements.map Node.bare ∧
      (parse path f.print).tail = f.tail := by
  have hscan := scan_flat h.scan.cut h.scan.apart
  rw [h.print]
  simp only [parse, Node.parseScript, hscan, SourceFile.new]
  exact ⟨h.spelled.statements_fuelFor h.parsed, h.tail⟩

/-- A file in which nothing is kept verbatim. -/
theorem exists_readable {path script : String}
    (hparsed : ∀ s ∈ (parse path script).statements, s.isParsed = true) :
    ∃ row, (parse path script).Readable row := by
  have hspelled := Node.spelled_parseScript script
  have hscan := isScan_joined (hspelled.bracketed hparsed)
  rw [scan_eq] at hspelled
  have htail : String.ofList (ofStretches 0 [] (joined script)).2 = (scan script).2 := by
    rw [scan_eq]
  exact ⟨_, hscan, rfl, hspelled, htail, hparsed⟩

end SourceFile

section Pieces

variable {configuration written text : String} {piece : List Stretch} {lead : List Char}

theorem Recipe.Phrases.exists_piece (h : Recipe.Phrases configuration written text) :
    ∃ piece, IsPiece text piece := by
  cases h with
  | @mk dsl quote hname hquote hplain =>
    exact ⟨Recipe.statementRow dsl quote configuration written, Recipe.flat_statementRow,
      Recipe.kind_statementRow,
      fun _ hmore => Recipe.cut_statementRow hname hquote hplain hmore, fun _ =>
        Recipe.stops_statementRow hname,
      Recipe.behind_statementRow⟩

theorem Recipe.Phrases.exists_blockPiece (h : Recipe.Phrases configuration written text) :
    ∃ piece, IsPiece ("dependencies \x7b\n    " ++ text ++ "\n\x7d") piece := by
  cases h with
  | @mk dsl quote hname hquote hplain =>
    refine ⟨Recipe.blockRow dsl quote configuration written, Recipe.flat_blockRow,
      Recipe.kind_blockRow,
      fun _ hmore => Recipe.cut_blockRow hname hquote hplain hmore, fun _ =>
        ?_, fun start lead => ?_⟩
    · rintro c rest ⟨rfl, -⟩
      rfl
    · simp [Recipe.blockRow, Recipe.bracedRow, ofStretches_append, ofStretches]

/-- A piece with blanks in front of it spells what it is parsed as. -/
theorem Lexeme.IsPiece.spelled (h : IsPiece text piece) (hlead : ∀ c ∈ lead, isSpace c = true) :
    Node.Spelled (.statements (Node.parseSnippet (String.ofList lead ++ text)))
      (ofStretches 0 [] (Recipe.leadRow lead ++ piece)).1 := by
  have hpiece := h.cut [] trivial
  have hstops := h.stops []
  rw [List.append_nil] at hpiece hstops
  have hapart : Apart (Recipe.leadRow lead ++ piece) :=
    apart_of_ne (List.forall_mem_append.mpr ⟨Recipe.kind_leadRow lead, h.kind⟩)
  have hscan := scan_flat (Recipe.cut_leadRow hlead hstops hpiece) hapart
  have hspelled := Node.spelled_parseScript (String.ofList lead ++ text)
  rw [flat_append, Recipe.flat_leadRow, h.flat_eq, String.ofList_append,
    String.ofList_toList] at hscan
  rwa [hscan] at hspelled

theorem Lexeme.terminated_ofStretches (h : '\n' ∈ lead) (start : Nat) (row : List Stretch) :
    Node.terminated (ofStretches start lead row).1 = true := by
  induction row generalizing start lead with
  | nil => rfl
  | cons s row ih =>
    rcases s with ⟨_ | kind, chars⟩
    · exact ih (List.mem_append_left chars h) _
    · simp [ofStretches, Node.terminated, startsLine, h]

theorem Node.Spelled.statement_of_singleton {node : Node} {ts : List Lexeme}
    (h : Spelled (.statements [node]) ts) :
    Spelled (.statement node) ts := by
  cases h with
  | cons first ends more =>
    cases more
    rwa [List.append_nil]

end Pieces

section Step

variable {coordinate : Coordinate} {t : Target} {f f' : SourceFile} {text written : String}
    {row : List Stretch}

theorem Scope.Touches.isRaw {n m : Node} (h : Scope.Touches n m) : m.isRaw = false := by
  cases h <;> rfl

/-- A block that grows leaves the file readable. -/
theorem readable_grown {scope : Scope} {before after : List Node} {a m new d : Node} {h : Head}
    {block : Call Node} {indent : String} (hreadable : f.Readable row)
    (hphrases : Recipe.Phrases t.declared written text)
    (hstatements : f.statements = before ++ a :: after)
    (hinside : scope.Replaces h block new none a m) (hgrows : Grows d h block new)
    (hindented : isIndented h.lead = true) (hblank : indent.toList.all isSpace = true)
    (hsnippet : Node.parseSnippet ("\n" ++ indent ++ text) = [d]) :
    ∃ row', (f.withStatements (before ++ m :: after)).Readable row' := by
  obtain ⟨piece, hpiece⟩ := hphrases.exists_piece
  have hlead : ∀ c ∈ '\n' :: indent.toList, isSpace c = true := by
    rw [List.forall_mem_cons]
    exact ⟨rfl, by simpa using hblank⟩
  have hbreak : String.ofList ('\n' :: indent.toList) = "\n" ++ indent := by
    rw [← List.singleton_append, String.ofList_append, String.ofList_toList]
  have hd := hpiece.spelled hlead
  rw [hbreak, hsnippet] at hd
  have hends : Node.terminated
      (ofStretches 0 [] (Recipe.leadRow ('\n' :: indent.toList) ++ piece)).1 = true := by
    rw [Recipe.ofStretches_leadRow]
    exact terminated_ofStretches List.mem_cons_self _ _
  -- The old lexemes spell the old statements, so the spliced ones spell the new.
  have hrefits := (hinside.refits hgrows hd.statement_of_singleton hends).statement
  have hspelled := hreadable.spelled
  rw [hstatements] at hspelled
  obtain ⟨us, hspliced, hus⟩ := Node.refits_statements hinside.isRaw hrefits _ hspelled
  have hrow : ofStretches 0 [] row = ((ofStretches 0 [] row).1, f.tail.toList) := by
    rw [← hreadable.tail, String.toList_ofList]
  generalize (ofStretches 0 [] row).1 = ts at hspliced hrow
  cases hspliced with
  | @mk front behind close nonempty mark =>
    rw [List.forall_mem_cons] at hlead
    obtain ⟨row', hscan, hrow'⟩ := exists_spliced hreadable.scan hrow mark hpiece hlead.2 hindented
    refine ⟨row', SourceFile.readable_of_anywhere hscan hreadable.lead hus hrow' ?_⟩
    have hparsed := hreadable.parsed
    simp only [hstatements, List.forall_mem_append, List.forall_mem_cons] at hparsed
    simp only [SourceFile.withStatements, List.forall_mem_append, List.forall_mem_cons]
    refine ⟨hparsed.1, ?_, hparsed.2.2⟩
    have hnew : d.isParsed = true := (isCallOf_of_snippet hphrases hblank hsnippet).isParsed
    exact hinside.every hgrows (fun _ _ htouches _ => by simp [htouches.isRaw]) hnew
      (fun _ _ _ _ _ => rfl) hparsed.2.1

/-- A block that is added leaves the file readable. -/
theorem readable_appended (hreadable : f.Readable row)
    (hphrases : Recipe.Phrases t.declared written text) :
    ∃ row', (f.appendBlock text).Readable row' := by
  obtain ⟨piece, hpiece⟩ := hphrases.exists_blockPiece
  have hrow : ofStretches 0 [] row = ((ofStretches 0 [] row).1, f.tail.toList) := by
    rw [← hreadable.tail, String.toList_ofList]
  have hparsed : ∀ s ∈ (f.appendBlock text).statements, s.isParsed = true := by
    obtain ⟨h, ch, d, hstatements, -, hd⟩ := appendBlock_calls hphrases f
    have hinside : d.isParsed = true := hd.isParsed
    rw [hstatements, List.forall_mem_append, List.forall_mem_singleton]
    refine ⟨hreadable.parsed, ?_⟩
    simpa [Node.isParsed, Node.every, Call.plain, Node.isRaw] using hinside
  have htail : (f.appendBlock text).tail.toList = if f.tail.toList = [] then ['\n']
      else f.tail.toList := by
    simp only [SourceFile.appendBlock, String.isEmpty_iff, String.toList_eq_nil_iff]
    split_ifs <;> rfl
  by_cases hempty : f.statements = []
  · have hnil : (ofStretches 0 [] row).1 = [] := by
      have hspelled := hreadable.spelled
      rw [hempty] at hspelled
      generalize (ofStretches 0 [] row).1 = ts at hspelled
      cases hspelled
      rfl
    rw [hnil] at hrow
    obtain ⟨row', hscan, hrow'⟩ :=
      @exists_appended _ _ _ _ [] _ hreadable.scan hrow hpiece (by simp) (by simp)
    have hspelled := @IsPiece.spelled _ _ [] hpiece (by simp)
    refine ⟨row', SourceFile.readable_of_anywhere hscan hreadable.lead ?_ (htail ▸ hrow') hparsed⟩
    simpa [SourceFile.appendBlock, hempty, String.append_assoc] using hspelled
  · have hblank : ∀ c ∈ ['\n', '\n'], isSpace c = true := by simp [isSpace]
    obtain ⟨row', hscan, hrow'⟩ :=
      exists_appended hreadable.scan hrow hpiece hblank fun _ => ⟨_, rfl⟩
    have hspelled := hpiece.spelled hblank
    have hends : Node.terminated (ofStretches 0 [] (Recipe.leadRow ['\n', '\n'] ++ piece)).1 =
        true := by
      rw [Recipe.ofStretches_leadRow]
      exact terminated_ofStretches List.mem_cons_self _ _
    refine ⟨row', SourceFile.readable_of_anywhere hscan hreadable.lead ?_ (htail ▸ hrow') hparsed⟩
    have hsep : f.statements.isEmpty = false := by simpa using hempty
    have hall := hreadable.spelled.statements_append hspelled hends
    rw [← String.append_assoc, ← String.append_assoc] at hall
    simp only [SourceFile.appendBlock, hsep]
    exact hall

/-- A declaration that is written to a file leaves it readable. -/
theorem Declared.readable (h : Declared coordinate text t f f')
    (hphrases : Recipe.Phrases t.declared written text) (hreadable : f.Readable row) :
    ∃ row', f'.Readable row' := by
  cases h with
  | kept settled => exact ⟨row, hreadable⟩
  | grown is earlier inside grows indented blank snippet =>
    exact readable_grown hreadable hphrases is inside grows indented blank snippet
  | appended missing top => exact readable_appended hreadable hphrases

end Step

end BuildScript
