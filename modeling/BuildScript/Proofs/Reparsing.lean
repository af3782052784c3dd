import BuildScript.Proofs.Protocol
import BuildScript.Proofs.Roundtrip

/-!
# Parsing an edited file

An edit changes the tree of a file, not its text. If the text of the edited file is parsed, the tree
comes back, but for the names of its nodes and for the markers: every statement that is written
keeps the file readable, whatever else a recipe has written before.
-/

namespace BuildScript

/-- The file without its markers and without what tells it and its nodes from others. -/
def SourceFile.bare (f : SourceFile) : SourceFile :=
  { f with head := Head.new 0 f.head.lead, statements := f.statements.map Node.bare, markers := [] }

open Lexeme (Stretch)

variable {f : SourceFile} {row : List Stretch}

theorem SourceFile.Readable.parse_print (h : f.Readable row) :
    (parse f.path f.print).bare = f.bare := by
  obtain ⟨hstatements, htail⟩ := h.reread f.path
  have hhead : (parse f.path f.print).head.lead = f.head.lead := h.lead.symm
  have hpath : (parse f.path f.print).path = f.path := rfl
  rw [bare, bare, hstatements, htail, hhead, hpath]

theorem SourceFile.Readable.withMarkers (h : f.Readable row) (markers : List Marker) :
    (f.withMarkers markers).Readable row :=
  ⟨h.scan, h.lead, h.spelled, h.tail, h.parsed⟩

namespace Recipe

variable {r : Recipe} {s : Scanned} {targets : List Target} {written : String}

def WritesPlainly (r : Recipe) (s : Scanned) (f : SourceFile) : Prop :=
  ∀ t ∈ (r.plan f s).targets, Lexeme.isIdentifier t.declared = true ∧
    ∀ version, r.version f.graph? = .ok version → Text.isPlain (r.written version) = true

theorem IsPlain.writesPlainly (h : r.IsPlain f.graph?)
    (hnames : ∀ t ∈ (r.plan f s).targets, Lexeme.isIdentifier t.configuration = true) :
    r.WritesPlainly s f := by
  intro t ht
  refine ⟨isIdentifier_declared ht (hnames t ht), fun version hversion => ?_⟩
  exact h.written hversion

theorem WritesPlainly.phrases (h : r.WritesPlainly s f) {version : Option String}
    (hversion : r.version f.graph? = .ok version) :
    ∀ t ∈ (r.plan f s).targets,
      Phrases t.declared (r.written version) (r.statementFor f version t) := by
  intro t ht
  obtain ⟨hname, hplain⟩ := h t ht
  exact .mk hname f.firstQuote?_getD (hplain version hversion)

theorem readable_declareAll {text : Target → String}
    (hphrases : ∀ t ∈ targets, Phrases t.declared written (text t))
    (horderly : ∀ n ∈ f.statements, n.Orderly) (hreadable : f.Readable row) :
    ∃ row', (r.declareAll text targets f).Readable row' := by
  -- A statement that was written leaves a file to which the next one can be written.
  induction targets generalizing f row with
  | nil => exact ⟨row, hreadable⟩
  | cons t targets ih =>
    rw [List.forall_mem_cons] at hphrases
    have hstep := @declared_declare r t f (text t) written horderly hphrases.1
    obtain ⟨row', hreadable'⟩ := hstep.readable hphrases.1 hreadable
    exact ih hphrases.2 (hstep.orderly hphrases.1 horderly) hreadable'

theorem readable_edit (hplainly : r.WritesPlainly s f) (horderly : ∀ n ∈ f.statements, n.Orderly)
    (hreadable : f.Readable row) : ∃ row', (r.edit s f).1.Readable row' := by
  rw [edit_eq]
  cases hversion : r.version f.graph? with
  | error e => exact ⟨row, hreadable⟩
  | ok version => exact readable_declareAll (hplainly.phrases hversion) horderly hreadable

/-- An edited file is parsed from its text as the tree that it is. Nothing in it was kept verbatim,
and in front of its statements, and of `dependencies` blocks that are assigned, only blanks stood
behind the last line break. -/
theorem parse_print_edit (r : Recipe) (s : Scanned) {path text : String} {markers : List Marker}
    (hparsed : ∀ n ∈ (SourceFile.parse path text).statements, n.isParsed = true)
    (htidy : (SourceFile.parse path text).isTidy true = true)
    (hplainly : r.WritesPlainly s ((SourceFile.parse path text).withMarkers markers)) :
    (SourceFile.parse path
      (r.edit s ((SourceFile.parse path text).withMarkers markers)).1.print).bare =
      (r.edit s ((SourceFile.parse path text).withMarkers markers)).1.bare := by
  have horderly : ∀ n ∈ ((SourceFile.parse path text).withMarkers markers).statements, n.Orderly :=
    (SourceFile.IsRead.parsed path text _ _).orderly htidy
  obtain ⟨row, hreadable⟩ := SourceFile.exists_readable hparsed
  obtain ⟨row', hreadable'⟩ := readable_edit hplainly horderly (hreadable.withMarkers markers)
  have hpath := path_edit r s ((SourceFile.parse path text).withMarkers markers)
  rw [← hreadable'.parse_print, hpath]
  rfl

/-- A block on one line: its statement ended at the brace and ends at a line break now. -/
theorem parse_print_edit_of_one_line :
    ∃ f, f = buildFile "dependencies \x7b api 'g:b' \x7d\nx = 1 // end" ∧
      (sample.plan f (sample.scan [f])).targets = [⟨"implementation", .topLevel⟩] ∧
      (sample.edit (sample.scan [f]) f).1.print =
        "dependencies \x7b api 'g:b'\n    implementation 'g:a'\n\x7d\nx = 1 // end" ∧
      (SourceFile.parse "build.gradle" (sample.edit (sample.scan [f]) f).1.print).bare =
        (sample.edit (sample.scan [f]) f).1.bare := by
  have htargets : (sample.plan (buildFile "dependencies \x7b api 'g:b' \x7d\nx = 1 // end")
      (sample.scan [buildFile "dependencies \x7b api 'g:b' \x7d\nx = 1 // end"])).targets =
        [⟨"implementation", .topLevel⟩] := by
    decide +kernel
  refine ⟨_, rfl, htargets, by decide +kernel, ?_⟩
  apply parse_print_edit
  · decide +kernel
  · decide +kernel
  · apply (isPlain_sample _).writesPlainly
    exact htargets ▸ by decide

/-- Here the end of a comment is written in front of the new statement and of the closing brace.
What the tree holds as one statement and the end of the block is parsed as two statements. -/
theorem parse_print_edit_splits_assigned_block :
    (∀ n ∈ assignedBlock.statements, n.isParsed = true) ∧ assignedBlock.isTidy false = true ∧
      sample.WritesPlainly (sample.scan [assignedBlock]) assignedBlock ∧
      (SourceFile.parse "build.gradle"
        (sample.edit (sample.scan [assignedBlock]) assignedBlock).1.print).bare ≠
        (sample.edit (sample.scan [assignedBlock]) assignedBlock).1.bare := by
  refine ⟨by decide +kernel, by decide +kernel,
    (isPlain_sample _).writesPlainly (by decide +kernel), fun h => ?_⟩
  have hcount :=
    congrArg (fun f => f.statements.all (Node.every fun n => n.closureStatements.length ≤ 1)) h
  revert hcount
  decide +kernel

end Recipe

end BuildScript
