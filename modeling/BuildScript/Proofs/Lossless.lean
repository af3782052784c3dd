import BuildScript.Proofs.Reading
import BuildScript.Proofs.Scanning
import BuildScript.SourceFile.Basic

/-!
# Lossless parsing

Whatever a script holds, its tree prints as the script.
-/

namespace BuildScript

namespace Node

theorem printAll_eq_join (nodes : List Node) : printAll nodes = String.join (nodes.map print) := by
  induction nodes with
  | nil => rfl
  | cons node nodes ih => simp [printAll, ih, String.join_cons]

/-- The statements of a script are spelled by all of its lexemes. -/
theorem spelled_parseScript (script : String) :
    Spelled (.statements (parseScript script).1) (Lexeme.scan script).1 := by
  have hf : AllFormed (Lexeme.scan script).1 := Lexeme.formed_scan script
  obtain ⟨ts, hts, hspelled⟩ := (sound (fuelFor (Lexeme.scan script).1)).statements false _ hf
  rw [statements_behind hf (by unfold fuelFor; omega), List.append_nil] at hts
  simp only [parseScript]
  rwa [← hts] at hspelled

theorem printAll_parseScript (script : String) :
    printAll (parseScript script).1 ++ (parseScript script).2 = script := by
  have hprint := (spelled_parseScript script).print_eq
  simp only [Phrase.print] at hprint
  rw [hprint]
  exact Lexeme.written_scan script

end Node

theorem SourceFile.print_of_parse (path script : String) :
    (SourceFile.parse path script).print = script := by
  simpa [SourceFile.print, SourceFile.parse, SourceFile.new,
    Head.new] using Node.printAll_parseScript script

/-- Every script prints back as it was read, under every path and on malformed input as well. The
statements of a fragment give back all of it but the trivia behind the last lexeme. -/
theorem print_parse (path script : String) :
    (SourceFile.parse path script).print = script ∧
      String.join ((Node.parseSnippet script).map Node.print) ++ (Lexeme.scan script).2 =
        script := by
  refine ⟨SourceFile.print_of_parse path script, ?_⟩
  rw [← Node.printAll_eq_join]
  exact Node.printAll_parseScript script

end BuildScript
