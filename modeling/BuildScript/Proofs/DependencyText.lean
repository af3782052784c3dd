import BuildScript.Proofs.WrittenFields

/-!
# Texts of dependencies

Which texts are read as a dependency, and that reading loses nothing which is written again: a
dependency that has been read has no separators in its fields and no blanks around them, so it is
what its own text is read as.
-/

namespace BuildScript

namespace Dependency

variable {text part : String} {d : Dependency}

theorem writtenFields_eq (text : String) :
    writtenFields text =
      ((text.toList.takeWhile (· ≠ '@')).splitOn ':').map fun field =>
        String.ofList (Text.trimChars field) := by
  rw [← Text.fields_eq_splitOn, ← Text.front_eq_takeWhile]
  rfl

/-- A part that is found in a text, if there is anything in it, can be written as a field again. -/
theorem isField_of_mem_writtenFields (h : part ∈ writtenFields text) (hne : part ≠ "") :
    Text.isField part = true := by
  rw [writtenFields_eq, ← Text.fields_eq_splitOn, List.mem_map] at h
  obtain ⟨field, hfield, rfl⟩ := h
  refine Text.isField_iff.mpr ⟨hne, ?_, ?_⟩
  · rw [Text.trim, String.toList_ofList, Text.trimChars_trimChars]
  · rw [Text.isUnseparated, List.all_eq_true, String.toList_ofList]
    intro c hc
    obtain ⟨hbody, hcolon⟩ := Text.mem_of_mem_fields hfield (Text.mem_of_mem_trimChars hc)
    have hat := List.mem_takeWhile_imp hbody
    simp only [decide_eq_true_eq] at hat
    simp [hcolon, hat]

theorem parse_eq_ok_iff :
    parse text = .ok d ↔
      ∃ rest, writtenFields text = d.group :: d.artifact :: rest ∧ d.group ≠ "" ∧ d.artifact ≠ "" ∧
      d.version = rest.head?.filter fun version => !version.isEmpty := by
  obtain ⟨⟨group, artifact⟩, version⟩ := d
  constructor
  · intro h
    rw [parse] at h
    split at h
    · next group' artifact' rest hfields =>
      split_ifs at h with hempty
      cases h
      simp only [Bool.or_eq_true, String.isEmpty_iff, not_or] at hempty
      exact ⟨rest, hfields, hempty.1, hempty.2, rfl⟩
    · cases h
  · rintro ⟨rest, hfields, hgroup, hartifact, hversion⟩
    dsimp only at hfields hgroup hartifact hversion
    simp [parse, hfields, hgroup, hartifact, hversion]

theorem isWritable_of_parse (h : parse text = .ok d) : d.IsWritable := by
  obtain ⟨rest, hfields, hgroup, hartifact, hversion⟩ := parse_eq_ok_iff.mp h
  have hfield : ∀ part ∈ d.group :: d.artifact :: rest, part ≠ "" → Text.isField part = true :=
    fun part hpart => isField_of_mem_writtenFields (hfields ▸ hpart)
  refine ⟨hfield _ (by simp) hgroup, hfield _ (by simp) hartifact, ?_⟩
  intro version hsome
  obtain ⟨hhead, hne⟩ := Option.filter_eq_some_iff.mp (hversion.symm.trans hsome)
  have hmem : version ∈ rest := List.mem_of_head? hhead
  exact hfield version (by simp [hmem]) (by simpa using hne)

def HasCoordinate (text : String) : Prop :=
  ∃ group artifact rest, (text.toList.takeWhile (· ≠ '@')).splitOn ':' = group :: artifact :: rest ∧
    (∃ c ∈ group, Text.isBlank c = false) ∧ ∃ c ∈ artifact, Text.isBlank c = false

theorem exists_parse_iff : (∃ d, parse text = .ok d) ↔ HasCoordinate text := by
  simp only [parse_eq_ok_iff, writtenFields_eq, HasCoordinate, ← Text.trimChars_ne_nil_iff, ne_eq,
    ← String.ofList_eq_empty_iff]
  constructor
  · rintro ⟨d, rest, hfields, hgroup, hartifact, -⟩
    obtain ⟨group, more, hsplit, hgroup', hmore⟩ := List.map_eq_cons_iff.mp hfields
    obtain ⟨artifact, others, rfl, hartifact', -⟩ := List.map_eq_cons_iff.mp hmore
    rw [← hgroup'] at hgroup
    rw [← hartifact'] at hartifact
    exact ⟨group, artifact, others, hsplit, hgroup, hartifact⟩
  · rintro ⟨group, artifact, rest, hsplit, hgroup, hartifact⟩
    rw [hsplit]
    exact ⟨⟨⟨_, _⟩, _⟩, _, rfl, hgroup, hartifact, rfl⟩

theorem parse_cases (text : String) :
    (∃ d, parse text = .ok d) ∨ parse text = .error (.invalidCoordinate text) := by
  rw [parse]
  split
  · split_ifs
    · exact Or.inr rfl
    · exact Or.inl ⟨_, rfl⟩
  · exact Or.inr rfl

/-- A text is read as a dependency exactly if it has two fields in front of the first `@` that are
not blank, and is named in the error otherwise. Whatever is read is also what its own text is read
as. -/
theorem parse_reads_back (text : String) :
    ((∃ d, parse text = .ok d) ↔ HasCoordinate text) ∧
      (¬ HasCoordinate text → parse text = .error (.invalidCoordinate text)) ∧
      ∀ d, parse text = .ok d → parse d.display = .ok d := by
  refine ⟨exists_parse_iff, fun hnot => ?_, fun d h => parse_display (isWritable_of_parse h)⟩
  exact (parse_cases text).resolve_left fun hok => hnot (exists_parse_iff.mp hok)

theorem parse_reads_back_trimmed :
    parse " g : a : : sources @zip" = .ok ⟨⟨"g", "a"⟩, none⟩ ∧ display ⟨⟨"g", "a"⟩, none⟩ = "g:a" ∧
      parse (display ⟨⟨"g", "a"⟩, none⟩) = .ok ⟨⟨"g", "a"⟩, none⟩ ∧
      parse "g@a:b" = .error (.invalidCoordinate "g@a:b") := by
  have hparse : parse " g : a : : sources @zip" = .ok ⟨⟨"g", "a"⟩, none⟩ := by decide +kernel
  have hnot : ¬ HasCoordinate "g@a:b" := by
    rintro ⟨group, artifact, rest, hsplit, -⟩
    have hone : ("g@a:b".toList.takeWhile (· ≠ '@')).splitOn ':' = [['g']] := by decide
    rw [hone] at hsplit
    cases hsplit
  exact ⟨hparse, rfl, (parse_reads_back _).2.2 _ hparse, (parse_reads_back _).2.1 hnot⟩

end Dependency

end BuildScript
