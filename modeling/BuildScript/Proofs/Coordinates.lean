import BuildScript.Proofs.Cutting
import BuildScript.Recipe.Edit

/-!
# Written dependencies

What a recipe writes for its dependency is read back as a dependency of the same coordinate,
whatever version, classifier and extension follow it.
-/

namespace BuildScript

namespace Text

def isPlain (text : String) : Bool := text.toList.all fun c => c ≠ '"' && c ≠ '\'' && c ≠ '\\'

def isPlainPart (text : String) : Bool :=
  isPlain text && text.toList.all fun c => c ≠ ':' && c ≠ '@'

theorem isPlain_append (text more : String) :
    isPlain (text ++ more) = (isPlain text && isPlain more) := by
  simp [isPlain, String.toList_append, List.all_append]

end Text

namespace Recipe

/-- The recipe was made from options, and may look for types and versions in its own way. -/
def IsMade (r : Recipe) : Prop :=
  ∃ options made usage resolve, ofOptions options = .ok made ∧
    r = (made.withResolver resolve).withUsage usage

/-- Group and artifact hold neither separators nor quotes nor backslashes; classifier, extension and
the version that is written in a project with the graph hold neither quotes nor backslashes. -/
structure IsPlain (r : Recipe) (g : Option DependencyGraph) : Prop where
  group : Text.isPlainPart r.coordinate.group = true
  artifact : Text.isPlainPart r.coordinate.artifact = true
  version : ∀ version, r.version g = .ok (some version) → Text.isPlain version = true
  classifier : ∀ classifier, r.options.classifier = some classifier → Text.isPlain classifier = true
  extension : ∀ extension, r.options.extension = some extension → Text.isPlain extension = true

variable {r : Recipe}

/-- Group and artifact of a recipe are neither empty nor surrounded by blanks. -/
theorem IsMade.trimmed (h : r.IsMade) :
    (Text.trimChars r.coordinate.group.toList = r.coordinate.group.toList ∧
      r.coordinate.group ≠ "") ∧
      Text.trimChars r.coordinate.artifact.toList = r.coordinate.artifact.toList ∧
        r.coordinate.artifact ≠ "" := by
  obtain ⟨options, made, usage, resolve, hmade, rfl⟩ := h
  simp only [ofOptions] at hmade
  split_ifs at hmade with hgroup hartifact
  cases hselector : selectorOf options with
  | error e => simp [hselector, bind, Except.bind] at hmade
  | ok selector =>
    cases hfamily : familyOf options with
    | error e => simp [hselector, hfamily, bind, Except.bind] at hmade
    | ok family =>
      cases htype : typePatternOf options with
      | error e => simp [hselector, hfamily, htype, bind, Except.bind] at hmade
      | ok typePattern =>
        simp only [hselector, hfamily, htype, bind, Except.bind, Except.ok.injEq] at hmade
        subst hmade
        simp only [withResolver, withUsage, Text.trim, String.toList_ofList,
          Text.trimChars_trimChars, true_and]
        simp only [String.isEmpty_iff] at hgroup hartifact
        exact ⟨hgroup, hartifact⟩

def suffix (r : Recipe) (version : Option String) : String :=
  (match version with
    | some version => ":" ++ version
    | none => "") ++
    writtenPart ":" r.options.classifier ++
    writtenPart "@" (r.options.extension.filter fun extension => extension ≠ "jar")

theorem written_eq (r : Recipe) (version : Option String) :
    r.written version = r.coordinate.display ++ r.suffix version := by
  cases version <;> simp [written, suffix, String.append_assoc]

theorem writtenPart_cases (separator : String) (part : Option String) :
    writtenPart separator part = "" ∨
      ∃ text, part = some text ∧ writtenPart separator part = separator ++ text := by
  cases part with
  | none => exact Or.inl rfl
  | some text =>
    by_cases h : text.isEmpty = true
    · exact Or.inl (by simp [writtenPart, h])
    · exact Or.inr ⟨text, rfl, by simp [writtenPart, h]⟩

/-- Whatever follows the coordinate is set off by a separator. -/
theorem suffix_cases (r : Recipe) (version : Option String) :
    (r.suffix version).toList = [] ∨ (∃ rest, (r.suffix version).toList = ':' :: rest) ∨
      ∃ rest, (r.suffix version).toList = '@' :: rest := by
  have hcolon : ":".toList = [':'] := rfl
  have hat : "@".toList = ['@'] := rfl
  unfold suffix
  cases version with
  | some version => exact Or.inr (Or.inl ⟨_, by simp [String.toList_append, hcolon]; rfl⟩)
  | none =>
    obtain h | ⟨text, -, h⟩ := writtenPart_cases ":" r.options.classifier
    · obtain h' | ⟨text, -, h'⟩ :=
        writtenPart_cases "@" (r.options.extension.filter fun extension => extension ≠ "jar")
      · exact Or.inl (by simp only [h, h']; rfl)
      · exact Or.inr (Or.inr ⟨text.toList, by simp only [h, h', String.toList_append, hat]; rfl⟩)
    · exact Or.inr (Or.inl ⟨_, by simp only [h, String.toList_append, hcolon]; rfl⟩)

theorem isPlain_writtenPart {separator : String} {part : Option String}
    (hseparator : Text.isPlain separator = true)
    (h : ∀ text, part = some text → Text.isPlain text = true) :
    Text.isPlain (writtenPart separator part) = true := by
  obtain hpart | ⟨text, htext, hpart⟩ := writtenPart_cases separator part
  · rw [hpart]
    rfl
  · rw [hpart, Text.isPlain_append, hseparator, h text htext]
    rfl

/-- What a plain recipe writes can stand between quotes. -/
theorem IsPlain.written {g : Option DependencyGraph} (h : r.IsPlain g) {version : Option String}
    (hversion : r.version g = .ok version) : Text.isPlain (r.written version) = true := by
  have hgroup := h.group
  have hartifact := h.artifact
  simp only [Text.isPlainPart, Bool.and_eq_true] at hgroup hartifact
  have hcolon : Text.isPlain ":" = true := rfl
  have hat : Text.isPlain "@" = true := rfl
  have hextension : Text.isPlain
      (writtenPart "@" (r.options.extension.filter fun extension => extension ≠ "jar")) = true := by
    refine isPlain_writtenPart hat fun text htext => h.extension text ?_
    exact (Option.filter_eq_some_iff.mp htext).1
  have hclassifier := isPlain_writtenPart hcolon h.classifier
  cases version with
  | none =>
    simp only [Recipe.written, Coordinate.display, Text.isPlain_append, hgroup.1, hartifact.1,
      hcolon, hclassifier, hextension]
    rfl
  | some version =>
    simp only [Recipe.written, Coordinate.display, Text.isPlain_append, hgroup.1,
      hartifact.1, hcolon, h.version version hversion, hclassifier, hextension]
    rfl

/-- The text that a recipe writes is read as a dependency of its coordinate. -/
theorem parse_written (hmade : r.IsMade) (hgroup : Text.isPlainPart r.coordinate.group = true)
    (hartifact : Text.isPlainPart r.coordinate.artifact = true) (version : Option String) :
    ∃ found, Dependency.parse (r.written version) = .ok ⟨r.coordinate, found⟩ := by
  obtain ⟨⟨htrim, hne⟩, htrim', hne'⟩ := hmade.trimmed
  have hseparators : ∀ part, Text.isPlainPart part = true →
      ':' ∉ part.toList ∧ '@' ∉ part.toList := by
    intro part hpart
    simp only [Text.isPlainPart, Bool.and_eq_true, List.all_eq_true, decide_eq_true_eq,
      ne_eq] at hpart
    exact ⟨fun hmem => (hpart.2 _ hmem).1 rfl, fun hmem => (hpart.2 _ hmem).2 rfl⟩
  obtain ⟨hcolon, hat⟩ := hseparators _ hgroup
  obtain ⟨hcolon', hat'⟩ := hseparators _ hartifact
  have hfields : ∃ rest, Dependency.writtenFields (r.written version) =
      r.coordinate.group :: r.coordinate.artifact :: rest := by
    have hbody : Dependency.writtenFields (r.written version) =
        (Text.fields ':' (Text.front '@' (r.written version).toList)).map fun field =>
          String.ofList (Text.trimChars field) := rfl
    have htext : (r.written version).toList =
        r.coordinate.group.toList ++
          ':' :: (r.coordinate.artifact.toList ++ (r.suffix version).toList) := by
      rw [written_eq]
      simp [Coordinate.display, String.toList_append]
    rw [hbody, htext, Text.front_append hat, Text.front_cons_of_ne (by decide),
      Text.front_append hat', Text.fields_append hcolon]
    obtain h | ⟨rest, h⟩ | ⟨rest, h⟩ := r.suffix_cases version
    · refine ⟨[], ?_⟩
      have hnil : Text.front '@' [] = [] := rfl
      simp [h, hnil, Text.fields_of_not_mem hcolon', htrim, htrim']
    · refine ⟨(Text.fields ':' (Text.front '@' rest)).map fun field =>
        String.ofList (Text.trimChars field), ?_⟩
      simp [h, Text.front_cons_of_ne, Text.fields_append hcolon', htrim, htrim']
    · refine ⟨[], ?_⟩
      simp [h, Text.front_cons_self, Text.fields_of_not_mem hcolon', htrim, htrim']
  obtain ⟨rest, hfields⟩ := hfields
  refine ⟨rest.head?.filter fun version => !version.isEmpty, ?_⟩
  simp [Dependency.parse, hfields, hne, hne']

end Recipe

end BuildScript
