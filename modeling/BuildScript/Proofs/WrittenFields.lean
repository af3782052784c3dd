import BuildScript.Proofs.Coordinates

/-!
# Fields of a written dependency

The fields of a dependency have no names when they are written: a reader tells them apart by their
positions. So a dependency is read back with its version, and a classifier that is written without a
version in front of it is read as one.
-/

namespace BuildScript

namespace Text

def isUnseparated (text : String) : Bool := text.toList.all fun c => c ≠ ':' && c ≠ '@'

/-- The text can be a field, and is the same without the blanks around it. -/
def isField (text : String) : Bool :=
  !text.isEmpty && decide (trim text = text) && isUnseparated text

theorem not_mem_of_isUnseparated {text : String} (h : isUnseparated text = true) :
    ':' ∉ text.toList ∧ '@' ∉ text.toList := by
  simp only [isUnseparated, List.all_eq_true, Bool.and_eq_true, decide_eq_true_eq, ne_eq] at h
  exact ⟨fun hmem => (h _ hmem).1 rfl, fun hmem => (h _ hmem).2 rfl⟩

theorem isField_iff {text : String} :
    isField text = true ↔ text ≠ "" ∧ trim text = text ∧ isUnseparated text = true := by
  simp [isField, and_assoc]

end Text

namespace Dependency

/-- What stands behind the last field: nothing, or whatever an `@` sets off. -/
inductive IsEnding : String → Prop
  | none : IsEnding ""
  | extension (text : String) : IsEnding ("@" ++ text)

theorem writtenFields_joinWith {part : String} {parts : List String} {ending : String}
    (h : ∀ p ∈ part :: parts, Text.isUnseparated p = true) (hending : IsEnding ending) :
    writtenFields (Text.joinWith ":" (part :: parts) ++ ending) =
      (part :: parts).map Text.trim := by
  have hcolon : ∀ p ∈ part :: parts, ':' ∉ p.toList :=
    fun p hp => (Text.not_mem_of_isUnseparated (h p hp)).1
  have hat : '@' ∉ (Text.joinWith ":" (part :: parts)).toList :=
    Text.not_mem_joinWith (by simp) fun p hp => (Text.not_mem_of_isUnseparated (h p hp)).2
  have hfront : Text.front '@' (Text.joinWith ":" (part :: parts) ++ ending).toList =
      (Text.joinWith ":" (part :: parts)).toList := by
    rw [String.toList_append, Text.front_append hat]
    cases hending with
    | none => simp [Text.front, Text.cutFirst?]
    | extension text => simp [String.toList_append, Text.front_cons_self]
  have hbody : writtenFields (Text.joinWith ":" (part :: parts) ++ ending) =
      (Text.fields ':' (Text.front '@' (Text.joinWith ":" (part :: parts) ++ ending).toList)).map
        fun field =>
        String.ofList (Text.trimChars field) := rfl
  rw [hbody, hfront, Text.fields_joinWith hcolon, List.map_map]
  rfl

/-- Of the fields behind group and artifact only the first counts, and only if it is not blank. -/
theorem parse_joinWith {group artifact : String} {others : List String} {ending : String}
    (hgroup : Text.isField group = true) (hartifact : Text.isField artifact = true)
    (hothers : ∀ p ∈ others, Text.isUnseparated p = true) (hending : IsEnding ending) :
    parse (Text.joinWith ":" (group :: artifact :: others) ++ ending) =
      .ok ⟨⟨group, artifact⟩,
        (others.head?.map Text.trim).filter fun version => !version.isEmpty⟩ := by
  obtain ⟨hne, htrim, hplain⟩ := Text.isField_iff.mp hgroup
  obtain ⟨hne', htrim', hplain'⟩ := Text.isField_iff.mp hartifact
  have hparts : ∀ p ∈ group :: artifact :: others, Text.isUnseparated p = true := by
    rw [List.forall_mem_cons, List.forall_mem_cons]
    exact ⟨hplain, hplain', hothers⟩
  have hfields := writtenFields_joinWith hparts hending
  rw [List.map_cons, List.map_cons, htrim, htrim'] at hfields
  simp [parse, hfields, hne, hne', List.head?_map]

structure IsWritable (d : Dependency) : Prop where
  group : Text.isField d.group = true
  artifact : Text.isField d.artifact = true
  version : ∀ version, d.version = some version → Text.isField version = true

instance (d : Dependency) : Decidable d.IsWritable :=
  decidable_of_iff (Text.isField d.group = true ∧ Text.isField d.artifact = true ∧
    d.version.all Text.isField = true)
    ⟨fun ⟨hgroup, hartifact, hversion⟩ => ⟨hgroup, hartifact, (Option.all_eq_true ..).mp hversion⟩,
      fun h => ⟨h.group, h.artifact, (Option.all_eq_true ..).mpr h.version⟩⟩

theorem display_eq_joinWith (d : Dependency) :
    d.display = Text.joinWith ":" (d.group :: d.artifact :: d.version.toList) := by
  rcases d with ⟨⟨group, artifact⟩, _ | version⟩
  · simp [display, Coordinate.display, Text.joinWith]
  · simp [display, Coordinate.display, Text.joinWith, String.append_assoc]

theorem parse_display {d : Dependency} (h : d.IsWritable) : parse d.display = .ok d := by
  have hversion : ∀ p ∈ d.version.toList, Text.isUnseparated p = true := by
    intro p hp
    exact (Text.isField_iff.mp (h.version p (Option.mem_toList.mp hp))).2.2
  have hparse := parse_joinWith h.group h.artifact hversion .none
  rw [String.append_empty, ← display_eq_joinWith] at hparse
  rw [hparse]
  rcases d with ⟨coordinate, _ | version⟩
  · rfl
  · obtain ⟨hne, htrim, -⟩ := Text.isField_iff.mp (h.version version rfl)
    simp [htrim, hne]

end Dependency

namespace Recipe

def readClassifier (r : Recipe) : Option String :=
  (r.options.classifier.map Text.trim).filter fun classifier => !classifier.isEmpty

theorem written_eq_joinWith (r : Recipe) (version : Option String) :
    ∃ ending, Dependency.IsEnding ending ∧
      r.written version = Text.joinWith ":" (r.coordinate.group :: r.coordinate.artifact ::
        (version.toList ++ (r.options.classifier.filter fun c => !c.isEmpty).toList)) ++
          ending := by
  refine ⟨writtenPart "@" (r.options.extension.filter fun extension => extension ≠ "jar"), ?_, ?_⟩
  · obtain h | ⟨text, -, h⟩ :=
      writtenPart_cases "@" (r.options.extension.filter fun extension => extension ≠ "jar")
    · rw [h]
      exact .none
    · rw [h]
      exact .extension text
  · have hclassifier : writtenPart ":" r.options.classifier =
        ((r.options.classifier.filter fun c => !c.isEmpty).elim "" fun c => ":" ++ c) := by
      cases r.options.classifier with
      | none => rfl
      | some c => by_cases hempty : c.isEmpty = true <;> simp [writtenPart, Option.filter, hempty]
    unfold written
    rw [hclassifier]
    cases version <;> cases r.options.classifier.filter fun c => !c.isEmpty <;>
      simp [Coordinate.display, Text.joinWith, String.append_assoc]

/-- An empty classifier, which is not written, is blank. -/
theorem readClassifier_eq (r : Recipe) :
    (((r.options.classifier.filter fun c => !c.isEmpty).map Text.trim).filter fun c => !c.isEmpty) =
      r.readClassifier := by
  unfold readClassifier
  cases r.options.classifier with
  | none => rfl
  | some c =>
    by_cases hempty : c = ""
    · subst hempty
      rfl
    · simp [Option.filter, hempty]

theorem readClassifier_eq_none (r : Recipe) :
    r.readClassifier = none ↔ ∀ c, r.options.classifier = some c → Text.trim c = "" := by
  unfold readClassifier
  cases r.options.classifier <;> simp

/-- What a recipe writes is read with its group and artifact and with its version. Only if it has no
version, a classifier that is not blank is read in its place. -/
theorem written_is_read_by_position (r : Recipe) (version : Option String)
    (hgroup : Text.isField r.coordinate.group = true)
    (hartifact : Text.isField r.coordinate.artifact = true)
    (hversion : ∀ v, version = some v → Text.isField v = true)
    (hclassifier : ∀ c, r.options.classifier = some c → Text.isUnseparated c = true) :
    Dependency.parse (r.written version) = .ok ⟨r.coordinate, version.or r.readClassifier⟩ ∧
      (Dependency.parse (r.written version) = .ok ⟨r.coordinate, version⟩ ↔
        version.isSome = true ∨ ∀ c, r.options.classifier = some c → Text.trim c = "") := by
  obtain ⟨ending, hending, hwritten⟩ := written_eq_joinWith r version
  have hothers : ∀ p ∈ version.toList ++ (r.options.classifier.filter fun c => !c.isEmpty).toList,
      Text.isUnseparated p = true := by
    intro p hp
    rw [List.mem_append, Option.mem_toList, Option.mem_toList, Option.filter_eq_some_iff] at hp
    obtain hp | ⟨hp, -⟩ := hp
    · exact (Text.isField_iff.mp (hversion p hp)).2.2
    · exact hclassifier p hp
  have hread : Dependency.parse (r.written version) = .ok ⟨r.coordinate,
      version.or r.readClassifier⟩ := by
    rw [hwritten, Dependency.parse_joinWith hgroup hartifact hothers hending]
    cases version with
    | some v =>
      obtain ⟨hne, htrim, -⟩ := Text.isField_iff.mp (hversion v rfl)
      simp [htrim, hne]
    | none => simp [← readClassifier_eq]
  refine ⟨hread, ?_⟩
  rw [hread, ← readClassifier_eq_none]
  cases version <;> simp

theorem written_is_read_by_position_sources :
    ∃ r, ofOptions
        { group := "g", artifact := "a", version := some "1.0", classifier := some "sources",
          extension := some "zip" } = .ok r ∧
      r.version none = .ok (some "1.0") ∧
      r.written (some "1.0") = "g:a:1.0:sources@zip" ∧
      Dependency.parse (r.written (some "1.0")) = .ok ⟨⟨"g", "a"⟩, some "1.0"⟩ := by
  refine ⟨_, rfl, rfl, by decide +kernel,
    (written_is_read_by_position _ _ (by decide +kernel) (by decide +kernel) ?_ ?_).1⟩
  · rintro _ ⟨⟩
    decide +kernel
  · rintro _ ⟨⟩
    decide +kernel

/-- Without a version the classifier is written, and read, where the version would be. -/
theorem written_classifier_is_read_as_version :
    ∃ r, ofOptions { group := "g", artifact := "a", classifier := some "sources" } = .ok r ∧
      (Text.isField r.coordinate.group && Text.isField r.coordinate.artifact &&
        Text.isUnseparated "sources") = true ∧
      r.version none = .ok none ∧ r.written none = "g:a:sources" ∧
      Dependency.parse (r.written none) = .ok ⟨⟨"g", "a"⟩, some "sources"⟩ :=
  ⟨_, rfl, by decide +kernel, rfl, by decide +kernel, by decide +kernel⟩

end Recipe

end BuildScript
