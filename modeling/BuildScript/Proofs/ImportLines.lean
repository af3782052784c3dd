import BuildScript.Proofs.BlankCharacters
import BuildScript.Proofs.PackagePatterns
import BuildScript.TypeUse.Imports

/-!
# Which imports are found

A file is searched in two ways for a type: by lines that import a whole package, and by the dotted
names in its text. Together they find every import of a type that a pattern covers and every import
of its package, with two gaps. A line that imports a package is told by its end, so a comment behind
it hides it. And a word ends at a mark, which is a name character for a pattern.
-/

namespace BuildScript

namespace Text

theorem Category.of_eq_of_find? {c : Char} {stop : Nat} {category : Category}
    (h : runs.find? (fun run => c.toNat < run.1) = some (stop, category)) : of c = category := by
  unfold of
  rw [h]

/-- The grave accent that is put on the character in front of it. -/
theorem Category.of_grave : of '\u0300' = .Mn := by
  apply of_eq_of_find?
  apply runs_of_table (P := fun runs =>
    runs.find? (fun run => '\u0300'.toNat < run.1) = some (0x370, .Mn))
  case htable =>
    unfold table
    repeat apply flatMap_toList_cons
    rfl
  case h => decide +kernel

end Text

namespace PatternPart

variable {c : Char} {name pattern : List Char}

/-- Only dots and name characters get into a name without being in the pattern. -/
theorem eq_char_of_mem_language {part : PatternPart} (h : name ∈ part.language) (hc : c ∈ name)
    (hdot : c ≠ '.') (hname : isNameChar c = false) : part = char c := by
  have hchars : ∀ s : List Char, (∀ d ∈ s, isNameChar d = true) → c ∉ s := by
    intro s hs hmem
    rw [hs c hmem] at hname
    cases hname
  cases part with
  | char d =>
    obtain rfl : name = [d] := h
    rw [List.mem_singleton.mp hc]
  | run => exact absurd hc (hchars name h)
  | descent =>
    obtain ⟨segments, hsegments, rfl⟩ := h
    obtain ⟨s, hs, hmem⟩ : ∃ s ∈ segments, c ∈ s := by simpa [hdot] using hc
    exact absurd hmem (hchars s (hsegments s hs).2)
  | below =>
    obtain ⟨segments, hsegments, rfl⟩ := h
    obtain ⟨s, hs, hmem⟩ : ∃ s ∈ segments, c ∈ s := by simpa [hdot] using hc
    exact absurd hmem (hchars s (hsegments s hs).2)

theorem char_mem_of_mem_languageOf {parts : List PatternPart} (h : name ∈ languageOf parts)
    (hc : c ∈ name) (hdot : c ≠ '.') (hname : isNameChar c = false) : char c ∈ parts := by
  induction parts generalizing name with
  | nil =>
    obtain rfl : name = [] := (Language.mem_one name).mp h
    cases hc
  | cons part parts ih =>
    obtain ⟨front, hfront, rest, hrest, rfl⟩ := mem_languageOf_cons.mp h
    rcases List.mem_append.mp hc with hc | hc
    · rw [eq_char_of_mem_language hfront hc hdot hname]
      exact List.mem_cons_self
    · exact List.mem_cons_of_mem _ (ih hrest hc)

theorem mem_of_char_mem_ofText (h : char c ∈ ofText pattern) : c ∈ pattern := by
  fun_induction ofText pattern with
  | case1 rest ih =>
    have hmem : char c ∈ ofText rest := by simpa using h
    exact List.mem_cons_of_mem _ (List.mem_cons_of_mem _ (ih hmem))
  | case2 rest ih =>
    have hmem : char c ∈ ofText rest := by simpa using h
    exact List.mem_cons_of_mem _ (ih hmem)
  | case3 d rest _ _ ih =>
    rcases List.mem_cons.mp h with heq | hmem
    · cases heq
      exact List.mem_cons_self
    · exact List.mem_cons_of_mem _ (ih hmem)
  | case4 => cases h

end PatternPart

namespace TypePattern

variable {p : TypePattern} {text line name package word front rest x : List Char}

theorem words_eq_splitOnP (text : List Char) :
    words text = text.splitOnP fun c => !isQualifiedChar c := by
  induction text with
  | nil => rfl
  | cons c text ih =>
    rw [words, ih, List.splitOnP_cons_eq_if_modifyHead]
    cases isQualifiedChar c with
    | false => rfl
    | true =>
      cases hwords : List.splitOnP (fun c => !isQualifiedChar c) text with
      | nil => exact absurd hwords (List.splitOnP_ne_nil _ _)
      | cons word more => rfl

/-- Words on two sides of a character that is in none. -/
theorem words_append_cons {c : Char} (hc : isQualifiedChar c = false) (front rest : List Char) :
    words (front ++ c :: rest) = words front ++ words rest := by
  simp only [words_eq_splitOnP]
  exact List.splitOnP_append_cons front rest (by simpa using hc)

/-- A text starts with no character that is in a word. -/
def Ends (text : List Char) : Prop := ∀ c ∈ text.head?, isQualifiedChar c = false

theorem mem_words (hword : ∀ c ∈ word, isQualifiedChar c = true) (hrest : Ends rest) :
    word ∈ words (word ++ rest) := by
  cases rest with
  | nil =>
    rw [List.append_nil, words_eq_splitOnP, List.splitOnP_eq_singleton (by simpa using hword)]
    exact List.mem_singleton_self word
  | cons c rest =>
    rw [words_append_cons (hrest c rfl), words_eq_splitOnP word,
      List.splitOnP_eq_singleton (by simpa using hword)]
    exact List.mem_cons_self

theorem ends_dropWhile (text : List Char) : Ends (text.dropWhile isQualifiedChar) := by
  intro c hc
  have hstop := List.head?_dropWhile_not isQualifiedChar text
  rwa [hc] at hstop

/-- A word that goes on behind a text without dots has no dots either if the text is at an end. -/
theorem dot_not_mem_takeWhile (hdot : '.' ∉ front) (hrest : Ends rest) :
    '.' ∉ (front ++ rest).takeWhile isQualifiedChar := by
  induction front with
  | nil =>
    cases rest with
    | nil => exact List.not_mem_nil
    | cons c rest => simp [hrest c rfl]
  | cons c front ih =>
    rw [List.mem_cons, not_or] at hdot
    rw [List.cons_append, List.takeWhile_cons]
    split_ifs
    · rw [List.mem_cons, not_or]
      exact ⟨hdot.1, ih hdot.2⟩
    · exact List.not_mem_nil

/-- The words of a line are words of the text. -/
theorem words_subset (h : line ∈ Text.fields '\n' text) : words line ⊆ words text := by
  generalize hfields : Text.fields '\n' text = lines at h
  induction lines generalizing text with
  | nil => cases h
  | cons first lines ih =>
    obtain ⟨-, rest, rfl, hrest⟩ := Text.fields_eq_cons hfields
    cases hrest with
    | none =>
      rw [List.append_nil, List.mem_singleton.mp h]
      exact List.Subset.refl _
    | some rest =>
      rw [words_append_cons (by decide)]
      rcases List.mem_cons.mp h with rfl | h
      · exact List.subset_append_left _ _
      · exact List.Subset.trans (ih rfl h) (List.subset_append_right _ _)

/-- A name without empty segments that starts with no digit. -/
structure IsDotted (name : List Char) : Prop where
  segments : [] ∉ Text.fields '.' name
  chars : ∀ c ∈ name, isQualifiedChar c = true
  head : name.head?.any Char.isDigit = false

namespace IsDotted

theorem ne_nil (h : IsDotted name) : name ≠ [] := by
  rintro rfl
  exact h.segments List.mem_cons_self

theorem append (h : IsDotted name) (hx : x ≠ []) (hdot : '.' ∉ x)
    (hchars : ∀ c ∈ x, isQualifiedChar c = true) :
    IsDotted (name ++ '.' :: x) := by
  refine ⟨?_, ?_, ?_⟩
  · rw [Text.fields_append_cons, Text.fields_of_not_mem hdot, List.mem_append,
      List.mem_singleton, not_or]
    exact ⟨h.segments, Ne.symm hx⟩
  · rw [List.forall_mem_append, List.forall_mem_cons]
    exact ⟨h.chars, by decide, hchars⟩
  · rw [List.head?_append_of_ne_nil _ h.ne_nil]
    exact h.head

theorem isBase (h : IsDotted name) : IsBase name := by
  refine ⟨h.ne_nil, fun hlast => ?_⟩
  obtain ⟨front, rfl⟩ := List.getLast?_eq_some_iff.mp hlast
  exact h.segments (by rw [Text.fields_append_cons]; simp [Text.fields])

theorem trimDots_append {dots : List Char} (h : IsDotted name) (hdots : ∀ c ∈ dots, c = '.') :
    trimDots (name ++ dots) = name := by
  have hfront : (name ++ dots).dropWhile (· = '.') = name ++ dots := by
    obtain ⟨c, more, rfl⟩ := List.exists_cons_of_ne_nil h.ne_nil
    refine List.dropWhile_cons_of_neg ?_
    simp only [decide_eq_true_eq]
    rintro rfl
    exact h.segments (by simp [Text.fields])
  rw [trimDots, hfront, List.reverse_append, List.dropWhile_append_of_pos (by simpa using hdots),
    h.isBase.dropDots]

theorem not_occurs (h : IsDotted name) : Text.occurs ['.', '.'] name = false := by
  rw [Bool.eq_false_iff]
  intro hoccurs
  obtain ⟨front, rest, rfl⟩ := Text.occurs_iff.mp hoccurs
  apply h.segments
  rw [List.append_assoc, List.cons_append, Text.fields_append_cons]
  simp [Text.fields]

/-- A dotted name that stands in a text as a word, perhaps with dots behind it, is one of its
names. -/
theorem mem_qualifiedNames {dots : List Char} (h : IsDotted name) (hdot : '.' ∈ name)
    (hdots : ∀ c ∈ dots, c = '.') (hword : name ++ dots ∈ words text) :
    name ∈ qualifiedNames text := by
  rw [qualifiedNames, List.mem_filter]
  refine ⟨List.mem_map.mpr ⟨_, hword, h.trimDots_append hdots⟩, ?_⟩
  simp [hdot, h.not_occurs, h.head]

end IsDotted

theorem mem_heads (fuel : Nat) (name : List Char) :
    name ∈ heads (fuel + 1) name := List.mem_cons_self

theorem mem_heads_append (fuel : Nat) (name : List Char) (hx : '.' ∉ x) :
    name ∈ heads (fuel + 2) (name ++ '.' :: x) := by
  rw [heads, Text.cutLast?_append hx]
  exact List.mem_cons_of_mem _ (mem_heads fuel name)

theorem isUsedIn_of_mem (hname : name ∈ qualifiedNames text) (hx : x ∈ heads (name.length + 1) name)
    (hcovers : p.covers x = true) : p.isUsedIn text = true := by
  rw [isUsedIn, Bool.or_eq_true]
  exact Or.inr (List.any_eq_true.mpr ⟨name, hname, List.any_eq_true.mpr ⟨x, hx, hcovers⟩⟩)

theorem isUsedIn_of_wildcard (hline : line ∈ Text.fields '\n' text)
    (hpackage : (wildcardImport? line).any p.coversPackage = true) : p.isUsedIn text = true := by
  rw [isUsedIn, Bool.or_eq_true]
  exact Or.inl (List.any_eq_true.mpr ⟨line, hline, hpackage⟩)

theorem isBlank_of_isQualifiedChar {c : Char} (h : isQualifiedChar c = true) :
    Text.isBlank c = false := by
  rw [Bool.eq_false_iff]
  intro hblank
  rw [isQualifiedChar, Text.isAlphanumeric_of_isBlank hblank, Bool.false_or] at h
  simp only [Bool.or_eq_true, decide_eq_true_eq] at h
  rcases h with (rfl | rfl) | rfl <;> cases hblank

inductive Imported where
  | type
  /-- A member of the type, or all of them with a star. -/
  | member (name : List Char) (dotless : '.' ∉ name)
  | package

def Imported.target (package type : List Char) : Imported → List Char
  | .type => package ++ '.' :: type
  | .member name _ => package ++ '.' :: type ++ '.' :: name
  | .package => package ++ ".*".toList

/-- What is on a line with an import, beside the name that it imports. -/
structure ImportLine where
  indent : List Char
  isStatic : Bool
  semicolon : Bool
  gap : List Char
  comment : Option (List Char)
  blankIndent : ∀ c ∈ indent, Text.isBlank c = true
  blankGap : ∀ c ∈ gap, Text.isBlank c = true

namespace ImportLine

variable {target : List Char}

def keyword (l : ImportLine) : List Char := if l.isStatic then "static ".toList else []

def mark (l : ImportLine) : List Char := if l.semicolon then [';'] else []

def ending (l : ImportLine) : List Char := l.mark ++ (l.gap ++ l.comment.elim [] ("//".toList ++ ·))

def written (l : ImportLine) (target : List Char) : List Char :=
  l.indent ++ ("import ".toList ++ (l.keyword ++ (target ++ l.ending)))

theorem ends_ending (l : ImportLine) : Ends l.ending := by
  intro c hc
  have hmem : c = ';' ∨ Text.isBlank c = true ∨ c = '/' := by
    have hmark : c ∈ l.mark.head? → c = ';' := by
      rw [mark]
      split_ifs <;> simp [eq_comm]
    have hcomment : c ∈ (l.comment.elim [] ("//".toList ++ ·)).head? → c = '/' := by
      cases l.comment <;> simp [eq_comm]
    simp only [ending, List.head?_append, Option.mem_def,
      Option.or_eq_some_iff] at hc hmark hcomment
    rcases hc with hc | ⟨-, hc | ⟨-, hc⟩⟩
    · exact Or.inl (hmark hc)
    · exact Or.inr (Or.inl (l.blankGap c (List.mem_of_mem_head? hc)))
    · exact Or.inr (Or.inr (hcomment hc))
  rcases hmem with rfl | hblank | rfl
  · decide
  · rw [← Bool.not_eq_true]
    intro hqualified
    rw [isBlank_of_isQualifiedChar hqualified] at hblank
    cases hblank
  · decide

/-- What is imported stands behind a blank. -/
theorem exists_written (l : ImportLine) (target : List Char) :
    ∃ front, l.written target = front ++ ' ' :: (target ++ l.ending) := by
  cases hstatic : l.isStatic with
  | false => exact ⟨l.indent ++ "import".toList, by simp [written, keyword, hstatic]⟩
  | true => exact ⟨l.indent ++ "import static".toList, by simp [written, keyword, hstatic]⟩

theorem mem_words_written (l : ImportLine) (hword : ∀ c ∈ word, isQualifiedChar c = true)
    (hrest : Ends rest) (htarget : target ++ l.ending = word ++ rest) :
    word ∈ words (l.written target) := by
  obtain ⟨front, hfront⟩ := l.exists_written target
  rw [hfront, words_append_cons (by decide), htarget]
  exact List.mem_append_right _ (mem_words hword hrest)

/-- A line that imports a type refers to the type. -/
theorem isUsedIn_type (l : ImportLine) (hname : IsDotted name) (hdot : '.' ∈ name)
    (hcovers : p.covers name = true) (hline : l.written name ∈ Text.fields '\n' text) :
    p.isUsedIn text = true := by
  have hword : name ++ [] ∈ words text := by
    rw [List.append_nil]
    exact words_subset hline (l.mem_words_written hname.chars l.ends_ending rfl)
  exact isUsedIn_of_mem (hname.mem_qualifiedNames hdot (List.forall_mem_nil _) hword)
    (mem_heads _ _) hcovers

/-- So does a line that imports a member of it, even where the word stops inside the member. -/
theorem isUsedIn_member (l : ImportLine) {member : List Char} (hmember : '.' ∉ member)
    (hname : IsDotted name) (hdot : '.' ∈ name) (hcovers : p.covers name = true)
    (hline : l.written (name ++ '.' :: member) ∈ Text.fields '\n' text) :
    p.isUsedIn text = true := by
  -- The word may end in the member, or right in front of it: then the dot is left, and is trimmed.
  let found := (member ++ l.ending).takeWhile isQualifiedChar
  have hfound : '.' ∉ found := dot_not_mem_takeWhile hmember l.ends_ending
  have hchars : ∀ c ∈ found, isQualifiedChar c = true := fun c hc => List.mem_takeWhile_imp hc
  have hword : name ++ '.' :: found ∈ words text := by
    refine words_subset hline (l.mem_words_written ?_ (ends_dropWhile (member ++ l.ending)) ?_)
    · rw [List.forall_mem_append, List.forall_mem_cons]
      exact ⟨hname.chars, by decide, hchars⟩
    · rw [List.append_assoc, List.append_assoc, List.cons_append, List.cons_append,
        List.takeWhile_append_dropWhile]
  by_cases hempty : found = []
  · rw [hempty] at hword
    have hdots : ∀ c ∈ ['.'], c = '.' := by simp
    exact isUsedIn_of_mem (hname.mem_qualifiedNames hdot hdots hword) (mem_heads _ _) hcovers
  · have hlong : IsDotted (name ++ '.' :: found) := hname.append hempty hfound hchars
    have hmem : name ++ '.' :: found ∈ qualifiedNames text :=
      hlong.mem_qualifiedNames (by simp) (List.forall_mem_nil _) (by simpa using hword)
    have hlength : (name ++ '.' :: found).length + 1 = name.length + found.length + 2 := by
      rw [List.length_append, List.length_cons]
      omega
    refine isUsedIn_of_mem hmem ?_ hcovers
    rw [hlength]
    exact mem_heads_append _ name hfound

theorem isTight_body (l : ImportLine) (hne : target ≠ [])
    (hsolid : ∀ c ∈ target, Text.isBlank c = false) :
    Text.IsTight (l.keyword ++ target) := by
  have htarget := Text.isTight_of_forall hne hsolid
  have hstatic : Text.IsTight "static".toList :=
    Text.isTight_of_forall (by decide) (Text.isBlank_of_all (by decide))
  rw [keyword]
  split_ifs
  · exact hstatic.append htarget [' ']
  · exact htarget

theorem without_mark (l : ImportLine) (front : List Char) :
    ((front ++ ".*".toList ++ l.mark).reverse.dropWhile (· = ';')).reverse =
      front ++ ".*".toList := by
  rw [mark]
  split_ifs <;> simp

theorem without_keyword (l : ImportLine) (hsolid : ∀ c ∈ target, Text.isBlank c = false) :
    (Text.dropFront? "static ".toList (l.keyword ++ target)).getD (l.keyword ++ target) =
      target := by
  rw [keyword]
  split_ifs
  · rw [Text.dropFront?_eq_some.mpr rfl, Option.getD_some]
  · rw [List.nil_append]
    cases hdrop : Text.dropFront? "static ".toList target with
    | none => rfl
    | some rest =>
      have hblank := hsolid ' ' (by simp [Text.dropFront?_eq_some.mp hdrop])
      cases hblank

/-- Without a comment, the package is what is left of a line that imports all of it. -/
theorem wildcardImport?_written (l : ImportLine) (hcomment : l.comment = none)
    (hsolid : ∀ c ∈ package, Text.isBlank c = false) :
    wildcardImport? (l.written (package ++ ".*".toList)) = some package := by
  have htarget : ∀ c ∈ package ++ ".*".toList, Text.isBlank c = false := by
    rw [List.forall_mem_append]
    exact ⟨hsolid, Text.isBlank_of_all (by decide)⟩
  have hmark : ∀ c ∈ package ++ ".*".toList ++ l.mark, Text.isBlank c = false := by
    rw [List.forall_mem_append, mark]
    refine ⟨htarget, ?_⟩
    split_ifs <;> exact Text.isBlank_of_all (by decide)
  have himport : Text.IsTight "import".toList :=
    Text.isTight_of_forall (by decide) (Text.isBlank_of_all (by decide))
  have hbody := l.isTight_body (by simp) hmark
  have hline : l.written (package ++ ".*".toList) =
      l.indent ++ ("import".toList ++ [' '] ++ (l.keyword ++ (package ++ ".*".toList ++ l.mark))) ++
        l.gap := by
    simp [written, ending, hcomment]
  have hfront : Text.dropFront? "import ".toList
      (Text.trimChars (l.written (package ++ ".*".toList))) =
      some (l.keyword ++ (package ++ ".*".toList ++ l.mark)) := by
    rw [hline, (himport.append hbody [' ']).trimChars_surrounded l.blankIndent l.blankGap]
    exact Text.dropFront?_eq_some.mpr rfl
  rw [wildcardImport?, hfront]
  simp only [Option.bind_eq_bind, Option.bind_some]
  rw [hbody.trimChars, ← List.append_assoc, ← List.append_assoc, l.without_mark, List.append_assoc,
    (l.isTight_body (by simp) htarget).trimChars, l.without_keyword htarget,
    (Text.isTight_of_forall (by simp) htarget).trimChars]
  exact Text.dropBack?_eq_some.mpr rfl

theorem slash_mem_written (l : ImportLine) (hcomment : l.comment ≠ none) (target : List Char) :
    '/' ∈ l.written target := by
  obtain ⟨comment, hcomment⟩ := Option.ne_none_iff_exists'.mp hcomment
  simp [written, ending, hcomment]

end ImportLine

/-- Nothing cuts a slash off. -/
theorem slash_mem_of_wildcardImport? (h : wildcardImport? line = some x) (hslash : '/' ∈ line) :
    '/' ∈ x := by
  have hblank : Text.isBlank '/' = false := by decide
  simp only [wildcardImport?, Option.bind_eq_bind, Option.bind_eq_some_iff, Text.dropFront?_eq_some,
    Text.dropBack?_eq_some] at h
  obtain ⟨body, hline, hx⟩ := h
  have hbody : '/' ∈ body := by
    have hmem := Text.mem_trimChars hslash hblank
    rw [hline, List.mem_append] at hmem
    exact hmem.resolve_left (by decide)
  generalize hnamed : Text.trimChars ((Text.trimChars body).reverse.dropWhile (· = ';')).reverse =
    named at hx
  have hmem : '/' ∈ named := by
    rw [← hnamed]
    refine Text.mem_trimChars (List.mem_reverse.mpr (mem_dropWhile ?_ (by decide))) hblank
    exact List.mem_reverse.mpr (Text.mem_trimChars hbody hblank)
  have hkept : '/' ∈ (Text.dropFront? "static ".toList named).getD named := by
    cases hdrop : Text.dropFront? "static ".toList named with
    | none => exact hmem
    | some rest =>
      rw [Text.dropFront?_eq_some.mp hdrop, List.mem_append] at hmem
      exact hmem.resolve_left (by decide)
  have hlast := Text.mem_trimChars hkept hblank
  rw [hx, List.mem_append] at hlast
  exact hlast.resolve_right (by decide)

theorem slash_not_mem_of_isValid (h : isValid text = true) : '/' ∉ text := by
  intro hslash
  rw [isValid, Bool.and_eq_true, List.all_eq_true] at h
  exact absurd (h.2 '/' hslash) (by decide)

/-- A pattern covers no package with a slash in it. -/
theorem coversPackage_of_slash_mem (hvalid : isValid text = true) (hslash : '/' ∈ x) :
    (ofChars text).coversPackage x = false := by
  rw [← Bool.not_eq_true]
  intro hcovers
  by_cases hmem : '.' ∈ text
  · obtain ⟨base, step, rfl, hbase, hdot⟩ := TypePattern.exists_written hvalid hmem
    have hlanguage : x ∈ PatternPart.languageOf (PatternPart.ofText base ++ step.openEnd) := by
      rw [← packageParts_written hbase hdot]
      exact PatternPart.covers_iff_mem_languageOf.mp hcovers
    have hchar := PatternPart.char_mem_of_mem_languageOf hlanguage hslash (by decide) (by decide)
    rcases List.mem_append.mp hchar with hchar | hopen
    · exact slash_not_mem_of_isValid hvalid
        (List.mem_append_left _ (PatternPart.mem_of_char_mem_ofText hchar))
    · rw [Step.openEnd] at hopen
      split_ifs at hopen <;> simp at hopen
  · obtain rfl : x = [] := (coversPackage_of_dot_not_mem hmem).mp hcovers
    cases hslash

/-- A type that is covered has a package that is covered. -/
theorem coversPackage_of_type (hvalid : isValid text = true) (hx : '.' ∉ x)
    (hcovers : (ofChars text).covers (package ++ '.' :: x) = true) :
    (ofChars text).coversPackage package = true := by
  by_cases hmem : '.' ∈ text
  · obtain ⟨base, step, rfl, hbase, hdot⟩ := TypePattern.exists_written hvalid hmem
    exact coversPackage_of_covers hbase hdot hx hcovers
  · exact absurd (by simp) (((covers_of_dot_not_mem hmem).mp hcovers).dot_not_mem hmem)

theorem exists_ofChars {text : String} (h : parse text = .ok p) :
    ∃ pattern, isValid pattern = true ∧ p = ofChars pattern := by
  by_cases hvalid : isValid (Text.trimChars text.toList) = true
  · exact ⟨_, hvalid, Except.ok.inj (h.symm.trans (parse_eq_ok hvalid))⟩
  · rw [parse, if_neg hvalid] at h
    cases h

/-- A comment stands behind the import of a package. -/
def Imported.IsHidden (kind : Imported) (line : ImportLine) : Prop :=
  kind = .package ∧ line.comment ≠ none

/-- A file uses a type if one of its lines imports the type, a member of it or its package. The
exception is a line that imports the package and has a comment: it does not count as an import of
any package that the pattern covers. -/
theorem imports_are_found {text : String} (hp : parse text = .ok p) {package type : List Char}
    (hpackage : IsDotted package) (htype : type ≠ []) (hdot : '.' ∉ type)
    (hcovers : p.covers (package ++ '.' :: type) = true) {kind : Imported}
    (hchars : kind ≠ .package → ∀ c ∈ type, isQualifiedChar c = true) {line : ImportLine}
    {file : SourceFile}
    (hline : line.written (kind.target package type) ∈ Text.fields '\n' file.print.toList) :
    (¬ kind.IsHidden line → Usage.imports.uses file p = true) ∧
      (kind.IsHidden line →
        (wildcardImport? (line.written (kind.target package type))).any p.coversPackage =
          false) := by
  obtain ⟨pattern, hvalid, rfl⟩ := exists_ofChars hp
  have hmem : '.' ∈ package ++ '.' :: type := by simp
  cases kind with
  | type =>
    have hname := hpackage.append htype hdot (hchars (by simp))
    exact ⟨fun _ => line.isUsedIn_type hname hmem hcovers hline, fun h => nomatch h.1⟩
  | member name hmember =>
    have hname := hpackage.append htype hdot (hchars (by simp))
    exact ⟨fun _ => line.isUsedIn_member hmember hname hmem hcovers hline, fun h => nomatch h.1⟩
  | package =>
    refine ⟨fun hshown => isUsedIn_of_wildcard hline ?_, fun hhidden => ?_⟩
    · have hcomment : line.comment = none := by
        by_contra hcomment
        exact hshown ⟨rfl, hcomment⟩
      have hsolid : ∀ c ∈ package, Text.isBlank c = false :=
        fun c hc => isBlank_of_isQualifiedChar (hpackage.chars c hc)
      rw [Imported.target, line.wildcardImport?_written hcomment hsolid]
      exact coversPackage_of_type hvalid hdot hcovers
    · cases hfound : wildcardImport? (line.written (Imported.package.target package type)) with
      | none => rfl
      | some found =>
        have hslash := slash_mem_of_wildcardImport? hfound (line.slash_mem_written hhidden.2 _)
        exact coversPackage_of_slash_mem hvalid hslash

theorem imports_are_found_static :
    parse "com..Lists" = .ok (ofChars "com..Lists".toList) ∧
      (ofChars "com..Lists".toList).covers "com.google.Lists".toList = true ∧
        Usage.imports.uses
          (SourceFile.verbatim "A.java" "\timport static com.google.Lists.*; // all\n")
          (ofChars "com..Lists".toList) = true := by
  let line : ImportLine :=
    { indent := ['\t'], isStatic := true, semicolon := true, gap := [' '],
      comment := some " all".toList,
      blankIndent := List.forall_mem_singleton.mpr rfl, blankGap :=
        List.forall_mem_singleton.mpr rfl }
  have hpackage : IsDotted "com.google".toList :=
    ⟨by decide, List.all_eq_true.mp (by decide), by decide⟩
  have hchars : ∀ c ∈ "Lists".toList, isQualifiedChar c = true := List.all_eq_true.mp (by decide)
  have hcovers : (ofChars "com..Lists".toList).covers "com.google.Lists".toList = true := by decide
  refine ⟨by decide, hcovers, ?_⟩
  refine (@imports_are_found _ "com..Lists"
    (by decide) "com.google".toList "Lists".toList hpackage (by decide)
    (by decide) hcovers (.member ['*'] (by decide)) (fun _ => hchars) line _ (by decide)).1 ?_
  exact fun h => nomatch h.1

theorem isNameChar_of_mark {c : Char} (hwide : ¬ c.toNat < 128) (hc : Text.Category.of c = .Mn) :
    PatternPart.isNameChar c = true := by
  rw [PatternPart.isNameChar, Text.isWordChar, if_neg hwide, hc]
  simp [Text.Category.isMark]

theorem isQualifiedChar_grave : isQualifiedChar '\u0300' = false := by
  simp only [isQualifiedChar, Text.isAlphanumeric, Text.isAlphabetic, Text.Category.of_grave]
  decide +kernel

/-- The package is not found in front of a comment, and neither is a type with a mark in its name,
since marks are name characters for a pattern but end a word. -/
theorem imports_not_found :
    (∃ p, parse "com.google.*" = .ok p ∧ p.covers "com.google.List".toList = true ∧
      Usage.imports.uses (SourceFile.verbatim "A.java" "import com.google.*; // lists\n") p =
        false) ∧
    ∃ p, parse "a.*B" = .ok p ∧ p.covers "a.x\u0300B".toList = true ∧
      Usage.imports.uses (SourceFile.verbatim "A.java" "import a.x\u0300B;\n") p = false := by
  refine ⟨⟨ofChars "com.google.*".toList, by decide, by decide, by decide⟩, ?_⟩
  refine ⟨ofChars (['a'] ++ Step.written ⟨false, ['*', 'B']⟩), by decide, ?_, ?_⟩
  · have hbase : IsBase ['a'] := ⟨by decide, by decide⟩
    have hname : ∀ c ∈ ['x', '\u0300'], PatternPart.isNameChar c = true := by
      simp only [List.forall_mem_cons]
      exact ⟨by decide, isNameChar_of_mark (by decide) Text.Category.of_grave,
        List.forall_mem_nil _⟩
    refine (covers_written hbase (by decide)).mpr ⟨['a'], "x\u0300B".toList, rfl, by decide, ?_⟩
    exact .star hname (.char (by decide) .nil)
  · have htext : (SourceFile.verbatim "A.java" "import a.x\u0300B;\n").print =
        "import a.x\u0300B;\n" := by
      decide +kernel
    have hwords : words "import a.x\u0300B;\n".toList =
        words "import a.x".toList ++ words "B;\n".toList :=
      words_append_cons isQualifiedChar_grave "import a.x".toList "B;\n".toList
    simp only [Usage.imports, htext, isUsedIn, qualifiedNames, hwords]
    decide +kernel

end TypePattern

end BuildScript
