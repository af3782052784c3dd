import BuildScript.Proofs.Cutting
import BuildScript.TypeUse.Pattern
import Mathlib.Computability.Language
import Mathlib.Data.List.Chain

/-!
# What a type pattern covers

A pattern is matched piece by piece, and a text can be cut into pieces in many ways. The pieces
stand for languages, and a pattern covers the names in the product of its languages. For a valid
pattern that is a comparison of segments: those of the pattern with those of the name.
-/

namespace BuildScript

namespace PatternPart

variable {text rest : List Char}

theorem isNameChar_dot : isNameChar '.' = false := by decide

theorem ne_dot_of_isNameChar {c : Char} (h : isNameChar c = true) : c ≠ '.' := by
  rintro rfl
  rw [isNameChar_dot] at h
  cases h

/-- A segment of a name that a pattern leaves open. -/
def IsSegment (text : List Char) : Prop := text ≠ [] ∧ ∀ c ∈ text, isNameChar c = true

theorem IsSegment.dot_not_mem (h : IsSegment text) : '.' ∉ text :=
  fun hmem => ne_dot_of_isNameChar (h.2 _ hmem) rfl

def language : PatternPart → Language Char
  | char c => {[c]}
  | run => {text | ∀ c ∈ text, isNameChar c = true}
  | descent => {text | ∃ segments : List (List Char),
      (∀ s ∈ segments, IsSegment s) ∧ '.' :: segments.flatMap (· ++ ['.']) = text}
  | below =>
    {text | ∃ segments : List (List Char), (∀ s ∈ segments, IsSegment s) ∧
      segments.flatMap ('.' :: ·) = text}

def languageOf (parts : List PatternPart) : Language Char := (parts.map language).prod

theorem mem_languageOf_cons {part : PatternPart} {parts : List PatternPart} :
    text ∈ languageOf (part :: parts) ↔
      ∃ a ∈ part.language, ∃ b ∈ languageOf parts, a ++ b = text := by
  rw [languageOf, List.map_cons, List.prod_cons]
  exact Language.mem_mul

theorem mem_languageOf_append {parts more : List PatternPart} :
    text ∈ languageOf (parts ++ more) ↔
      ∃ a ∈ languageOf parts, ∃ b ∈ languageOf more, a ++ b = text := by
  rw [languageOf, List.map_append, List.prod_append]
  exact Language.mem_mul

section After

theorem mem_afterRun :
    rest ∈ afterRun text ↔ ∃ front, (∀ c ∈ front, isNameChar c = true) ∧ front ++ rest = text := by
  induction text with
  | nil => simp [afterRun]
  | cons c text ih =>
    rw [afterRun, List.mem_cons]
    constructor
    · rintro (rfl | h)
      · exact ⟨[], by simp, rfl⟩
      · split_ifs at h with hc
        · obtain ⟨front, hfront, rfl⟩ := ih.mp h
          exact ⟨c :: front, List.forall_mem_cons.mpr ⟨hc, hfront⟩, rfl⟩
        · cases h
    · rintro ⟨_ | ⟨d, front⟩, hfront, heq⟩
      · exact Or.inl heq
      · obtain ⟨rfl, rfl⟩ := List.cons.inj heq
        rw [List.forall_mem_cons] at hfront
        rw [if_pos hfront.1]
        exact Or.inr (ih.mpr ⟨front, hfront.2, rfl⟩)

/-- Segments are taken one at a time, each with its dot; after each of them the text may be left. -/
theorem mem_iff_flatMap {after : List Char → List (List Char)} (dotted : List Char → List Char)
    (hdotted : ∀ segment, dotted segment ≠ [])
    (hafter : ∀ {text rest}, rest ∈ after text ↔
      rest = text ∨ ∃ segment more, IsSegment segment ∧ dotted segment ++ more = text ∧
        rest ∈ after more) :
    rest ∈ after text ↔
      ∃ segments : List (List Char), (∀ s ∈ segments, IsSegment s) ∧
        segments.flatMap dotted ++ rest = text := by
  constructor
  · intro h
    -- Each segment takes at least its dot, so the induction is on the length of the text.
    induction hlength : text.length using Nat.strong_induction_on generalizing text with
    | _ n ih =>
      rcases hafter.mp h with rfl | ⟨segment, more, hsegment, rfl, hleft⟩
      · exact ⟨[], by simp, rfl⟩
      · have hpos := List.length_pos_of_ne_nil (hdotted segment)
        rw [List.length_append] at hlength
        obtain ⟨segments, hsegments, rfl⟩ := ih more.length (by omega) hleft rfl
        exact ⟨segment :: segments, List.forall_mem_cons.mpr ⟨hsegment, hsegments⟩, by simp⟩
  · rintro ⟨segments, hsegments, rfl⟩
    induction segments with
    | nil => exact hafter.mpr (Or.inl rfl)
    | cons segment segments ih =>
      rw [List.forall_mem_cons] at hsegments
      refine hafter.mpr (Or.inr ⟨segment, _, hsegments.1, ?_, ih hsegments.2⟩)
      rw [List.flatMap_cons, List.append_assoc]

theorem mem_afterSegments_inside :
    rest ∈ afterSegments true text ↔
      ∃ front more, (∀ c ∈ front, isNameChar c = true) ∧ front ++ '.' :: more = text ∧
        rest ∈ afterSegments false more := by
  induction text with
  | nil => simp [afterSegments]
  | cons c text ih =>
    rw [afterSegments, if_pos rfl]
    constructor
    · intro h
      split_ifs at h with hdot hc
      · exact ⟨[], text, by simp, by rw [hdot]; rfl, h⟩
      · obtain ⟨front, more, hfront, rfl, hleft⟩ := ih.mp h
        exact ⟨c :: front, more, List.forall_mem_cons.mpr ⟨hc, hfront⟩, rfl, hleft⟩
      · cases h
    · rintro ⟨_ | ⟨d, front⟩, more, hfront, heq, h⟩
      · obtain ⟨rfl, rfl⟩ := List.cons.inj heq
        rwa [if_pos rfl]
      · obtain ⟨rfl, rfl⟩ := List.cons.inj heq
        rw [List.forall_mem_cons] at hfront
        rw [if_neg (ne_dot_of_isNameChar hfront.1), if_pos hfront.1]
        exact ih.mpr ⟨front, more, hfront.2, rfl, h⟩

theorem mem_afterSegments :
    rest ∈ afterSegments false text ↔
      rest = text ∨ ∃ segment more, IsSegment segment ∧ (segment ++ ['.']) ++ more = text ∧
        rest ∈ afterSegments false more := by
  cases text with
  | nil => simp [afterSegments]
  | cons c text =>
    rw [afterSegments, if_neg (by simp), List.mem_cons]
    refine or_congr_right ⟨fun h => ?_, ?_⟩
    · split_ifs at h with hc
      · obtain ⟨front, more, hfront, rfl, hleft⟩ := mem_afterSegments_inside.mp h
        exact ⟨c :: front, more, ⟨by simp, List.forall_mem_cons.mpr ⟨hc, hfront⟩⟩, by simp, hleft⟩
      · cases h
    · rintro ⟨_ | ⟨d, front⟩, more, hsegment, heq, h⟩
      · exact absurd rfl hsegment.1
      · obtain ⟨rfl, rfl⟩ := List.cons.inj heq
        have hnames := List.forall_mem_cons.mp hsegment.2
        rw [if_pos hnames.1, mem_afterSegments_inside]
        exact ⟨front, more, hnames.2, by simp, h⟩

theorem mem_afterBelow_inside :
    rest ∈ afterBelow .inside text ↔
      ∃ front more, (∀ c ∈ front, isNameChar c = true) ∧ front ++ more = text ∧
        rest ∈ afterBelow .outside more := by
  induction text with
  | nil => simp [afterBelow]
  | cons c text ih =>
    rw [afterBelow, List.mem_cons]
    constructor
    · rintro (rfl | h)
      · exact ⟨[], c :: text, by simp, rfl, by simp [afterBelow]⟩
      · split_ifs at h with hdot hc
        · exact ⟨[], c :: text, by simp, rfl, by simp [afterBelow, hdot, h]⟩
        · obtain ⟨front, more, hfront, rfl, hleft⟩ := ih.mp h
          exact ⟨c :: front, more, List.forall_mem_cons.mpr ⟨hc, hfront⟩, rfl, hleft⟩
        · cases h
    · rintro ⟨_ | ⟨d, front⟩, more, hfront, heq, h⟩
      · obtain rfl : more = c :: text := heq
        rw [afterBelow, List.mem_cons] at h
        refine h.imp_right fun h => ?_
        split_ifs at h ⊢
        · exact h
        all_goals cases h
      · obtain ⟨rfl, rfl⟩ := List.cons.inj heq
        rw [List.forall_mem_cons] at hfront
        rw [if_neg (ne_dot_of_isNameChar hfront.1), if_pos hfront.1]
        exact Or.inr (ih.mpr ⟨front, more, hfront.2, rfl, h⟩)

theorem mem_afterBelow :
    rest ∈ afterBelow .outside text ↔
      rest = text ∨ ∃ segment more, IsSegment segment ∧ ('.' :: segment) ++ more = text ∧
        rest ∈ afterBelow .outside more := by
  cases text with
  | nil => simp [afterBelow]
  | cons c text =>
    rw [afterBelow, List.mem_cons]
    refine or_congr_right ⟨fun h => ?_, ?_⟩
    · split_ifs at h with hdot
      · cases text with
        | nil => cases h
        | cons d text =>
          rw [afterBelow] at h
          split_ifs at h with hd
          · obtain ⟨front, more, hfront, rfl, hleft⟩ := mem_afterBelow_inside.mp h
            exact ⟨d :: front, more, ⟨by simp, List.forall_mem_cons.mpr ⟨hd, hfront⟩⟩,
              by rw [hdot]; rfl, hleft⟩
          · cases h
      · cases h
    · rintro ⟨_ | ⟨d, front⟩, more, hsegment, heq, h⟩
      · exact absurd rfl hsegment.1
      · obtain ⟨rfl, rfl⟩ := List.cons.inj heq
        have hnames := List.forall_mem_cons.mp hsegment.2
        rw [if_pos rfl, List.append_eq, List.cons_append, afterBelow, if_pos hnames.1,
          mem_afterBelow_inside]
        exact ⟨front, more, hnames.2, rfl, h⟩

/-- What can be left behind a piece is what is behind a text that the piece stands for. -/
theorem mem_after {part : PatternPart} :
    rest ∈ part.after text ↔ ∃ front ∈ part.language, front ++ rest = text := by
  cases part with
  | char c =>
    have hchar : (∃ front ∈ (char c).language, front ++ rest = text) ↔ c :: rest = text :=
      ⟨fun ⟨_, his, heq⟩ => by rwa [Set.mem_singleton_iff.mp his] at heq,
        fun heq => ⟨[c], rfl, heq⟩⟩
    rw [hchar]
    cases text with
    | nil => simp [after]
    | cons d text =>
      rw [after, List.cons.injEq]
      split_ifs with h <;> simp [h]
  | run => exact mem_afterRun
  | descent =>
    have hsegments (text : List Char) : rest ∈ afterSegments false text ↔ _ :=
      mem_iff_flatMap (· ++ ['.']) (by simp) mem_afterSegments
    constructor
    · intro h
      cases text with
      | nil => cases h
      | cons c text =>
        by_cases hc : c = '.'
        · subst hc
          obtain ⟨segments, hall, rfl⟩ := (hsegments text).mp h
          exact ⟨_, ⟨segments, hall, rfl⟩, rfl⟩
        · rw [after.eq_def] at h
          split at h <;> simp_all
    · rintro ⟨_, ⟨segments, hall, rfl⟩, rfl⟩
      exact (hsegments _).mpr ⟨segments, hall, rfl⟩
  | below =>
    have hsegments : rest ∈ afterBelow .outside text ↔ _ :=
      mem_iff_flatMap ('.' :: ·) (by simp) mem_afterBelow
    refine hsegments.trans ⟨?_, ?_⟩
    · rintro ⟨segments, hall, heq⟩
      exact ⟨_, ⟨segments, hall, rfl⟩, heq⟩
    · rintro ⟨_, ⟨segments, hall, rfl⟩, heq⟩
      exact ⟨segments, hall, heq⟩

theorem mem_afterAll {parts : List PatternPart} {texts : List (List Char)} :
    rest ∈ afterAll parts texts ↔
      ∃ text ∈ texts, ∃ front ∈ languageOf parts, front ++ rest = text := by
  induction parts generalizing texts with
  | nil =>
    have hnil (front : List Char) : front ∈ languageOf [] ↔ front = [] := Language.mem_one front
    simp [afterAll, hnil]
  | cons part parts ih =>
    simp only [afterAll, ih, List.mem_eraseDups, List.mem_flatMap, mem_after, mem_languageOf_cons]
    constructor
    · rintro ⟨_, ⟨_, htext, first, hfirst, rfl⟩, front, hfront, rfl⟩
      exact ⟨_, htext, first ++ front, ⟨first, hfirst, front, hfront, rfl⟩, List.append_assoc ..⟩
    · rintro ⟨_, htext, _, ⟨first, hfirst, front, hfront, rfl⟩, rfl⟩
      exact ⟨front ++ rest, ⟨_, htext, first, hfirst, (List.append_assoc ..).symm⟩, front,
        hfront, rfl⟩

theorem covers_iff_mem_languageOf {parts : List PatternPart} :
    covers parts text = true ↔ text ∈ languageOf parts := by
  rw [covers, List.contains_iff_mem, mem_afterAll]
  simp

end After

end PatternPart

namespace TypePattern

open PatternPart

variable {pattern name : List Char}

/-- A segment of a pattern describes a segment of a name. A star stands for any name characters,
everything else for itself. -/
inductive Describes : List Char → List Char → Prop
  | nil : Describes [] []
  | char {c : Char} {pattern segment : List Char} (is : c ≠ '*')
      (more : Describes pattern segment) :
      Describes (c :: pattern) (c :: segment)
  | star {run pattern segment : List Char} (names : ∀ c ∈ run, isNameChar c = true)
      (more : Describes pattern segment) : Describes ('*' :: pattern) (run ++ segment)

/-- A segment of a pattern with the dots in front of it: one, or two if further segments may come
before it. -/
structure Step where
  deep : Bool
  segment : List Char

def Step.written (s : Step) : List Char := (if s.deep then ['.', '.'] else ['.']) ++ s.segment

structure Reading where
  first : List Char
  steps : List Step

namespace Reading

def segments (r : Reading) : List (List Char) := r.first :: r.steps.map Step.segment

/-- The text is written as the segments say. No segment is empty but perhaps the last, so dots in a
row belong together. -/
structure Spells (r : Reading) (text : List Char) : Prop where
  text_eq : r.first ++ r.steps.flatMap Step.written = text
  dot_not_mem : ∀ segment ∈ r.segments, '.' ∉ segment
  ne_nil : r.segments.IsChain fun segment _ => segment ≠ []

end Reading

inductive Follows : List Step → List (List Char) → Prop
  | nil : Follows [] []
  | next {pattern segment : List Char} {steps : List Step} {names : List (List Char)}
      (is : Describes pattern segment) (more : Follows steps names) :
      Follows (⟨false, pattern⟩ :: steps) (segment :: names)
  | deep {pattern segment : List Char} {steps : List Step} {extra names : List (List Char)}
      (open' : ∀ s ∈ extra, IsSegment s) (is : Describes pattern segment)
      (more : Follows steps names) :
      Follows (⟨true, pattern⟩ :: steps) (extra ++ segment :: names)

inductive Reading.Describes : Reading → List (List Char) → Prop
  | mk {first segment : List Char} {steps : List Step} {names : List (List Char)}
      (is : TypePattern.Describes first segment) (more : Follows steps names) :
      Reading.Describes ⟨first, steps⟩ (segment :: names)

theorem ofText_cons {c : Char} (h : c ≠ '.') (pattern : List Char) :
    ofText (c :: pattern) = (if c = '*' then run else char c) :: ofText pattern := by
  rw [ofText.eq_def]
  split <;> simp_all

theorem ofText_append (h : '.' ∉ pattern) (more : List Char) :
    ofText (pattern ++ more) = ofText pattern ++ ofText more := by
  induction pattern with
  | nil => simp [ofText]
  | cons c pattern ih =>
    rw [List.mem_cons, not_or] at h
    rw [List.cons_append, ofText_cons (Ne.symm h.1), ofText_cons (Ne.symm h.1), ih h.2,
      List.cons_append]

/-- A dot that no second one follows is a piece of its own. -/
theorem ofText_dot (h : ∀ more, pattern ≠ '.' :: more) :
    ofText ('.' :: pattern) = char '.' :: ofText pattern := by
  rw [ofText]
  · exact fun more _ => h more
  · decide

theorem mem_languageOf_ofText (h : '.' ∉ pattern) :
    name ∈ languageOf (ofText pattern) ↔ Describes pattern name := by
  induction pattern generalizing name with
  | nil =>
    refine (Language.mem_one name).trans ⟨?_, ?_⟩
    · rintro rfl
      exact .nil
    · rintro ⟨⟩
      rfl
  | cons c pattern ih =>
    rw [List.mem_cons, not_or] at h
    rw [ofText_cons (Ne.symm h.1), mem_languageOf_cons]
    constructor
    · rintro ⟨front, hfront, rest, hrest, rfl⟩
      split_ifs at hfront with hstar
      · subst hstar
        exact .star hfront ((ih h.2).mp hrest)
      · obtain rfl : front = [c] := hfront
        exact .char hstar ((ih h.2).mp hrest)
    · intro hdescribes
      cases hdescribes with
      | char is more =>
        rw [if_neg is]
        exact ⟨[c], rfl, _, (ih h.2).mpr more, rfl⟩
      | star names more =>
        rw [if_pos rfl]
        exact ⟨_, names, _, (ih h.2).mpr more, rfl⟩

theorem Describes.dot_not_mem {segment : List Char} (h : Describes pattern segment)
    (hdot : '.' ∉ pattern) :
    '.' ∉ segment := by
  induction h with
  | nil => exact hdot
  | char is more ih =>
    rw [List.mem_cons, not_or] at hdot ⊢
    exact ⟨hdot.1, ih hdot.2⟩
  | star names more ih =>
    rw [List.mem_cons, not_or] at hdot
    rw [List.mem_append, not_or]
    exact ⟨fun hmem => ne_dot_of_isNameChar (names _ hmem) rfl, ih hdot.2⟩

/-- A segment and what follows it in a pattern, against the fields of a text. -/
theorem mem_languageOf_segment {more : List Char} {steps : List Step} (hdot : '.' ∉ pattern)
    (hmore : ∀ text, text ∈ languageOf (ofText more) ↔
      ∃ names, Text.Further '.' text names ∧ Follows steps names) :
    name ∈ languageOf (ofText (pattern ++ more)) ↔
      ∃ segment names, Text.fields '.' name = segment :: names ∧ Describes pattern segment ∧
        Follows steps names := by
  rw [ofText_append hdot, mem_languageOf_append]
  constructor
  · rintro ⟨segment, hsegment, rest, hrest, rfl⟩
    have hdescribes := (mem_languageOf_ofText hdot).mp hsegment
    obtain ⟨names, hfurther, hfollows⟩ := (hmore rest).mp hrest
    exact ⟨segment, names, Text.fields_append_further (hdescribes.dot_not_mem hdot) hfurther,
      hdescribes, hfollows⟩
  · rintro ⟨segment, names, hfields, hdescribes, hfollows⟩
    obtain ⟨-, rest, rfl, hfurther⟩ := Text.fields_eq_cons hfields
    exact ⟨segment, (mem_languageOf_ofText hdot).mpr hdescribes, rest,
      (hmore rest).mpr ⟨names, hfurther, hfollows⟩, rfl⟩

theorem mem_languageOf_steps {steps : List Step} (hdot : ∀ s ∈ steps, '.' ∉ s.segment)
    (hne : (steps.map Step.segment).IsChain fun segment _ => segment ≠ []) (text : List Char) :
    text ∈ languageOf (ofText (steps.flatMap Step.written)) ↔
      ∃ names, Text.Further '.' text names ∧ Follows steps names := by
  induction steps generalizing text with
  | nil =>
    refine (Language.mem_one text).trans ⟨?_, ?_⟩
    · rintro rfl
      exact ⟨[], .none, .nil⟩
    · rintro ⟨names, hfurther, ⟨⟩⟩
      exact hfurther.eq_nil
  | cons step steps ih =>
    rw [List.forall_mem_cons] at hdot
    rw [List.map_cons, List.isChain_cons] at hne
    have hsegment (name : List Char) :=
      @mem_languageOf_segment step.segment name _ _ hdot.1 (ih hdot.2 hne.2)
    obtain ⟨deep, pattern⟩ := step
    cases deep with
    | false =>
      have hsingle : ∀ more, pattern ++ steps.flatMap Step.written ≠ '.' :: more := by
        intro more heq
        cases pattern with
        | nil =>
          cases steps with
          | nil => cases heq
          | cons next steps => exact hne.1 next.segment rfl rfl
        | cons c pattern =>
          rw [(List.cons.inj heq).1] at hdot
          exact hdot.1 List.mem_cons_self
      have hparts : ofText ((⟨false, pattern⟩ :: steps).flatMap Step.written) =
          char '.' :: ofText (pattern ++ steps.flatMap Step.written) := ofText_dot hsingle
      rw [hparts, mem_languageOf_cons]
      constructor
      · rintro ⟨_, rfl, rest, hrest, rfl⟩
        obtain ⟨segment, names, hfields, hdescribes, hfollows⟩ := (hsegment rest).mp hrest
        exact ⟨_, .some rest, hfields ▸ .next hdescribes hfollows⟩
      · rintro ⟨_, hfurther, hfollows⟩
        cases hfollows with
        | next is more =>
          obtain ⟨rest, rfl, hfields⟩ := hfurther.eq_cons
          exact ⟨['.'], rfl, rest, (hsegment rest).mpr ⟨_, _, hfields, is, more⟩, rfl⟩
    | true =>
      have hparts : ofText ((⟨true, pattern⟩ :: steps).flatMap Step.written) =
          descent :: ofText (pattern ++ steps.flatMap Step.written) := by
        rw [List.flatMap_cons, Step.written, if_pos rfl, List.append_assoc]
        exact ofText.eq_1 _
      rw [hparts, mem_languageOf_cons]
      constructor
      · rintro ⟨_, ⟨extra, hextra, rfl⟩, rest, hrest, rfl⟩
        obtain ⟨segment, names, hfields, hdescribes, hfollows⟩ := (hsegment rest).mp hrest
        have hall := Text.fields_flatMap (fun s hs => (hextra s hs).dot_not_mem) rest
        rw [hfields] at hall
        exact ⟨_, .some _, hall ▸ .deep hextra hdescribes hfollows⟩
      · rintro ⟨_, hfurther, hfollows⟩
        cases hfollows with
        | @deep _ segment _ extra names open' is more =>
          generalize hall : extra ++ segment :: names = all at hfurther
          cases hfurther with
          | none => simp at hall
          | some text =>
            obtain ⟨rest, rfl, hfields⟩ := Text.fields_eq_append hall.symm
            exact ⟨_, ⟨extra, open', rfl⟩, rest, (hsegment rest).mpr ⟨_, _, hfields, is, more⟩, rfl⟩

/-- The dots in front of segments, read from the left, where there are never three of them in a
row. -/
theorem exists_steps {names : List (List Char)} {text : List Char} (h : Text.Further '.' text names)
    (hdots : ¬ ['.', '.', '.'] <:+: text) :
    ∃ steps : List Step, steps.flatMap Step.written = text ∧ (∀ s ∈ steps, '.' ∉ s.segment) ∧
      (steps.map Step.segment).IsChain fun segment _ => segment ≠ [] := by
  induction names using List.twoStepInduction generalizing text with
  | nil => exact ⟨[], h.eq_nil.symm, by simp, .nil⟩
  | singleton segment =>
    obtain ⟨rest, rfl, hfields⟩ := h.eq_cons
    obtain ⟨hdot, last, rfl, hlast⟩ := Text.fields_eq_cons hfields
    obtain rfl := hlast.eq_nil
    exact ⟨[⟨false, segment⟩], by simp [Step.written], by simpa using hdot, .singleton _⟩
  | cons_cons segment next names ih ih' =>
    obtain ⟨_, rfl, hfields⟩ := h.eq_cons
    obtain ⟨hdot, rest, rfl, hrest⟩ := Text.fields_eq_cons hfields
    by_cases hempty : segment = []
    · -- The two dots stand together.
      subst hempty
      obtain ⟨_, rfl, hfields'⟩ := hrest.eq_cons
      obtain ⟨hdot', behind, rfl, hbehind⟩ := Text.fields_eq_cons hfields'
      obtain ⟨steps, rfl, hsteps, hchain⟩ := ih hbehind fun hinside =>
        hdots (hinside.trans ⟨['.', '.'] ++ next, [], by simp⟩)
      refine ⟨⟨true, next⟩ :: steps, by simp [Step.written],
        List.forall_mem_cons.mpr ⟨hdot', hsteps⟩, ?_⟩
      rw [List.map_cons, List.isChain_cons]
      refine ⟨?_, hchain⟩
      rintro _ hmem rfl
      cases steps with
      | nil => cases hmem
      | cons step steps =>
        refine hdots (List.IsPrefix.isInfix ⟨(step.written ++ steps.flatMap Step.written).tail, ?_⟩)
        obtain ⟨deep, segment⟩ := step
        cases deep <;> rfl
    · obtain ⟨steps, rfl, hsteps, hchain⟩ := ih' next hrest fun hinside =>
        hdots (hinside.trans ⟨'.' :: segment, [], by simp⟩)
      refine ⟨⟨false, segment⟩ :: steps, by simp [Step.written],
        List.forall_mem_cons.mpr ⟨hdot, hsteps⟩, ?_⟩
      rw [List.map_cons, List.isChain_cons]
      exact ⟨fun _ _ => hempty, hchain⟩

theorem not_infix_of_isValid (h : isValid name = true) : ¬ ['.', '.', '.'] <:+: name := by
  intro hinside
  have hoccurs : Text.occurs "...".toList name = true := Text.occurs_iff.mpr hinside
  rw [isValid, hoccurs, Bool.not_true, Bool.and_false, Bool.false_and] at h
  cases h

theorem exists_spells (h : isValid name = true) : ∃ r : Reading, r.Spells name := by
  have hdots := not_infix_of_isValid h
  simp only [isValid, Bool.and_eq_true, Bool.not_eq_true', bne_iff_ne] at h
  obtain ⟨⟨⟨hempty, hhead⟩, -⟩, -⟩ := h
  obtain ⟨first, names, hfields⟩ := List.exists_cons_of_ne_nil (Text.fields_ne_nil '.' name)
  obtain ⟨hdot, rest, rfl, hrest⟩ := Text.fields_eq_cons hfields
  have hfirst : first ≠ [] := by
    rintro rfl
    cases hrest with
    | none => cases hempty
    | some text => exact hhead rfl
  obtain ⟨steps, rfl, hsteps, hchain⟩ :=
    exists_steps hrest fun hinside => hdots (hinside.trans ⟨first, [], by simp⟩)
  refine ⟨⟨first, steps⟩, rfl, ?_, ?_⟩
  · rw [Reading.segments, List.forall_mem_cons, List.forall_mem_map]
    exact ⟨hdot, hsteps⟩
  · rw [Reading.segments, List.isChain_cons]
    exact ⟨fun _ _ => hfirst, hchain⟩

theorem Reading.Spells.covers_iff {r : Reading} (h : r.Spells pattern) :
    PatternPart.covers (ofText pattern) name = true ↔ r.Describes (Text.fields '.' name) := by
  obtain ⟨first, steps⟩ := r
  obtain ⟨rfl, hdot, hne⟩ := h
  rw [Reading.segments, List.forall_mem_cons, List.forall_mem_map] at hdot
  rw [Reading.segments, List.isChain_cons] at hne
  rw [covers_iff_mem_languageOf, mem_languageOf_segment hdot.1 (mem_languageOf_steps hdot.2 hne.2)]
  constructor
  · rintro ⟨segment, names, hfields, hdescribes, hfollows⟩
    exact hfields ▸ .mk hdescribes hfollows
  · intro hdescribes
    generalize hfields : Text.fields '.' name = all at hdescribes
    obtain ⟨is, more⟩ := hdescribes
    exact ⟨_, _, rfl, is, more⟩

/-- A pattern that is valid between the blanks around it can be read by segments, and covers exactly
the names whose segments are as it says. -/
theorem covers_by_segments (text : String) (h : isValid (Text.trimChars text.toList) = true) :
    ∃ p, parse text = .ok p ∧ (∃ r : Reading, r.Spells (Text.trimChars text.toList)) ∧
      ∀ r : Reading, r.Spells (Text.trimChars text.toList) → ∀ name : String,
        p.covers name.toList = true ↔ r.Describes (Text.fields '.' name.toList) := by
  refine ⟨⟨String.ofList (Text.trimChars text.toList), ofText (Text.trimChars text.toList),
    packageParts (Text.trimChars text.toList)⟩, if_pos h, exists_spells h, ?_⟩
  intro r hspells name
  exact hspells.covers_iff

/-- Segments may come between the two dots of `com..*List`, but the first one has to be `com`. -/
theorem covers_by_segments_with_two_dots :
    ∃ p, parse " com..*List " = .ok p ∧ p.covers "com.util.ArrayList".toList = true ∧
      ¬ p.covers "org.ArrayList".toList = true := by
  obtain ⟨p, hparse, -, hcovers⟩ := covers_by_segments " com..*List " (by decide)
  have hspells : Reading.Spells ⟨['c', 'o', 'm'], [⟨true, "*List".toList⟩]⟩
      (Text.trimChars " com..*List ".toList) := ⟨by decide, by decide, by decide⟩
  have hcom : Describes ['c', 'o', 'm'] ['c', 'o', 'm'] :=
    .char (by decide) (.char (by decide) (.char (by decide) .nil))
  have hlist : Describes "*List".toList ("Array".toList ++ "List".toList) :=
    .star (List.all_eq_true.mp (by decide))
      (.char (by decide) (.char (by decide) (.char (by decide) (.char (by decide) .nil))))
  refine ⟨p, hparse, ?_, ?_⟩
  · rw [hcovers _ hspells]
    exact .mk hcom (@Follows.deep _ _ _ ["util".toList] _
      (List.forall_mem_singleton.mpr ⟨by decide, List.all_eq_true.mp (by decide)⟩) hlist .nil)
  · rw [hcovers _ hspells]
    rintro ⟨⟨⟩, -⟩

end TypePattern

end BuildScript
