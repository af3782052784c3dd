import BuildScript.Proofs.TypePatterns

/-!
# Which packages a pattern looks into

The pieces for packages are cut out of a pattern by its text, apart from the pieces for types. Still
a type that is covered has its package covered, and behind every package that is covered there is
such a type. The one exception is the package without a name: a pattern that has only stars in front
of its last dots covers it, and none of its types.
-/

namespace BuildScript

namespace PatternPart

variable {parts : List PatternPart}

theorem nil_mem_languageOf : [] ∈ languageOf parts ↔ ∀ part ∈ parts, [] ∈ part.language := by
  induction parts with
  | nil => simp [languageOf, Language.mem_one]
  | cons part parts ih =>
    rw [mem_languageOf_cons, List.forall_mem_cons, ← ih]
    constructor
    · rintro ⟨a, ha, b, hb, hnil⟩
      obtain ⟨rfl, rfl⟩ := List.append_eq_nil_iff.mp hnil
      exact ⟨ha, hb⟩
    · rintro ⟨ha, hb⟩
      exact ⟨[], ha, [], hb, rfl⟩

/-- Dots behind segments, or in front of them with one more at the end. -/
theorem flatMap_dots (segments : List (List Char)) :
    '.' :: segments.flatMap (· ++ ['.']) = segments.flatMap ('.' :: ·) ++ ['.'] := by
  induction segments with
  | nil => rfl
  | cons segment segments ih => simp [ih]

end PatternPart

namespace TypePattern

open PatternPart

variable {pattern base name package x : List Char} {step : Step}

/-- What can stand in front of the last dots of a pattern. -/
structure IsBase (base : List Char) : Prop where
  ne_nil : base ≠ []
  getLast? : base.getLast? ≠ some '.'

theorem getLast?_of_cons {c : Char} (h : (c :: base).getLast? ≠ some '.') :
    base.getLast? ≠ some '.' :=
  fun hlast => h (by rw [List.getLast?_cons, hlast, Option.getD_some])

/-- Dots in a row are all on one side of a cut behind another character. -/
theorem ofText_append_of_getLast? (h : base.getLast? ≠ some '.') (more : List Char) :
    ofText (base ++ more) = ofText base ++ ofText more := by
  fun_induction ofText base with
  | case1 rest ih =>
    rw [List.cons_append, List.cons_append, ofText, ih (getLast?_of_cons (getLast?_of_cons h)),
      List.cons_append]
  | case2 rest ih =>
    rw [List.cons_append, ofText_cons (by decide), if_pos rfl, ih (getLast?_of_cons h),
      List.cons_append]
  | case3 c rest hdots hstar ih =>
    have hstar' : c ≠ '*' := hstar
    rw [List.cons_append, List.cons_append, ← ih (getLast?_of_cons h)]
    by_cases hc : c = '.'
    · subst hc
      refine ofText_dot fun behind hbehind => ?_
      cases rest with
      | nil => exact h rfl
      | cons d rest => exact hdots rest rfl (congrArg (· :: rest) (List.cons.inj hbehind).1)
    · rw [ofText_cons hc, if_neg hstar']
  | case4 => rfl

def Step.opening (s : Step) : PatternPart := if s.deep then .descent else .char '.'

/-- The pieces for the packages that the dots leave open. -/
def Step.openEnd (s : Step) : List PatternPart := if s.deep then [.below] else []

theorem ofText_written (hdot : '.' ∉ step.segment) :
    ofText step.written = step.opening :: ofText step.segment := by
  obtain ⟨_ | _, segment⟩ := step
  · refine ofText_dot ?_
    rintro more rfl
    exact hdot List.mem_cons_self
  · exact ofText.eq_1 segment

/-- No dots are taken from what is in front of the last dots. -/
theorem IsBase.dropDots (h : IsBase base) : (base.reverse.dropWhile (· = '.')).reverse = base := by
  obtain ⟨front, c, rfl⟩ := (List.eq_nil_or_concat' base).resolve_left h.ne_nil
  have hc : c ≠ '.' := by
    rintro rfl
    exact h.getLast? List.getLast?_concat
  simp [hc]

theorem packageParts_written (hbase : IsBase base) (hdot : '.' ∉ step.segment) :
    packageParts (base ++ step.written) = ofText base ++ step.openEnd := by
  have hstar : '.' ∉ ['*'] := by decide
  obtain ⟨_ | _, segment⟩ := step
  · have htext : base ++ Step.written ⟨false, segment⟩ = base ++ '.' :: segment := rfl
    rw [htext, packageParts]
    split
    · next rest hrest =>
      have hsplit : base ++ '.' :: segment = (rest ++ ['.']) ++ '.' :: ['*'] := by
        simpa using Text.dropBack?_eq_some.mp hrest
      obtain ⟨rfl, -⟩ := Text.eq_of_last hsplit hdot hstar
      exact absurd List.getLast?_concat hbase.getLast?
    · rw [Text.cutLast?_append hdot]
      simp [hbase.getLast?, Step.openEnd]
  · have htext : base ++ Step.written ⟨true, segment⟩ = (base ++ ['.']) ++ '.' :: segment := by
      simp [Step.written]
    rw [htext, packageParts]
    split
    · next rest hrest =>
      have hsplit : (base ++ ['.']) ++ '.' :: segment = (rest ++ ['.']) ++ '.' :: ['*'] := by
        simpa using Text.dropBack?_eq_some.mp hrest
      rw [List.append_cancel_right (Text.eq_of_last hsplit hdot hstar).1]
      rfl
    · rw [Text.cutLast?_append hdot]
      simp [hbase.dropDots, Step.openEnd]

/-- The dots in front of a last segment are a dot behind what they leave open. -/
theorem mem_language_opening {dots : List Char} :
    dots ∈ step.opening.language ↔
      ∃ between ∈ languageOf step.openEnd, between ++ ['.'] = dots := by
  obtain ⟨_ | _, segment⟩ := step
  · have hnil (between : List Char) : between ∈ languageOf [] ↔ between = [] :=
      Language.mem_one between
    simp only [Step.openEnd, Bool.false_eq_true, if_false, hnil, exists_eq_left, List.nil_append]
    exact eq_comm
  · have hone : languageOf [below] = below.language := by simp [languageOf]
    simp only [Step.openEnd, if_true, hone]
    constructor
    · rintro ⟨segments, hsegments, rfl⟩
      exact ⟨_, ⟨segments, hsegments, rfl⟩, (flatMap_dots segments).symm⟩
    · rintro ⟨_, ⟨segments, hsegments, rfl⟩, rfl⟩
      exact ⟨segments, hsegments, flatMap_dots segments⟩

/-- The names that a pattern covers are those with a package that it covers and with a last segment
as it says. -/
theorem covers_written (hbase : IsBase base) (hdot : '.' ∉ step.segment) :
    PatternPart.covers (ofText (base ++ step.written)) name = true ↔
      ∃ package x, name = package ++ '.' :: x ∧
        PatternPart.covers (packageParts (base ++ step.written)) package = true ∧
          Describes step.segment x := by
  simp only [covers_iff_mem_languageOf, packageParts_written hbase hdot,
    ofText_append_of_getLast? hbase.getLast?,
    ofText_written hdot, mem_languageOf_append, mem_languageOf_cons, mem_language_opening]
  constructor
  · rintro ⟨front, hfront, _, ⟨_, ⟨between, hbetween, rfl⟩, last, hlast, rfl⟩, rfl⟩
    exact ⟨front ++ between, last, by simp, ⟨front, hfront, between, hbetween, rfl⟩,
      (mem_languageOf_ofText hdot).mp hlast⟩
  · rintro ⟨_, x, rfl, ⟨front, hfront, between, hbetween, rfl⟩, hx⟩
    exact ⟨front, hfront, _,
      ⟨_, ⟨between, hbetween, rfl⟩, x, (mem_languageOf_ofText hdot).mpr hx, rfl⟩, by simp⟩

/-- A pattern without dots covers names without dots, and no package but the one without a name. -/
theorem covers_of_dot_not_mem (hdot : '.' ∉ pattern) :
    PatternPart.covers (ofText pattern) name = true ↔ Describes pattern name := by
  rw [covers_iff_mem_languageOf, mem_languageOf_ofText hdot]

theorem coversPackage_of_dot_not_mem (hdot : '.' ∉ pattern) :
    PatternPart.covers (packageParts pattern) package = true ↔ package = [] := by
  have hback : Text.dropBack? "..*".toList pattern = none := by
    rw [Option.eq_none_iff_forall_ne_some]
    intro rest hrest
    rw [Text.dropBack?_eq_some.mp hrest] at hdot
    exact hdot (by simp)
  have hparts : packageParts pattern = [] := by
    rw [packageParts]
    split
    · next rest hrest => rw [hback] at hrest; cases hrest
    · rw [Text.cutLast?_of_not_mem hdot]
  rw [hparts, covers_iff_mem_languageOf]
  exact Language.mem_one package

/-- Every segment of a pattern describes some segment of a name. -/
theorem exists_describes (pattern : List Char) :
    ∃ x, Describes pattern x ∧ (pattern ≠ [] → x ≠ []) := by
  induction pattern with
  | nil => exact ⟨[], .nil, id⟩
  | cons c pattern ih =>
    obtain ⟨x, hx, -⟩ := ih
    by_cases hc : c = '*'
    · subst hc
      have hname : ∀ c ∈ ['a'], isNameChar c = true := by simp; decide
      exact ⟨['a'] ++ x, .star hname hx, by simp⟩
    · exact ⟨c :: x, .char hc hx, by simp⟩

theorem nil_mem_languageOf_ofText : [] ∈ languageOf (ofText base) ↔ ∀ c ∈ base, c = '*' := by
  rw [nil_mem_languageOf]
  fun_induction ofText base with
  | case1 rest ih =>
    refine iff_of_false (fun h => ?_) fun h => absurd (h '.' List.mem_cons_self) (by decide)
    obtain ⟨segments, -, hnil⟩ := h descent List.mem_cons_self
    cases hnil
  | case2 rest ih =>
    have hrun : [] ∈ run.language := List.forall_mem_nil _
    rw [List.forall_mem_cons, List.forall_mem_cons, ih, and_iff_right hrun, and_iff_right rfl]
  | case3 c rest hdots hstar ih =>
    refine iff_of_false (fun h => ?_) fun h => hstar (h c List.mem_cons_self)
    have hnil : [] = [c] := h (char c) List.mem_cons_self
    cases hnil
  | case4 => simp

/-- Only stars in front of the last dots make a pattern cover the package without a name. -/
theorem covers_nil_written (hbase : IsBase base) (hdot : '.' ∉ step.segment) :
    PatternPart.covers (packageParts (base ++ step.written)) [] = true ↔ ∀ c ∈ base, c = '*' := by
  have hopen : [] ∈ languageOf step.openEnd := by
    rw [nil_mem_languageOf]
    obtain ⟨_ | _, segment⟩ := step
    · exact List.forall_mem_nil _
    · exact List.forall_mem_singleton.mpr ⟨[], List.forall_mem_nil _, rfl⟩
  rw [covers_iff_mem_languageOf, packageParts_written hbase hdot, nil_mem_languageOf,
    List.forall_mem_append,
    ← nil_mem_languageOf, ← nil_mem_languageOf, nil_mem_languageOf_ofText, and_iff_left hopen]

theorem Step.written_eq_cons (s : Step) : ∃ more, s.written = '.' :: more := by
  obtain ⟨_ | _, segment⟩ := s <;> exact ⟨_, rfl⟩

theorem isBase_of_isValid (h : isValid (base ++ step.written) = true)
    (hlast : base.getLast? ≠ some '.') :
    IsBase base := by
  refine ⟨?_, hlast⟩
  rintro rfl
  obtain ⟨more, hmore⟩ := step.written_eq_cons
  simp [isValid, hmore] at h

/-- A valid pattern with a dot is cut at its last dots. -/
theorem exists_written (h : isValid pattern = true) (hmem : '.' ∈ pattern) :
    ∃ base step, pattern = base ++ Step.written step ∧ IsBase base ∧ '.' ∉ step.segment := by
  obtain ⟨package, segment, rfl, hsegment⟩ := Text.exists_last_of_mem hmem
  by_cases hlast : package.getLast? = some '.'
  · obtain ⟨base, rfl⟩ := List.getLast?_eq_some_iff.mp hlast
    have htext : base ++ ['.'] ++ '.' :: segment = base ++ Step.written ⟨true, segment⟩ := by
      simp [Step.written]
    rw [htext] at h
    refine ⟨base, ⟨true, segment⟩, htext, isBase_of_isValid h fun hdot => ?_, hsegment⟩
    obtain ⟨front, rfl⟩ := List.getLast?_eq_some_iff.mp hdot
    exact not_infix_of_isValid h ⟨front, segment, by simp [Step.written]⟩
  · have hbase : IsBase package := @isBase_of_isValid package ⟨false, segment⟩ h hlast
    exact ⟨package, ⟨false, segment⟩, rfl, hbase, hsegment⟩

def ofChars (pattern : List Char) : TypePattern :=
  ⟨String.ofList pattern, ofText pattern, packageParts pattern⟩

theorem parse_eq_ok {text : String} (h : isValid (Text.trimChars text.toList) = true) :
    parse text = .ok (ofChars (Text.trimChars text.toList)) := if_pos h

theorem dot_mem_of_covers (hbase : IsBase base) (hdot : '.' ∉ step.segment)
    (h : (ofChars (base ++ step.written)).covers name = true) : '.' ∈ name := by
  obtain ⟨front, last, rfl, -, -⟩ := (covers_written hbase hdot).mp h
  simp

theorem coversPackage_of_covers (hbase : IsBase base) (hdot : '.' ∉ step.segment) (hx : '.' ∉ x)
    (h : (ofChars (base ++ step.written)).covers (package ++ '.' :: x) = true) :
    (ofChars (base ++ step.written)).coversPackage package = true := by
  obtain ⟨front, last, hname, hfront, hlast⟩ := (covers_written hbase hdot).mp h
  obtain ⟨rfl, -⟩ := Text.eq_of_last hname hx (hlast.dot_not_mem hdot)
  exact hfront

/-- The pattern covers a type of the package. A type of the package without a name has no dot in its
name. -/
def HasCovered (p : TypePattern) (package : List Char) : Prop :=
  ∃ x, x ≠ [] ∧ '.' ∉ x ∧ p.covers (if package = [] then x else package ++ '.' :: x) = true

theorem hasCovered_of_dot_not_mem (hdot : '.' ∉ pattern) (hne : pattern ≠ []) :
    (ofChars pattern).HasCovered package ↔ package = [] := by
  constructor
  · rintro ⟨x, -, -, hcovers⟩
    by_contra hpackage
    rw [if_neg hpackage] at hcovers
    exact ((covers_of_dot_not_mem hdot).mp hcovers).dot_not_mem hdot (by simp)
  · rintro rfl
    obtain ⟨x, hx, hxne⟩ := exists_describes pattern
    exact ⟨x, hxne hne, hx.dot_not_mem hdot, (covers_of_dot_not_mem hdot).mpr hx⟩

theorem hasCovered_written (hbase : IsBase base) (hdot : '.' ∉ step.segment)
    (hne : step.segment ≠ []) :
    (ofChars (base ++ step.written)).HasCovered package ↔
      package ≠ [] ∧ (ofChars (base ++ step.written)).coversPackage package = true := by
  constructor
  · rintro ⟨x, -, hx, hcovers⟩
    split_ifs at hcovers with hpackage
    · exact absurd (dot_mem_of_covers hbase hdot hcovers) hx
    · exact ⟨hpackage, coversPackage_of_covers hbase hdot hx hcovers⟩
  · rintro ⟨hpackage, hcovers⟩
    obtain ⟨x, hx, hxne⟩ := exists_describes step.segment
    refine ⟨x, hxne hne, hx.dot_not_mem hdot, ?_⟩
    rw [if_neg hpackage]
    exact (covers_written hbase hdot).mpr ⟨package, x, rfl, hcovers, hx⟩

def IsRootless (pattern : List Char) : Prop :=
  ∃ stars step, pattern = stars ++ Step.written step ∧ (∀ c ∈ stars, c = '*') ∧ '.' ∉ step.segment

/-- A pattern that does not end with a dot has something behind its last dots. -/
theorem segment_ne_nil (h : (base ++ step.written).getLast? ≠ some '.') : step.segment ≠ [] := by
  intro hnil
  obtain ⟨_ | _, segment⟩ := step <;> obtain rfl : segment = [] := hnil <;> simp [Step.written] at h

theorem isRootless_written (hvalid : isValid (base ++ step.written) = true) (hbase : IsBase base)
    (hdot : '.' ∉ step.segment) : IsRootless (base ++ step.written) ↔ ∀ c ∈ base, c = '*' := by
  refine ⟨?_, fun hstars => ⟨base, step, rfl, hstars, hdot⟩⟩
  rintro ⟨stars, other, heq, hstars, hdot'⟩
  have hlast : stars.getLast? ≠ some '.' :=
    fun hlast => absurd (hstars _ (List.mem_of_getLast? hlast)) (by decide)
  rw [← covers_nil_written hbase hdot, heq,
    covers_nil_written (isBase_of_isValid (heq ▸ hvalid) hlast) hdot']
  exact hstars

theorem IsRootless.dot_mem (h : IsRootless pattern) : '.' ∈ pattern := by
  obtain ⟨stars, step, rfl, -, -⟩ := h
  obtain ⟨more, hmore⟩ := step.written_eq_cons
  simp [hmore]

/-- A pattern that does not end with a dot covers every package with a type that it covers. It
covers no other, except for the package without a name if there are only stars in front of its last
dots. -/
theorem coversPackage_exactly (text : String) (hvalid : isValid (Text.trimChars text.toList) = true)
    (hlast : (Text.trimChars text.toList).getLast? ≠ some '.') :
    ∃ p, parse text = .ok p ∧ ∀ package : String,
      (p.HasCovered package.toList → p.coversPackage package.toList = true) ∧
        ((p.coversPackage package.toList = true → p.HasCovered package.toList) ↔
          ¬ (package = "" ∧ IsRootless (Text.trimChars text.toList))) := by
  refine ⟨_, parse_eq_ok hvalid, fun package => ?_⟩
  generalize Text.trimChars text.toList = pattern at hvalid hlast ⊢
  rw [← String.toList_eq_nil_iff]
  generalize package.toList = package
  by_cases hmem : '.' ∈ pattern
  · obtain ⟨base, step, rfl, hbase, hdot⟩ := exists_written hvalid hmem
    rw [hasCovered_written hbase hdot (segment_ne_nil hlast), isRootless_written hvalid hbase hdot,
      ← covers_nil_written hbase hdot]
    refine ⟨And.right, ?_, ?_⟩
    · rintro h ⟨rfl, hcovers⟩
      exact (h hcovers).1 rfl
    · intro h hcovers
      refine ⟨?_, hcovers⟩
      rintro rfl
      exact h ⟨rfl, hcovers⟩
  · have hne : pattern ≠ [] := by
      rintro rfl
      cases hvalid
    have hsame : (ofChars pattern).HasCovered package ↔
        (ofChars pattern).coversPackage package = true :=
      (hasCovered_of_dot_not_mem hmem hne).trans (coversPackage_of_dot_not_mem hmem).symm
    exact ⟨hsame.mp, iff_of_true hsame.mpr fun h => hmem h.2.dot_mem⟩

/-- There are types in `a.b` that `*..C` covers, but none in the package without a name. -/
theorem coversPackage_exactly_of_descent :
    ∃ p, parse "*..C" = .ok p ∧ p.coversPackage "a.b".toList = true ∧ p.HasCovered "a.b".toList ∧
      p.coversPackage "".toList = true ∧ ¬ p.HasCovered "".toList := by
  obtain ⟨p, hparse, hpackage⟩ := coversPackage_exactly "*..C" (by decide) (by decide)
  have hp : p = ofChars "*..C".toList := Except.ok.inj (hparse.symm.trans (parse_eq_ok (by decide)))
  have hnamed : p.coversPackage "a.b".toList = true := by rw [hp]; decide
  have hunnamed : p.coversPackage "".toList = true := by rw [hp]; decide
  have hrootless : IsRootless (Text.trimChars "*..C".toList) :=
    ⟨['*'], ⟨true, ['C']⟩, by decide, List.forall_mem_singleton.mpr rfl, by decide⟩
  refine ⟨p, hparse, hnamed, (hpackage "a.b").2.mpr (by simp) hnamed, hunnamed, fun hcovered => ?_⟩
  exact (hpackage "").2.mp (fun _ => hcovered) ⟨rfl, hrootless⟩

/-- No type without a dot in its name is covered by `*.C`, but the package without a name is. -/
theorem coversPackage_without_type :
    ∃ p, parse "*.C" = .ok p ∧ p.coversPackage "".toList = true ∧ ¬ p.HasCovered "".toList := by
  have hbase : IsBase ['*'] := ⟨by decide, by decide⟩
  have hdot : '.' ∉ ['C'] := by decide
  have hstars : ∀ c ∈ ['*'], c = '*' := by simp
  refine ⟨ofChars (['*'] ++ Step.written ⟨false, ['C']⟩), by decide, ?_, ?_⟩
  · exact (@covers_nil_written ['*'] ⟨false, ['C']⟩ hbase hdot).mpr hstars
  · rw [hasCovered_written hbase hdot (by decide)]
    exact fun h => h.1 rfl

end TypePattern

end BuildScript
