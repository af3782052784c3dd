import BuildScript.Proofs.Matching
import BuildScript.Proofs.TypePatterns
import BuildScript.Regex.Parse
import Mathlib.Algebra.GroupWithZero.Nat
import Mathlib.Data.List.MinMax
import Mathlib.Order.Nat
import Mathlib.Tactic.FinCases

/-!
# The expressions of type patterns

A type pattern can also be written as a regular expression, with its anchors and with a backslash
before every character that means something else there. The expression can be read, whatever the
pieces of the pattern are, and it matches exactly the texts that the pieces cover.
-/

namespace BuildScript

open Regex Computability

namespace PatternPart

section Reading

def nameSet : CharSet := .union .word (.single '$')

def dot : Regex := .one (.single '.')

def segment : Regex := .loop (.one nameSet) 1 none

/-- What a piece is read as, each part with its depth. -/
def readings : PatternPart → List (Nested Regex)
  | char c => [⟨.one (.single c), 0⟩]
  | run => [⟨.loop (.one nameSet) 0 none, 3⟩]
  | descent => [⟨dot, 0⟩, ⟨.loop (.seq segment (.seq dot .empty)) 0 none, 6⟩]
  | below => [⟨.loop (.seq dot (.seq segment .empty)) 0 none, 6⟩]

def steps : PatternPart → Nat
  | char _ => 1
  | run => 2
  | descent => 7
  | below => 6

variable {fuel : Nat} {names : List String} {group : OpenGroup} {outer : List OpenGroup}
  {rest : List Char}

theorem expression_char (c : Char) :
    expression (char c) = if isMeta c then ['\\', c] else [c] := rfl

theorem skipLazy_eq (h : rest.head? ≠ some '?') : skipLazy {} rest = rest := by
  rw [skipLazy]
  split
  · next heq =>
    obtain rfl : rest = '?' :: _ := heq
    exact absurd rfl h
  · rfl

theorem parseFrom?_escaped {c : Char} (h : isMeta c = true) :
    parseFrom? (fuel + 1) {} names group outer ('\\' :: c :: rest) =
      parseFrom? fuel {} names (group.push ⟨.one (.single c), 0⟩) outer rest := by
  have hmem := List.contains_iff_mem.mp h
  fin_cases hmem <;> rfl

theorem parseFrom?_literal {c : Char} (h : isMeta c = false) :
    parseFrom? (fuel + 1) {} names group outer (c :: rest) =
      parseFrom? fuel {} names (group.push ⟨.one (.single c), 0⟩) outer rest := by
  have hc : ∀ d, isMeta d = true → c ≠ d := by
    rintro d hd rfl
    rw [h] at hd
    cases hd
  rw [parseFrom?, show skip {} (c :: rest) = c :: rest from rfl]
  split
  case h_1 heq => cases heq
  all_goals
    next heq =>
    obtain ⟨rfl, rfl⟩ := List.cons.inj heq
    first | rfl | exact absurd rfl (hc _ (by decide))

theorem parseFrom?_star {r : Nested Regex} (h : rest.head? ≠ some '?') :
    parseFrom? (fuel + 1) {} names (group.push r) outer ('*' :: rest) =
      parseFrom? fuel {} names (group.push ⟨.loop r.value 0 none, r.depth + 1⟩) outer rest :=
  congrArg (parseFrom? fuel {} names _ outer) (skipLazy_eq h)

/-- Up to the star at its end a piece is read by computation. -/
theorem parseFrom?_expression (part : PatternPart) (h : rest.head? ≠ some '?') :
    parseFrom? (fuel + part.steps) {} names group outer (part.expression ++ rest) =
      parseFrom? fuel {} names (part.readings.foldl (fun g r => g.push r) group) outer rest := by
  cases part with
  | char c =>
    cases hc : isMeta c with
    | true =>
      rw [expression_char, if_pos hc]
      exact parseFrom?_escaped hc
    | false =>
      rw [expression_char, if_neg (Bool.eq_false_iff.mp hc)]
      exact parseFrom?_literal hc
  | run => exact parseFrom?_star h
  | descent => exact parseFrom?_star h
  | below => exact parseFrom?_star h

theorem exists_expression_eq (part : PatternPart) :
    ∃ c more, part.expression = c :: more ∧ c ≠ '?' := by
  cases part with
  | char c =>
    rw [expression_char]
    split_ifs with hc
    · exact ⟨'\\', [c], rfl, by decide⟩
    · refine ⟨c, [], rfl, ?_⟩
      rintro rfl
      exact hc (by decide)
  | run => exact ⟨'[', _, rfl, by decide⟩
  | descent => exact ⟨'\\', _, rfl, by decide⟩
  | below => exact ⟨'(', _, rfl, by decide⟩

theorem head?_expressions (parts : List PatternPart) :
    (parts.flatMap expression ++ ['$']).head? ≠ some '?' := by
  cases parts with
  | nil => decide
  | cons part parts =>
    obtain ⟨c, more, heq, hc⟩ := exists_expression_eq part
    rw [List.flatMap_cons, heq]
    exact fun h => hc (Option.some.inj h)

def openingAnchor : Nested Regex := ⟨.anchor .startText .word, 0⟩

def closingAnchor : Nested Regex := ⟨.anchor .endText .word, 0⟩

theorem parseFrom?_expressions {parts : List PatternPart} (h : (parts.map steps).sum + 2 ≤ fuel) :
    parseFrom? fuel {} names group [] (parts.flatMap expression ++ ['$']) =
      some ((parts.flatMap readings ++ [closingAnchor]).foldl
        (fun g r => g.push r) group).close := by
  induction parts generalizing fuel group with
  | nil =>
    obtain ⟨fuel, rfl⟩ := Nat.exists_eq_add_of_le' h
    rfl
  | cons part parts ih =>
    rw [List.map_cons, List.sum_cons] at h
    obtain ⟨fuel, rfl⟩ : ∃ k, fuel = k + part.steps := Nat.exists_eq_add_of_le' (by omega)
    rw [List.flatMap_cons, List.append_assoc, parseFrom?_expression part (head?_expressions parts),
      ih (by omega), List.flatMap_cons, List.append_assoc, List.foldl_append (l := part.readings)]

theorem steps_le (part : PatternPart) : part.steps ≤ part.expression.length := by
  cases part with
  | char c =>
    rw [expression_char, steps]
    split_ifs <;> simp
  | run => decide
  | descent => decide
  | below => decide

theorem sum_steps_le (parts : List PatternPart) :
    (parts.map steps).sum ≤ (parts.flatMap expression).length := by
  induction parts with
  | nil => exact le_rfl
  | cons part parts ih =>
    rw [List.map_cons, List.sum_cons, List.flatMap_cons, List.length_append]
    exact Nat.add_le_add (steps_le part) ih

end Reading

section Closing

theorem parts_foldl_push (rs : List (Nested Regex)) (g : OpenGroup) :
    rs.foldl (fun g r => g.push r) g =
      { g with parts := (rs.map fun r => ⟨some r.value, r.depth⟩).reverse ++ g.parts } := by
  induction rs generalizing g with
  | nil => rfl
  | cons r rs ih =>
    rw [List.foldl_cons, ih]
    simp [OpenGroup.push]

theorem depthOf_le {depths : List Nat} {n : Nat} (h : ∀ d ∈ depths, d ≤ n) :
    depthOf depths ≤ n + 1 := by
  rcases depths with _ | ⟨d, _ | ⟨e, depths⟩⟩
  · exact Nat.zero_le _
  · exact (h d (by simp)).trans (Nat.le_succ n)
  · exact Nat.succ_le_succ (List.max_le_of_forall_le _ _ h)

def chain (rs : List (Nested Regex)) : Regex := (rs.map Nested.value).foldr .seq .empty

theorem close_foldl_push (rs : List (Nested Regex)) (outside : Flags) :
    (rs.foldl (fun g r => g.push r) (OpenGroup.start outside)).close =
      ⟨chain rs, depthOf (rs.map Nested.depth).reverse⟩ := by
  rw [parts_foldl_push]
  simp [chain, OpenGroup.close, OpenGroup.current, OpenGroup.start, depthOf, List.filterMap_map,
    Function.comp_def]

theorem depth_le_of_mem_readings {part : PatternPart} {r : Nested Regex} (h : r ∈ part.readings) :
    r.depth ≤ 6 := by
  cases part <;> fin_cases h <;> simp

def compiled (parts : List PatternPart) : List (Nested Regex) :=
  openingAnchor :: (parts.flatMap readings ++ [closingAnchor])

theorem depth_compiled_le (parts : List PatternPart) :
    depthOf ((compiled parts).map Nested.depth).reverse ≤ depthLimit := by
  refine (depthOf_le (n := 6) fun depth hdepth => ?_).trans (by decide)
  obtain ⟨r, hr, rfl⟩ := List.mem_map.mp (List.mem_reverse.mp hdepth)
  simp only [compiled, List.mem_cons, List.mem_append, List.mem_flatMap, List.not_mem_nil,
    or_false] at hr
  rcases hr with rfl | ⟨part, -, hr⟩ | rfl
  · exact Nat.zero_le 6
  · exact depth_le_of_mem_readings hr
  · exact Nat.zero_le 6

theorem parse?_expressionOf (parts : List PatternPart) :
    Regex.parse? (expressionOf parts) = some (chain (compiled parts)) := by
  have hsteps := sum_steps_le parts
  have hchars : (expressionOf parts).toList = '^' :: (parts.flatMap expression ++ ['$']) := by
    rw [expressionOf, String.toList_ofList, List.cons_append]
  have hfuel : (parts.map steps).sum + 2 ≤ ('^' :: (parts.flatMap expression ++ ['$'])).length := by
    simp only [List.length_cons, List.length_append, List.length_nil]
    omega
  have hread : parseFrom? (('^' :: (parts.flatMap expression ++ ['$'])).length + 1) {} []
      (.start {}) [] ('^' :: (parts.flatMap expression ++ ['$'])) =
        some ((compiled parts).foldl (fun g r => g.push r) (OpenGroup.start {})).close :=
    parseFrom?_expressions hfuel
  simp only [Regex.parse?, hchars]
  rw [hread, Option.bind_eq_bind, Option.bind_some, close_foldl_push,
    if_pos (depth_compiled_le parts)]

end Closing

section Languages

theorem mem_single {c d : Char} : (CharSet.single c).mem d = true ↔ d = c := by
  simp only [CharSet.single, CharSet.mem, Bool.and_eq_true, decide_eq_true_eq]
  exact ⟨fun h => Char.le_antisymm h.2 h.1, fun h => h ▸ ⟨Char.le_refl d, Char.le_refl d⟩⟩

theorem mem_nameSet {c : Char} : nameSet.mem c = true ↔ isNameChar c = true := by
  simp only [nameSet, CharSet.mem, isNameChar, Bool.or_eq_true, mem_single, decide_eq_true_eq]

theorem accepts_single (c : Char) : Accepts (.one (.single c)) {[c]} := by
  refine accepts_one fun word => ⟨?_, ?_⟩
  · rintro rfl
    exact ⟨c, mem_single.mpr rfl, rfl⟩
  · rintro ⟨d, hd, rfl⟩
    rw [mem_single.mp hd]
    rfl

def nameWords : Language Char := {word | ∃ c, isNameChar c = true ∧ [c] = word}

theorem accepts_nameSet : Accepts (.one nameSet) nameWords := by
  refine accepts_one fun word => ?_
  simp only [mem_nameSet]
  rfl

theorem mem_kstar_nameWords {text : List Char} :
    text ∈ nameWords∗ ↔ ∀ c ∈ text, isNameChar c = true := by
  rw [Language.mem_kstar]
  constructor
  · rintro ⟨words, rfl, hwords⟩ c hc
    obtain ⟨word, hword, hc⟩ := List.mem_flatten.mp hc
    obtain ⟨d, hd, rfl⟩ := hwords word hword
    rwa [List.mem_singleton.mp hc]
  · intro h
    refine ⟨text.map fun c => [c], ?_, ?_⟩
    · rw [← List.flatMap_def, List.flatMap_singleton']
    rintro word hword
    obtain ⟨c, hc, rfl⟩ := List.mem_map.mp hword
    exact ⟨c, h c hc, rfl⟩

def segmentWords : Language Char := {text | IsSegment text}

theorem accepts_segment : Accepts segment segmentWords := by
  refine (accepts_nameSet.loop 1).congr fun text => ?_
  rw [pow_one, Language.mem_mul]
  constructor
  · rintro ⟨_, ⟨c, hc, rfl⟩, rest, hrest, rfl⟩
    exact ⟨List.cons_ne_nil c rest, List.forall_mem_cons.mpr ⟨hc, mem_kstar_nameWords.mp hrest⟩⟩
  · rintro ⟨hne, hnames⟩
    obtain ⟨c, rest, rfl⟩ := List.exists_cons_of_ne_nil hne
    rw [List.forall_mem_cons] at hnames
    exact ⟨[c], ⟨c, hnames.1, rfl⟩, rest, mem_kstar_nameWords.mpr hnames.2, rfl⟩

/-- Words that are made from segments, any number of them. -/
theorem mem_kstar_segments {dotted : List Char → List Char} {L : Language Char} {text : List Char}
    (h : ∀ word, word ∈ L ↔ ∃ segment, IsSegment segment ∧ dotted segment = word) :
    text ∈ L∗ ↔
      ∃ segments : List (List Char), (∀ s ∈ segments, IsSegment s) ∧
        segments.flatMap dotted = text := by
  rw [Language.mem_kstar]
  constructor
  · rintro ⟨words, rfl, hwords⟩
    induction words with
    | nil => exact ⟨[], by simp, rfl⟩
    | cons word words ih =>
      rw [List.forall_mem_cons, h] at hwords
      obtain ⟨⟨segment, hsegment, rfl⟩, hwords⟩ := hwords
      obtain ⟨segments, hsegments, heq⟩ := ih hwords
      exact ⟨segment :: segments, List.forall_mem_cons.mpr ⟨hsegment, hsegments⟩, by simp [heq]⟩
  · rintro ⟨segments, hsegments, rfl⟩
    refine ⟨segments.map dotted, List.flatMap_def, fun word hword => ?_⟩
    obtain ⟨segment, hsegment, rfl⟩ := List.mem_map.mp hword
    exact (h _).mpr ⟨segment, hsegments segment hsegment, rfl⟩

theorem accepts_readings (part : PatternPart) :
    Accepts (chain part.readings) part.language := by
  have hdot := accepts_single '.'
  cases part with
  | char c =>
    refine ((accepts_single c).seq accepts_empty).congr fun text => ?_
    rw [mul_one]
    rfl
  | run =>
    refine ((accepts_nameSet.loop 0).seq accepts_empty).congr fun text => ?_
    rw [pow_zero, one_mul, mul_one]
    exact mem_kstar_nameWords
  | descent =>
    have hloop := (accepts_segment.seq (hdot.seq accepts_empty)).loop 0
    refine (hdot.seq (hloop.seq accepts_empty)).congr fun text => ?_
    have hword : ∀ word, word ∈ segmentWords * {['.']} ↔
        ∃ segment, IsSegment segment ∧ segment ++ ['.'] = word := fun word =>
      ⟨fun ⟨s, hs, _, rfl, heq⟩ => ⟨s, hs, heq⟩, fun ⟨s, hs, heq⟩ => ⟨s, hs, ['.'], rfl, heq⟩⟩
    rw [pow_zero, one_mul, mul_one, mul_one, Language.mem_mul]
    constructor
    · rintro ⟨_, rfl, rest, hrest, rfl⟩
      obtain ⟨segments, hsegments, rfl⟩ := (mem_kstar_segments hword).mp hrest
      exact ⟨segments, hsegments, rfl⟩
    · rintro ⟨segments, hsegments, rfl⟩
      exact ⟨['.'], rfl, _, (mem_kstar_segments hword).mpr ⟨segments, hsegments, rfl⟩, rfl⟩
  | below =>
    have hloop := (hdot.seq (accepts_segment.seq accepts_empty)).loop 0
    refine (hloop.seq accepts_empty).congr fun text => ?_
    have hword : ∀ word, word ∈ {['.']} * segmentWords ↔
        ∃ segment, IsSegment segment ∧ '.' :: segment = word := fun word =>
      ⟨fun ⟨_, rfl, s, hs, heq⟩ => ⟨s, hs, heq⟩, fun ⟨s, hs, heq⟩ => ⟨['.'], rfl, s, hs, heq⟩⟩
    rw [pow_zero, one_mul, mul_one, mul_one]
    exact mem_kstar_segments hword

theorem accepts_flatMap_readings (parts : List PatternPart) :
    Accepts (chain (parts.flatMap readings)) (languageOf parts) := by
  induction parts with
  | nil => exact accepts_empty
  | cons part parts ih =>
    rw [List.flatMap_cons, chain, List.map_append, List.foldr_append]
    exact (accepts_readings part).foldr ih

theorem matches_openingAnchor {text : Array Char} {p q : Nat} (hp : p ≤ text.size) :
    openingAnchor.value.Matches text p q ↔ p = 0 ∧ q = 0 := by
  simp only [openingAnchor, Matches, Anchor.holds, Option.isNone_iff_eq_none]
  split_ifs with h
  · subst h
    simp [eq_comm]
  · have hbefore : text[p - 1]? ≠ none := by
      rw [ne_eq, Array.getElem?_eq_none_iff]
      omega
    simp [h, hbefore]

theorem matches_closingAnchor {text : Array Char} {p q : Nat} (hp : p ≤ text.size) :
    closingAnchor.value.Matches text p q ↔ p = text.size ∧ q = text.size := by
  simp only [closingAnchor, Matches, Anchor.holds, Option.isNone_iff_eq_none,
    Array.getElem?_eq_none_iff]
  omega

/-- The anchors leave only matches of the whole text. -/
theorem exists_matches_compiled {parts : List PatternPart} {text : Array Char} :
    (∃ p ≤ text.size, ∃ q, (chain (compiled parts)).Matches text p q) ↔
      text.toList ∈ languageOf parts := by
  have haccepts := accepts_flatMap_readings parts text 0
  simp only [chain, compiled, List.map_cons, List.map_append, List.map_nil, List.foldr_cons,
    List.foldr_append, List.foldr_nil]
  constructor
  · rintro ⟨p, hp, q, m, hopen, h⟩
    obtain ⟨rfl, rfl⟩ := (matches_openingAnchor hp).mp hopen
    obtain ⟨stop, hwords, _, hclose, -⟩ := matches_foldr.mp h
    have hstop := (isForward_matches text _).le_size hwords hp
    obtain ⟨rfl, -⟩ := (matches_closingAnchor hstop).mp hclose
    obtain ⟨word, hword, hprefix, hlength⟩ := (haccepts text.size hp).mp hwords
    rw [List.drop_zero] at hprefix
    rw [Nat.zero_add] at hlength
    rwa [← hprefix.eq_of_length hlength]
  · intro h
    have hwords := (haccepts text.size (Nat.zero_le _)).mpr
      ⟨text.toList, h, List.prefix_rfl, (Nat.zero_add _).trans Array.length_toList⟩
    have hopen := (matches_openingAnchor (Nat.zero_le text.size)).mpr ⟨rfl, rfl⟩
    have hclose := (matches_closingAnchor (le_refl text.size)).mpr ⟨rfl, rfl⟩
    exact ⟨0, Nat.zero_le _, text.size, 0, hopen,
      matches_foldr.mpr ⟨text.size, hwords, text.size, hclose, rfl⟩⟩

/-- The expression for some pieces can be read, and it matches the texts that the pieces cover. -/
theorem exists_parse?_expressionOf (parts : List PatternPart) :
    ∃ r, Regex.parse? (expressionOf parts) = some r ∧
      ∀ name : String, r.isMatch name = covers parts name.toList := by
  refine ⟨_, parse?_expressionOf parts, fun name => ?_⟩
  rw [Bool.eq_iff_iff, isMatch_iff, covers_iff_mem_languageOf]
  exact exists_matches_compiled

example : expressionOf (ofText ['a', '.', '.', 'b', '.', '$', '*']) =
    "^a\\.(?:[\\w$]+\\.)*b\\.\\$[\\w$]*$" := by decide

end Languages

end PatternPart

/-- The two expressions of a type pattern say the same as the pattern. -/
theorem TypePattern.isMatch_eq_covers (p : TypePattern) :
    ∃ types packages, Regex.parse? (PatternPart.expressionOf p.types) = some types ∧
      Regex.parse? (PatternPart.expressionOf p.packages) = some packages ∧
        ∀ name : String, types.isMatch name = p.covers name.toList ∧
          packages.isMatch name = p.coversPackage name.toList := by
  obtain ⟨types, htypes, hcovers⟩ := PatternPart.exists_parse?_expressionOf p.types
  obtain ⟨packages, hpackages, hcoversPackage⟩ := PatternPart.exists_parse?_expressionOf p.packages
  exact ⟨types, packages, htypes, hpackages, fun name => ⟨hcovers name, hcoversPackage name⟩⟩

end BuildScript
