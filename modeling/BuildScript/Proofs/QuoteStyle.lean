import BuildScript.Proofs.Cutting
import BuildScript.Proofs.ParsedTrees
import BuildScript.SourceFile.Edit

/-!
# Quote style

A string literal that gets a new value keeps what stands in front of the old value in its source.
That is its quote if the old value was written as it is, and also if it is nowhere in the source.
But escapes can make the value start later, or at the quote itself: `\$v` has the value `$v`, in
front of which stand the quote and a backslash.
-/

namespace BuildScript

namespace Text

/-- A backslash never stands for nothing. -/
theorem unescapeFrom_ne_nil {mode : Quoting} {text value : List Char}
    (h : unescapeFrom mode text = some value)
    (hmem : '\\' ∈ text ∨ ∃ digits, mode = .scalar digits) : value ≠ [] := by
  fun_induction unescapeFrom mode text generalizing value with
  | case1 | case2 | case3 => simp at hmem
  | case4 digits =>
    obtain ⟨d, -, rfl⟩ := Option.map_eq_some_iff.mp h
    exact List.cons_ne_nil d []
  | case5 rest ih => exact ih h (Or.inl (by simpa using hmem))
  | case6 rest hne ih => exact ih h (Or.inl (by simpa using hmem))
  | case8 rest ih => exact ih h (Or.inl (by simpa using hmem))
  | case12 rest hne hne' ih => exact ih h (Or.inl (by simpa using hmem))
  | case7 | case9 | case14 =>
    obtain ⟨more, -, rfl⟩ := Option.map_eq_some_iff.mp h
    exact List.cons_ne_nil _ more
  | case10 rest ih => exact ih h (Or.inr ⟨[], rfl⟩)
  | case11 | case15 =>
    obtain ⟨d, -, h⟩ := Option.bind_eq_some_iff.mp h
    obtain ⟨more, -, rfl⟩ := Option.map_eq_some_iff.mp h
    exact List.cons_ne_nil d more
  | case13 => cases h
  | case16 digits c rest hne ih => exact ih h (Or.inr ⟨_, rfl⟩)

end Text

namespace Lexeme

variable {q : Char} {text : List Char} {l : Lexeme} {script : String}

/-- A literal between quotes. A quote inside stands behind a backslash, so none comes first. -/
structure IsQuoted (q : Char) (inner : List Char) (source : String) : Prop where
  quote : q = '"' ∨ q = '\''
  text_eq : source.toList = q :: (inner ++ [q])
  head_ne : inner.head? ≠ some q

theorem quotedRest_closed {n : Nat} (hq : q ≠ '\\') (h : quotedRest q text = (n, true)) :
    ∃ inner, text.take n = inner ++ [q] ∧ inner.head? ≠ some q := by
  fun_induction quotedRest q text generalizing n with
  | case1 => cases h
  | case2 => cases h
  | case3 d rest hd m closed hrest ih =>
    simp only [Prod.mk.injEq] at h
    obtain ⟨rfl, rfl⟩ := h
    obtain ⟨inner, hinner, -⟩ := ih hrest
    exact ⟨'\\' :: d :: inner, by simp [hinner], by simpa using hq.symm⟩
  | case4 rest hlast hescape =>
    simp only [Prod.mk.injEq, and_true] at h
    subst h
    exact ⟨[], rfl, by simp⟩
  | case5 c rest hlast hescape hne m closed hrest ih =>
    simp only [Prod.mk.injEq] at h
    obtain ⟨rfl, rfl⟩ := h
    obtain ⟨inner, hinner, -⟩ := ih hrest
    exact ⟨c :: inner, by simp [hinner], by simpa using hne⟩

theorem exists_isQuoted (hl : l ∈ (scan script).1) (hkind : l.kind = .quoted) :
    ∃ q inner, IsQuoted q inner l.text := by
  obtain ⟨front, trivia, behind, hrow, -, -⟩ := exists_joined hl
  have hruled := hrow ▸ ruled_joined script
  obtain ⟨q, body, hchars, hmunch⟩ := hruled.right.right.1 (by simp [hkind])
  have hrule := rule_munch q (body ++ flat behind)
  simp only [hmunch, hkind] at hrule
  generalize hn : body.length = n at hrule
  cases hrule with
  | quoted hquote hclosed =>
    have hne : q ≠ '\\' := by
      rintro rfl
      simp at hquote
    obtain ⟨inner, hinner, hhead⟩ := quotedRest_closed hne hclosed
    rw [← hn, List.take_left] at hinner
    exact ⟨q, inner, hquote, by rw [← hinner]; exact hchars, hhead⟩
  | mark hmark => cases mark?_of_punctuation? hmark

namespace IsQuoted

variable {inner : List Char} {source : String}

theorem quotedValue_eq (h : IsQuoted q inner source) :
    Text.quotedValue source =
      if '\\' ∈ inner then String.ofList ((Text.unescape? source.toList).getD inner)
        else String.ofList inner := by
  simp [Text.quotedValue, h.text_eq]

/-- Without an escape, or with one that has no meaning, the value is what stands between the
quotes. -/
theorem quotedValue_plain (h : IsQuoted q inner source)
    (hplain : '\\' ∉ inner ∨ Text.unescape? source.toList = none) :
    Text.quotedValue source = String.ofList inner := by
  rw [h.quotedValue_eq]
  obtain hnone | hnone := hplain
  · rw [if_neg hnone]
  · rw [hnone, Option.getD_none, ite_self]

/-- Only two quotes without anything between them are an empty text. -/
theorem eq_nil_of_quotedValue (h : IsQuoted q inner source)
    (hempty : Text.quotedValue source = "") : inner = [] := by
  rw [h.quotedValue_eq] at hempty
  split_ifs at hempty with hmem
  · cases hvalue : Text.unescape? source.toList with
    | none => simpa [hvalue] using hempty
    | some value =>
      have hsource : '\\' ∈ source.toList := by simp [h.text_eq, hmem]
      have hne : value ≠ [] := Text.unescapeFrom_ne_nil hvalue (Or.inl hsource)
      exact absurd (by simpa [hvalue] using hempty) hne
  · simpa using hempty

theorem firstAt_inner (h : IsQuoted q inner source) (hne : inner ≠ []) :
    Text.FirstAt [q] inner source.toList := by
  rw [h.text_eq]
  refine ⟨⟨[q], by simp⟩, fun other hother => ?_⟩
  cases other with
  | nil =>
    -- Behind the first quote stands no second one, so the inner text does not start at the quote.
    cases inner with
    | nil => exact absurd rfl hne
    | cons c inner =>
      obtain ⟨rfl, -⟩ := List.cons_prefix_cons.mp hother
      exact absurd rfl h.head_ne
  | cons d other => simp

end IsQuoted

end Lexeme

namespace Node

open Lexeme

variable {q : Char} {inner : List Char} {value source : String}

theorem delimiter?_empty (h : IsQuoted q [] source) :
    delimiter? "" source = some (String.singleton q) := by
  obtain rfl : source = String.ofList [q, q] := by
    rw [← String.ofList_toList (s := source), h.text_eq]; rfl
  obtain rfl | rfl := h.quote <;> decide

theorem delimiter?_of_firstAt (hvalue : value ≠ "") {front : List Char}
    (h : Text.FirstAt front value.toList source.toList) :
    delimiter? value source = some (String.ofList front) := by
  have hsource : source ≠ "" := by
    rintro rfl
    have hnil := List.prefix_nil.mp h.occurs
    exact hvalue (by simpa using (List.append_eq_nil_iff.mp hnil).2)
  simp [delimiter?, hsource, hvalue, Text.before?_eq_some_iff.mpr h]

theorem delimiter?_of_absent (h : IsQuoted q inner source) (hvalue : value ≠ "")
    (habsent : ∀ front, ¬ Text.FirstAt front value.toList source.toList) :
    delimiter? value source = some (String.singleton q) := by
  have hsource : source ≠ "" := by
    rintro rfl
    cases h.text_eq
  have hnone : Text.before? value.toList source.toList = none :=
    Option.eq_none_iff_forall_ne_some.mpr fun front hfront =>
      habsent front (Text.before?_eq_some_iff.mp hfront)
  have hquote : quote? source = some q := by
    simp [quote?, h.text_eq, h.quote]
  simp [delimiter?, hsource, hvalue, hnone, hquote]

/-- A quoted literal has in front of its value what stands there in the source, and otherwise its
quote. -/
theorem delimiter?_cases (h : IsQuoted q inner source) :
    (∃ front, Text.quotedValue source ≠ "" ∧
      Text.FirstAt front (Text.quotedValue source).toList source.toList ∧
      delimiter? (Text.quotedValue source) source = some (String.ofList front)) ∨
    ((Text.quotedValue source = "" ∨
        ∀ front, ¬ Text.FirstAt front (Text.quotedValue source).toList source.toList) ∧
      delimiter? (Text.quotedValue source) source = some (String.singleton q)) := by
  by_cases hempty : Text.quotedValue source = ""
  · obtain rfl := h.eq_nil_of_quotedValue hempty
    rw [hempty]
    exact Or.inr ⟨Or.inl rfl, delimiter?_empty h⟩
  · by_cases hfound : ∃ front, Text.FirstAt front (Text.quotedValue source).toList source.toList
    · obtain ⟨front, hfront⟩ := hfound
      exact Or.inl ⟨front, hempty, hfront, delimiter?_of_firstAt hempty hfront⟩
    · have habsent := not_exists.mp hfound
      exact Or.inr ⟨Or.inr habsent, delimiter?_of_absent h hempty habsent⟩

theorem exists_delimiter? (h : IsQuoted q inner source) :
    ∃ d, delimiter? (Text.quotedValue source) source = some d := by
  obtain ⟨front, -, -, hd⟩ | ⟨-, hd⟩ := delimiter?_cases h
  · exact ⟨_, hd⟩
  · exact ⟨_, hd⟩

/-- The delimiter is the quote unless the value is found elsewhere than right behind it. -/
theorem delimiter?_eq_quote_iff (h : IsQuoted q inner source) :
    delimiter? (Text.quotedValue source) source = some (String.singleton q) ↔
      Text.quotedValue source = "" ∨
        ∀ front, Text.FirstAt front (Text.quotedValue source).toList source.toList →
          front = [q] := by
  obtain ⟨front, hne, hfront, hd⟩ | ⟨hnone, hd⟩ := delimiter?_cases h
  · rw [hd, or_iff_right hne]
    constructor
    · intro hquote other hother
      rw [hother.unique hfront]
      exact String.ofList_injective (Option.some.inj hquote)
    · intro hall
      rw [hall front hfront]
      rfl
  · exact iff_of_true hd (hnone.imp_right fun habsent front hfront => absurd hfront (habsent front))

theorem delimiter?_of_plain (h : IsQuoted q inner source)
    (hplain : '\\' ∉ inner ∨ Text.unescape? source.toList = none) :
    delimiter? (Text.quotedValue source) source = some (String.singleton q) := by
  refine (delimiter?_eq_quote_iff h).mpr ?_
  by_cases hempty : Text.quotedValue source = ""
  · exact Or.inl hempty
  refine Or.inr fun front hfront => ?_
  rw [h.quotedValue_plain hplain] at hfront hempty
  rw [String.toList_ofList] at hfront
  exact hfront.unique (h.firstAt_inner fun hnil => hempty (by rw [hnil, String.ofList_nil]))

def literal? : Node → Option (Head × LiteralValue × String)
  | literal h value source => some (h, value, source)
  | _ => none

theorem eq_literal_of_literal? {n : Node} {h : Head} {v : LiteralValue}
    (hn : n.literal? = some (h, v, source)) :
    n = literal h v source := by
  cases n with
  | literal h' v' source' =>
    cases hn
    rfl
  | _ => cases hn

/-- The string literals of a script are quoted lexemes. -/
theorem ReadFrom.isQuoted {script current : String} {h : Head} {n : Node}
    (hn : ReadFrom (Lexeme.scan script).1 n) (hliteral : n = literal h (.string current) source) :
    current = Text.quotedValue source ∧ ∃ q inner, IsQuoted q inner source := by
  obtain ⟨l, hl, hconstant⟩ := hn.constant h (.string current) source hliteral
  obtain rfl := source_of_constant? hconstant
  unfold constant? at hconstant
  split at hconstant
  · rename_i hkind
    simp only [Option.some.injEq, literal.injEq, LiteralValue.string.injEq, true_and,
      and_true] at hconstant
    exact ⟨hconstant.symm, exists_isQuoted hl hkind⟩
  · simp at hconstant
  · split_ifs at hconstant <;> simp at hconstant
  · cases hconstant

end Node

namespace SourceFile

open Node

/-- A string literal of a parsed file takes any other value, and the text in front of its old value
stands on both sides of the new one. That text is the quote as long as the old value is empty,
nowhere in the source, or first found right behind the quote; in particular if the source has no
escape or one without a meaning. -/
theorem quote_kept_iff (path script : String) {place : List Nat} {h : Head}
    {current source value : String}
    (hn : (parse path script).get? place = some (literal h (.string current) source))
    (hne : current ≠ value) :
    ∃ q inner d, Lexeme.IsQuoted q inner source ∧
      withString? value (literal h (.string current) source) =
        some (literal h.revised (.string value) (d ++ value ++ d)) ∧
      (h.revised.id = h.id ∧ h.revised.lead = h.lead) ∧
      (d = String.singleton q ↔
        current = "" ∨ ∀ front, Text.FirstAt front current.toList source.toList → front = [q]) ∧
      ('\\' ∉ inner ∨ Text.unescape? source.toList = none → d = String.singleton q) ∧
      ∀ front, current ≠ "" → Text.FirstAt front current.toList source.toList →
        d = String.ofList front := by
  obtain ⟨rfl, q, inner, hquoted⟩ := (all_readFrom path script place _ hn).isQuoted rfl
  obtain ⟨d, hd⟩ := exists_delimiter? hquoted
  refine ⟨q, inner, d, hquoted, ?_, ⟨rfl, rfl⟩, ?_, ?_, ?_⟩
  · rw [withString?, if_neg hne, hd]
    rfl
  · rw [← delimiter?_eq_quote_iff hquoted, hd, Option.some.injEq]
  · intro hplain
    exact Option.some.inj (hd.symm.trans (delimiter?_of_plain hquoted hplain))
  · intro front hempty hfront
    exact Option.some.inj (hd.symm.trans (delimiter?_of_firstAt hempty hfront))

/-- A value that the escapes leave nowhere in the source keeps its quote. -/
theorem quote_kept_around_escape :
    ∃ h, (parse "build.gradle" "x 'it\\'s'").get? [0,
      0] = some (literal h (.string "it\\s") "'it\\'s'") ∧
      withString? "w" (literal h (.string "it\\s") "'it\\'s'") =
        some (literal h.revised (.string "w") "'w'") := by
  have hfound : ((parse "build.gradle" "x 'it\\'s'").get? [0, 0]).bind literal? =
      some (⟨3, 0, " "⟩, .string "it\\s", "'it\\'s'") := by decide +kernel
  obtain ⟨n, hn, hliteral⟩ := Option.bind_eq_some_iff.mp hfound
  obtain rfl := eq_literal_of_literal? hliteral
  obtain ⟨q, inner, d, hquoted, hedit, -, hkept, -, -⟩ :=
    quote_kept_iff _ _ hn (show "it\\s" ≠ "w" by decide)
  obtain ⟨rfl, -⟩ :=
    List.cons.inj (hquoted.text_eq.symm.trans (show _ = '\'' :: "it\\'s'".toList from rfl))
  have habsent : Text.before? "it\\s".toList "'it\\'s'".toList = none := by decide
  have hd := hkept.mpr <| Or.inr fun front hfront => by
    rw [Text.before?_eq_some_iff.mpr hfront] at habsent
    cases habsent
  rw [hd] at hedit
  exact ⟨_, hn, hedit⟩

/-- The value of an escaped dollar is found behind the backslash, which then stands on both
sides. -/
theorem quote_lost_at_escaped_dollar :
    ∃ h, (parse "build.gradle" "x = \"\\$v\"").get? [0,
      1] = some (literal h (.string "$v") "\"\\$v\"") ∧
      withString? "w" (literal h (.string "$v") "\"\\$v\"") =
        some (literal h.revised (.string "w") "\"\\w\"\\") := by
  have hfound : ((parse "build.gradle" "x = \"\\$v\"").get? [0, 1]).bind literal? =
      some (⟨5, 0, " "⟩, .string "$v", "\"\\$v\"") := by decide +kernel
  obtain ⟨n, hn, hliteral⟩ := Option.bind_eq_some_iff.mp hfound
  obtain rfl := eq_literal_of_literal? hliteral
  have hd : delimiter? "$v" "\"\\$v\"" = some "\"\\" := by decide
  refine ⟨_, hn, ?_⟩
  rw [withString?, if_neg (by decide), hd]
  rfl

end SourceFile

end BuildScript
