import BuildScript.Proofs.Numerals

/-!
# The grammar of selectors

A selector is a range, one of the words for the latest version, or a version as it is. The grammar
is stated on characters, with signs in front of the numbers or without. The reader accepts exactly
what the grammar with signs allows.
-/

namespace BuildScript

open Version

theorem Version.IsRow.isTight {signs : Bool} {text : List Char} {numbers : List Nat}
    (h : IsRow signs text numbers) :
    Text.IsTight text := by
  obtain ⟨c, rest, hhead, hc⟩ := h.head
  obtain ⟨front, d, hlast, hd⟩ := h.getLast
  refine ⟨⟨c, rest, hhead, ?_⟩, front, d, hlast, Text.isBlank_of_isDigit hd⟩
  rcases hc with hc | rfl
  · exact Text.isBlank_of_isDigit hc
  · rfl

def Version.Row.recast {signs signs' : Bool} (p : Row signs) (h : '+' ∉ p.text) : Row signs' :=
  ⟨p.text, p.numbers, p.isRow.congr_signs h⟩

theorem Version.Row.numbers? {signs : Bool} (p : Row signs) :
    Selection.numbers? p.text = some p.numbers := by
  rw [numbers?_eq_some]
  cases signs with
  | true => exact p.isRow
  | false => exact p.isRow.congr_signs p.isRow.plus_not_mem

namespace Selection

def wildcards : List Char := ['X', 'x', '*']

theorem wildcards_symbol :
    ∀ mark ∈ wildcards, mark.isDigit = false ∧ mark ≠ '+' ∧ Text.isBlank mark = false := by
  simp only [wildcards, List.forall_mem_cons]
  exact ⟨by decide, by decide, by decide, List.forall_mem_nil _⟩

def leadingMarks : List Char := ['[', '(', '~', '^']

theorem leadingMarks_symbol :
    ∀ mark ∈ leadingMarks, mark.isDigit = false ∧ mark ≠ '+' ∧ mark.isAlphanum = false := by
  simp only [leadingMarks, List.forall_mem_cons]
  exact ⟨by decide, by decide, by decide, by decide, List.forall_mem_nil _⟩

inductive Shorthand (signs : Bool) where
  | wildcard (p : Row signs) (mark : Char) (hmark : mark ∈ wildcards)
  | tilde (p : Row signs)
  | caret (p : Row signs)
  | hyphen (low high : Row signs) (before after : List Char)
      (hbefore : ∀ c ∈ before, Text.isBlank c = true)
      (hafter : ∀ c ∈ after, Text.isBlank c = true)

namespace Shorthand

variable {signs signs' : Bool}

def text : Shorthand signs → List Char
  | wildcard p mark _ => p.text ++ ['.', mark]
  | tilde p => '~' :: p.text
  | caret p => '^' :: p.text
  | hyphen low high before after _ _ => low.text ++ before ++ '-' :: (after ++ high.text)

def lower : Shorthand signs → List Nat
  | wildcard p _ _ => p.numbers
  | tilde p => p.numbers
  | caret p => p.numbers
  | hyphen low _ _ _ _ _ => low.numbers

/-- The numbers up to the one that must not be exceeded. For a caret this is the first that is not
zero. -/
def limit : Shorthand signs → List Nat
  | wildcard p _ _ => p.numbers
  | tilde p => p.numbers.take 2
  | caret p => p.numbers.take (p.numbers.findIdx (· ≠ 0) + 1)
  | hyphen _ high _ _ _ _ => high.numbers

theorem limit_ne_nil (f : Shorthand signs) : f.limit ≠ [] := by
  cases f with
  | wildcard p => exact p.isRow.ne_nil
  | tilde p => simp [limit, p.isRow.ne_nil]
  | caret p => simp [limit, p.isRow.ne_nil]
  | hyphen _ high => exact high.isRow.ne_nil

theorem isTight (f : Shorthand signs) : Text.IsTight f.text := by
  cases f with
  | wildcard p mark hmem =>
    obtain ⟨c, rest, hhead, hc⟩ := p.isRow.isTight.head
    obtain ⟨-, -, hmark⟩ := wildcards_symbol mark hmem
    exact ⟨⟨c, rest ++ ['.', mark], by simp [text, hhead], hc⟩, p.text ++ ['.'], mark,
      by simp [text], hmark⟩
  | tilde p =>
    obtain ⟨front, c, hlast, hc⟩ := p.isRow.isTight.last
    exact ⟨⟨'~', p.text, rfl, rfl⟩, '~' :: front, c, by simp [text, hlast], hc⟩
  | caret p =>
    obtain ⟨front, c, hlast, hc⟩ := p.isRow.isTight.last
    exact ⟨⟨'^', p.text, rfl, rfl⟩, '^' :: front, c, by simp [text, hlast], hc⟩
  | hyphen low high before after =>
    obtain ⟨c, rest, hhead, hc⟩ := low.isRow.isTight.head
    obtain ⟨front, d, hlast, hd⟩ := high.isRow.isTight.last
    exact ⟨⟨c, rest ++ before ++ '-' :: (after ++ high.text), by simp [text, hhead], hc⟩,
      low.text ++ before ++ '-' :: (after ++ front), d, by simp [text, hlast], hd⟩

end Shorthand

theorem wildcardStem?_eq_some {t stem : List Char} :
    wildcardStem? t = some stem ↔ ∃ mark ∈ wildcards, t = stem ++ ['.', mark] := by
  constructor
  · intro h
    unfold wildcardStem? at h
    split at h
    · next c rest hreverse =>
      split_ifs at h with hc
      have ht : t = rest.reverse ++ ['.', c] := by
        rw [← List.reverse_reverse t, hreverse]
        simp
      refine ⟨c, by simpa [wildcards, or_assoc] using hc, ?_⟩
      rw [ht, Option.some.inj h]
    · cases h
  · rintro ⟨mark, hmark, rfl⟩
    have hc : (mark = 'X' || mark = 'x' || mark = '*') = true := by
      simpa [wildcards, or_assoc] using hmark
    simp [wildcardStem?, hc]

theorem wildcardStem?_of_isDigit (front : List Char) {c : Char} (hc : c.isDigit = true) :
    wildcardStem? (front ++ [c]) = none := by
  rw [Option.eq_none_iff_forall_ne_some]
  intro stem hstem
  obtain ⟨mark, hmark, heq⟩ := wildcardStem?_eq_some.mp hstem
  have hlast : c = mark := by
    have hlast := congrArg List.getLast? heq
    simpa using hlast
  rw [hlast, (wildcards_symbol mark hmark).1] at hc
  cases hc

theorem significant_eq_take (numbers : List Nat) :
    significant numbers = numbers.take (numbers.findIdx (· ≠ 0) + 1) := by
  induction numbers with
  | nil => rfl
  | cons n numbers ih =>
    by_cases hn : n = 0
    · simp [significant, hn, ih, List.findIdx_cons]
    · simp [significant, hn, List.findIdx_cons]

theorem bumpLast?_append (front : List Nat) (n : Nat) :
    bumpLast? (front ++ [n]) = if n + 1 < partBound then some (front ++ [n + 1]) else none := by
  induction front with
  | nil => rfl
  | cons a front ih =>
    have hcons : bumpLast? (a :: (front ++ [n])) = (bumpLast? (front ++ [n])).map (a :: ·) := by
      cases front <;> rfl
    rw [List.cons_append, hcons, ih]
    split_ifs <;> rfl

theorem rangeUpTo_append (lower front : List Nat) (n : Nat) :
    rangeUpTo lower (front ++ [n]) =
      if n + 1 < partBound then .ok (range (some ⟨lower, true⟩) (some ⟨front ++ [n + 1], false⟩))
      else .error .partOutOfRange := by
  rw [rangeUpTo, bumpLast?_append]
  split_ifs <;> rfl

/-- A text that is neither a word for the latest version, a lone wildcard nor marked by its first
character. -/
structure IsUnmarked (t : List Char) : Prop where
  latest : ¬ "latest.".toList <+: t
  wildcard : ∀ mark ∈ wildcards, t ≠ [mark]
  first : ∃ c rest, t = c :: rest ∧ c ∉ leadingMarks

theorem parse_of_isUnmarked {t : List Char} (h : IsUnmarked t) : parse t =
    match wildcardStem? t with
    | some stem =>
      match numbers? stem with
      | some parts => rangeUpTo parts parts
      | none => .error .wildcardNotNumeric
    | none =>
      match hyphenRange? t with
      | some (low, high) => rangeUpTo low high
      | none => if isExact t then .ok (exact (String.ofList t)) else .error .unrecognised := by
  have hword : ∀ word : List Char, "latest.".toList <+: word → t ≠ word := by
    rintro word hlatest rfl
    exact h.latest hlatest
  have hprefix : "latest.".toList.isPrefixOf t = false := by
    rw [Bool.eq_false_iff, Ne, List.isPrefixOf_iff_prefix]
    exact h.latest
  obtain ⟨c, rest, rfl, hc⟩ := h.first
  simp only [leadingMarks, List.mem_cons, List.not_mem_nil, or_false, not_or] at hc
  have hmark : ¬ (c :: rest = ['X'] || c :: rest = ['x'] || c :: rest = ['*']) = true := by
    have hwildcard := h.wildcard
    simp only [wildcards, List.forall_mem_cons] at hwildcard
    simp only [Bool.or_eq_true, decide_eq_true_eq, not_or]
    exact ⟨⟨hwildcard.1, hwildcard.2.1⟩, hwildcard.2.2.1⟩
  rewrite [parse, if_neg (by simp), if_neg (hword _ (by decide)), if_neg (hword _ (by decide)),
    if_neg (hword _ (by decide)), if_neg (hword _ (by decide)), if_neg hmark, hprefix,
      if_neg (by simp),
    if_neg (by simp [hc]), if_neg (by simp [hc]), if_neg (by simp [hc])]
  rfl

theorem isUnmarked_append {signs : Bool} (p : Row signs) (rest : List Char) :
    IsUnmarked (p.text ++ rest) := by
  obtain ⟨c, others, hhead, hc⟩ := p.isRow.head
  have hne : ∀ d : Char, d.isDigit = false → d ≠ '+' → c ≠ d := by
    rintro d hdigit hplus rfl
    rcases hc with hc | hc
    · rw [hdigit] at hc
      cases hc
    · exact hplus hc
  rw [hhead, List.cons_append]
  refine ⟨?_, ?_, c, _, rfl, ?_⟩
  · intro hlatest
    exact hne 'l' rfl (by decide) (List.cons_prefix_cons.mp hlatest).1.symm
  · intro mark hmark heq
    obtain ⟨hdigit, hplus, -⟩ := wildcards_symbol mark hmark
    exact hne mark hdigit hplus (List.cons.inj heq).1
  · intro hmem
    obtain ⟨hdigit, hplus, -⟩ := leadingMarks_symbol c hmem
    exact hne c hdigit hplus rfl

theorem hyphenRange?_append {signs : Bool} (low high : Row signs) {before after : List Char}
    (hbefore : ∀ c ∈ before, Text.isBlank c = true) (hafter : ∀ c ∈ after, Text.isBlank c = true) :
    hyphenRange? (low.text ++ before ++ '-' :: (after ++ high.text)) =
      some (low.numbers, high.numbers) := by
  have hlow : '-' ∉ low.text ++ before := by
    rw [List.mem_append, not_or]
    refine ⟨low.isRow.not_mem rfl (by decide) (by decide), fun hblank => ?_⟩
    exact absurd (hbefore _ hblank) (by decide)
  have htrimLow : Text.trimChars (low.text ++ before) = low.text := by
    simpa using low.isRow.isTight.trimChars_surrounded (List.forall_mem_nil _) hbefore
  have htrimHigh : Text.trimChars (after ++ high.text) = high.text := by
    simpa using high.isRow.isTight.trimChars_surrounded hafter (List.forall_mem_nil _)
  rw [hyphenRange?, Text.cutFirst?_append hlow]
  simp [htrimLow, htrimHigh, low.numbers?, high.numbers?]

theorem parse_shorthand {signs : Bool} (f : Shorthand signs) :
    parse f.text = rangeUpTo f.lower f.limit := by
  cases f with
  | tilde p => simp [Shorthand.text, Shorthand.lower, Shorthand.limit, parse, p.numbers?]
  | caret p =>
    simp [Shorthand.text, Shorthand.lower, Shorthand.limit, parse, p.numbers?, significant_eq_take]
  | wildcard p mark hmark =>
    have hstem : wildcardStem? (p.text ++ ['.', mark]) = some p.text :=
      wildcardStem?_eq_some.mpr ⟨mark, hmark, rfl⟩
    rw [Shorthand.text, parse_of_isUnmarked (isUnmarked_append p _), hstem]
    simp only [p.numbers?]
    rfl
  | hyphen low high before after hbefore hafter =>
    have hstem : wildcardStem? (low.text ++ before ++ '-' :: (after ++ high.text)) = none := by
      obtain ⟨front, c, hlast, hc⟩ := high.isRow.getLast
      have hend : low.text ++ before ++ '-' :: (after ++ high.text) =
          low.text ++ before ++ '-' :: (after ++ front) ++ [c] := by
        simp [hlast]
      rw [hend]
      exact wildcardStem?_of_isDigit _ hc
    have hunmarked := isUnmarked_append low (before ++ '-' :: (after ++ high.text))
    rw [← List.append_assoc] at hunmarked
    rw [Shorthand.text, parse_of_isUnmarked hunmarked, hstem]
    simp only [hyphenRange?_append low high hbefore hafter]
    rfl

theorem exists_blanks {signs : Bool} {t : List Char} {numbers : List Nat}
    (h : IsRow signs (Text.trimChars t) numbers) :
    ∃ before after, t = before ++ Text.trimChars t ++ after ∧
      (∀ c ∈ before, Text.isBlank c = true) ∧ ∀ c ∈ after, Text.isBlank c = true := by
  obtain ⟨-, hempty⟩ | ⟨-, hblanks⟩ := Text.blank_or_tight t
  · obtain ⟨c, rest, hcons, -⟩ := h.head
    rw [hempty] at hcons
    cases hcons
  · exact hblanks

def Hyphenated (signs : Bool) (t : List Char) (low high : List Nat) : Prop :=
  ∃ (p q : Row signs) (before after : List Char), t = p.text ++ before ++ '-' :: (after ++ q.text) ∧
    p.numbers = low ∧ q.numbers = high ∧
    (∀ c ∈ before, Text.isBlank c = true) ∧ ∀ c ∈ after, Text.isBlank c = true

theorem hyphenRange?_eq_some {t : List Char} {low high : List Nat} (ht : Text.trimChars t = t) :
    hyphenRange? t = some (low, high) ↔ Hyphenated true t low high := by
  constructor
  · intro h
    simp only [hyphenRange?, Option.bind_eq_bind, Option.bind_eq_some_iff, Option.some.injEq,
      Prod.mk.injEq] at h
    obtain ⟨⟨front, rest⟩, hcut, numbers, hlow, numbers', hhigh, rfl, rfl⟩ := h
    replace hlow : IsRow true (Text.trimChars front) numbers := numbers?_eq_some.mp hlow
    replace hhigh : IsRow true (Text.trimChars rest) numbers' := numbers?_eq_some.mp hhigh
    obtain ⟨hcut, -⟩ := Text.cutFirst?_eq_some.mp hcut
    obtain ⟨outer, before, hfront, houter, hbefore⟩ := exists_blanks hlow
    obtain ⟨after, outer', hrest, hafter, houter'⟩ := exists_blanks hhigh
    let p : Row true := ⟨_, numbers, hlow⟩
    let q : Row true := ⟨_, numbers', hhigh⟩
    have hwhole : t = outer ++ (p.text ++ before ++ '-' :: (after ++ q.text)) ++ outer' := by
      calc
        t = front ++ '-' :: rest := hcut
        _ = (outer ++ p.text ++ before) ++ '-' :: (after ++ q.text ++ outer') :=
            congrArg₂ (· ++ '-' :: ·) hfront hrest
        _ = outer ++ (p.text ++ before ++ '-' :: (after ++ q.text)) ++ outer' := by simp
    -- the blanks outside would be gone already
    have htight : Text.IsTight (p.text ++ before ++ '-' :: (after ++ q.text)) :=
      (Shorthand.hyphen p q before after hbefore hafter).isTight
    have htrim := htight.trimChars_surrounded houter houter'
    rw [← hwhole, ht] at htrim
    exact ⟨p, q, before, after, htrim, rfl, rfl, hbefore, hafter⟩
  · rintro ⟨p, q, before, after, rfl, rfl, rfl, hbefore, hafter⟩
    exact hyphenRange?_append p q hbefore hafter

inductive Side (signs inclusive : Bool) (t : List Char) : Option Bound → Prop
  | unbounded : (∀ c ∈ t, Text.isBlank c = true) → Side signs inclusive t none
  | bounded (p : Row signs) (before after : List Char) : t = before ++ p.text ++ after →
      (∀ c ∈ before, Text.isBlank c = true) → (∀ c ∈ after, Text.isBlank c = true) →
      Side signs inclusive t (some ⟨p.numbers, inclusive⟩)

theorem bound?_eq_ok {inclusive : Bool} {t : List Char} {side : Option Bound} :
    bound? inclusive t = .ok side ↔ Side true inclusive t side := by
  simp only [bound?]
  obtain ⟨hblank, hempty⟩ | ⟨htight, before, after, ht, -, -⟩ := Text.blank_or_tight t
  · simp only [hempty, List.isEmpty_nil, if_true, Except.ok.injEq]
    constructor
    · rintro rfl
      exact .unbounded hblank
    · rintro (_ | ⟨p, before, after, ht, -, -⟩)
      · rfl
      · rw [ht] at hblank
        exact absurd hblank p.isRow.isTight.not_blank
  · have hne : (Text.trimChars t).isEmpty = false := by
      obtain ⟨c, rest, hcons, -⟩ := htight.head
      rw [hcons, List.isEmpty_cons]
    rw [hne, if_neg Bool.false_ne_true]
    constructor
    · intro h
      split at h
      · next parts hparts =>
        have hrow : IsRow true (Text.trimChars t) parts := numbers?_eq_some.mp hparts
        obtain ⟨before, after, ht, hbefore, hafter⟩ := exists_blanks hrow
        rw [← Except.ok.inj h]
        exact .bounded ⟨_, parts, hrow⟩ before after ht hbefore hafter
      · cases h
    · rintro (hblank | ⟨p, before', after', ht', hbefore', hafter'⟩)
      · rw [ht] at hblank
        exact absurd hblank htight.not_blank
      · have htrim : Text.trimChars t = p.text := by
          rw [ht']
          exact p.isRow.isTight.trimChars_surrounded hbefore' hafter'
        simp only [htrim, p.numbers?]

theorem bracketRange_eq_ok {lowerInclusive upperInclusive : Bool} {inner : List Char}
    {s : Selection} :
    bracketRange lowerInclusive upperInclusive inner = .ok s ↔
      ∃ low high lower upper, inner = low ++ ',' :: high ∧ ',' ∉ low ∧
        Side true lowerInclusive low lower ∧
        Side true upperInclusive high upper ∧ (lower.isSome || upper.isSome) = true ∧
          s = range lower upper := by
  constructor
  · intro h
    rw [bracketRange] at h
    split at h
    · cases h
    · next low high hcut =>
      obtain ⟨rfl, hlow⟩ := Text.cutFirst?_eq_some.mp hcut
      cases hlower : bound? lowerInclusive low with
      | error fault => simp [hlower, bind, Except.bind] at h
      | ok lower =>
        cases hupper : bound? upperInclusive high with
        | error fault => simp [hlower, hupper, bind, Except.bind] at h
        | ok upper =>
          simp only [hlower, hupper, bind, Except.bind] at h
          split_ifs at h with hnone
          refine ⟨low, high, lower, upper, rfl, hlow, bound?_eq_ok.mp hlower,
            bound?_eq_ok.mp hupper, ?_, ?_⟩
          · cases lower <;> cases upper <;> simp_all
          · exact (Except.ok.inj h).symm
  · rintro ⟨low, high, lower, upper, rfl, hlow, hlower, hupper, hsome, rfl⟩
    rw [bracketRange, Text.cutFirst?_append hlow]
    have hnone : (lower.isNone && upper.isNone) = false := by
      cases lower <;> cases upper <;> simp_all
    simp [bound?_eq_ok.mpr hlower, bound?_eq_ok.mpr hupper, bind, Except.bind, hnone]

theorem parse_bracket {opening closing : Char} (hopening : opening ∈ ['[', '('])
    (hclosing : closing ∈ [']', ')']) (inner : List Char) :
    parse (opening :: inner ++ [closing]) = bracketRange (opening = '[') (closing = ']') inner := by
  have hlast : (opening :: (inner ++ [closing])).getLast? = some closing :=
    @List.getLast?_concat _ (opening :: inner) closing
  simp only [List.mem_cons, List.not_mem_nil, or_false] at hopening hclosing
  rcases hopening with rfl | rfl <;> rcases hclosing with rfl | rfl <;> simp [parse, hlast]

/-- The texts of ranges. In a shorthand the last number of the limit is increased, which must stay
below the bound. -/
inductive Ranged (signs : Bool) (t : List Char) : Option Bound → Option Bound → Prop
  | anything {mark} : mark ∈ wildcards → t = [mark] → Ranged signs t none none
  | shorthand (f : Shorthand signs) {front n} :
      t = f.text → f.limit = front ++ [n] → n + 1 < partBound →
      Ranged signs t (some ⟨f.lower, true⟩) (some ⟨front ++ [n + 1], false⟩)
  | bracket {opening closing low high lower upper} : opening ∈ ['[', '('] → closing ∈ [']', ')'] →
      t = opening :: (low ++ ',' :: high) ++ [closing] → ',' ∉ low →
        Side signs (opening = '[') low lower →
      Side signs (closing = ']') high upper → (lower.isSome || upper.isSome) = true →
        Ranged signs t lower upper

def latestWords : List (String × Selection) :=
  [("latest.release", latestRelease), ("latest.integration", latestIntegration),
    ("latest.patch", latestPatch),
    ("latest.minor", latestMinor)]

/-- The texts of selectors, and what they select. A version as it is must not be meant for anything
else. -/
inductive Spells (signs : Bool) (t : List Char) : Selection → Prop
  | range {lower upper} : Ranged signs t lower upper → Spells signs t (range lower upper)
  | latest {word s} : (word, s) ∈ latestWords → t = word.toList → Spells signs t s
  | exact : (∀ lower upper, ¬ Ranged signs t lower upper) → ¬ "latest.".toList <+: t →
      (∀ stem, ∀ mark ∈ wildcards, t ≠ stem ++ ['.', mark]) →
        (∀ low high, ¬ Hyphenated signs t low high) →
      (∃ c rest, t = c :: rest ∧ c.isAlphanum = true) →
      (∀ c ∈ t, c.isAlphanum = true ∨ c ∈ ['.', '_', '+', '-']) →
        Spells signs t (exact (String.ofList t))

theorem isExact_iff {t : List Char} : isExact t = true ↔
    (∃ c rest, t = c :: rest ∧ c.isAlphanum = true) ∧ ∀ c ∈ t, c.isAlphanum = true ∨
      c ∈ ['.', '_', '+', '-'] := by
  cases t with
  | nil => simp [isExact]
  | cons c rest =>
    rw [List.forall_mem_cons]
    simp only [isExact, Bool.and_eq_true, List.all_eq_true, Bool.or_eq_true, decide_eq_true_eq,
      List.mem_cons, List.not_mem_nil, or_false, List.cons.injEq, or_assoc]
    constructor
    · rintro ⟨hc, hrest⟩
      exact ⟨⟨c, rest, ⟨rfl, rfl⟩, hc⟩, Or.inl hc, hrest⟩
    · rintro ⟨⟨_, _, ⟨rfl, rfl⟩, hc⟩, -, hrest⟩
      exact ⟨hc, hrest⟩

theorem spells_of_rangeUpTo {signs : Bool} {t : List Char} {s : Selection} (f : Shorthand signs)
    (ht : t = f.text) (h : rangeUpTo f.lower f.limit = .ok s) : Spells signs t s := by
  obtain ⟨front, n, hlimit⟩ : ∃ front n, f.limit = front ++ [n] :=
    ⟨_, _, (List.dropLast_concat_getLast f.limit_ne_nil).symm⟩
  rw [hlimit, rangeUpTo_append] at h
  split_ifs at h with hbound
  rw [← Except.ok.inj h]
  exact .range (.shorthand f ht hlimit hbound)

theorem parse_latestWords : ∀ entry ∈ latestWords, parse entry.1.toList = .ok entry.2 := by
  decide +kernel

theorem parse_unknownLatest {rest : List Char}
    (h : ∀ entry ∈ latestWords, "latest.".toList ++ rest ≠ entry.1.toList) :
    parse ("latest.".toList ++ rest) = .error .unknownLatest := by
  have hprefix : "latest.".toList.isPrefixOf ("latest.".toList ++ rest) = true := by
    rw [List.isPrefixOf_iff_prefix]
    exact List.prefix_append _ _
  simp only [latestWords, List.forall_mem_cons] at h
  rw [parse, if_neg (by simp), if_neg h.1, if_neg h.2.1, if_neg h.2.2.1, if_neg h.2.2.2.1,
    if_neg (by simp), if_pos hprefix]

theorem parse_unclosed {opening : Char} (hopening : opening ∈ ['[', '(']) {rest : List Char}
    (hclosing : ∀ inner, ∀ closing ∈ [']', ')'], rest ≠ inner ++ [closing]) :
    parse (opening :: rest) = .error .unclosedRange := by
  obtain ⟨last, hlast, hopen⟩ : ∃ last, (opening :: rest).getLast? = some last ∧
    last ∉ [']', ')'] := by
    rcases List.eq_nil_or_concat rest with rfl | ⟨inner, last, rfl⟩
    · have hdisjoint : ∀ c ∈ ['[', '('], c ∉ [']', ')'] := by simp
      exact ⟨opening, rfl, hdisjoint opening hopening⟩
    · refine ⟨last, ?_, fun hmem => hclosing inner last hmem List.concat_eq_append⟩
      rw [List.concat_eq_append, ← List.cons_append, List.getLast?_concat]
  simp only [List.mem_cons, List.not_mem_nil, or_false, not_or] at hopening hopen
  rcases hopening with rfl | rfl <;> simp [parse, hlast, hopen]

/-- Where the first characters of a text lead. -/
theorem text_cases (t : List Char) :
    t = [] ∨ (∃ mark ∈ wildcards, t = [mark]) ∨ (∃ rest, t = "latest.".toList ++ rest) ∨
      (∃ opening ∈ ['[', '('], ∃ rest, t = opening :: rest) ∨ (∃ rest, t = '~' :: rest) ∨
      (∃ rest, t = '^' :: rest) ∨ IsUnmarked t := by
  by_cases hlatest : "latest.".toList <+: t
  · obtain ⟨rest, rfl⟩ := hlatest
    exact Or.inr (Or.inr (Or.inl ⟨rest, rfl⟩))
  by_cases hwildcard : ∃ mark ∈ wildcards, t = [mark]
  · exact Or.inr (Or.inl hwildcard)
  cases t with
  | nil => exact Or.inl rfl
  | cons c rest =>
    by_cases hc : c ∈ leadingMarks
    · simp only [leadingMarks, List.mem_cons, List.not_mem_nil, or_false] at hc
      rcases hc with rfl | rfl | rfl | rfl <;> simp
    · push Not at hwildcard
      simp only [IsUnmarked.mk hlatest hwildcard ⟨c, rest, rfl, hc⟩, or_true]

theorem parse_of_ranged {t : List Char} {lower upper : Option Bound}
    (h : Ranged true t lower upper) :
    parse t = .ok (range lower upper) := by
  cases h with
  | anything hmark ht =>
    have hparse : ∀ mark ∈ wildcards, parse [mark] = .ok (range none none) := by
      simp only [wildcards, List.forall_mem_cons]
      exact ⟨by decide +kernel, by decide +kernel, by decide +kernel, List.forall_mem_nil _⟩
    rw [ht, hparse _ hmark]
  | shorthand f ht hlimit hbound =>
    rw [ht, parse_shorthand, hlimit, rangeUpTo_append, if_pos hbound]
  | bracket hopening hclosing ht hcomma hlower hupper hsome =>
    rw [ht, parse_bracket hopening hclosing]
    exact bracketRange_eq_ok.mpr ⟨_, _, _, _, rfl, hcomma, hlower, hupper, hsome, rfl⟩

theorem spells_of_isUnmarked {t : List Char} {s : Selection} (ht : Text.trimChars t = t)
    (hunmarked : IsUnmarked t) (h : parse t = .ok s) : Spells true t s := by
  have hparse := h
  rw [parse_of_isUnmarked hunmarked] at hparse
  cases hstem : wildcardStem? t with
  | some stem =>
    obtain ⟨mark, hmark, htext⟩ := wildcardStem?_eq_some.mp hstem
    cases hnumbers : numbers? stem with
    | none => simp [hstem, hnumbers] at hparse
    | some numbers =>
      simp only [hstem, hnumbers] at hparse
      let p : Row true := ⟨stem, numbers, numbers?_eq_some.mp hnumbers⟩
      exact spells_of_rangeUpTo (.wildcard p mark hmark) htext hparse
  | none =>
    cases hhyphen : hyphenRange? t with
    | some bounds =>
      obtain ⟨p, q, before, after, htext, hlow, hhigh, hbefore, hafter⟩ :=
        (hyphenRange?_eq_some ht).mp hhyphen
      simp only [hstem, hhyphen, ← hlow, ← hhigh] at hparse
      exact spells_of_rangeUpTo (.hyphen p q before after hbefore hafter) htext hparse
    | none =>
      simp only [hstem, hhyphen] at hparse
      split_ifs at hparse with hexact
      obtain ⟨hfirst, hall⟩ := isExact_iff.mp hexact
      rw [← Except.ok.inj hparse] at h ⊢
      refine .exact ?_ hunmarked.latest ?_ ?_ hfirst hall
      · intro lower upper hranged
        rw [parse_of_ranged hranged] at h
        cases h
      · intro stem mark hmark htext
        rw [wildcardStem?_eq_some.mpr ⟨mark, hmark, htext⟩] at hstem
        cases hstem
      · intro low high hrange
        rw [(hyphenRange?_eq_some ht).mpr hrange] at hhyphen
        cases hhyphen

theorem spells_of_parse {t : List Char} {s : Selection} (ht : Text.trimChars t = t)
    (h : parse t = .ok s) :
    Spells true t s := by
  rcases text_cases t with rfl | ⟨mark, hmark, rfl⟩ | ⟨rest, rfl⟩ | ⟨opening, hopening, rest,
    rfl⟩ | ⟨rest, rfl⟩ |
    ⟨rest, rfl⟩ | hunmarked
  · cases h
  · have hranged : Ranged true [mark] none none := .anything hmark rfl
    rw [← Except.ok.inj ((parse_of_ranged hranged).symm.trans h)]
    exact .range hranged
  · by_cases hword : ∃ entry ∈ latestWords, "latest.".toList ++ rest = entry.1.toList
    · obtain ⟨entry, hmem, hword⟩ := hword
      rw [hword, parse_latestWords entry hmem] at h
      rw [← Except.ok.inj h]
      exact .latest hmem hword
    · push Not at hword
      rw [parse_unknownLatest hword] at h
      cases h
  · by_cases hclosed : ∃ inner, ∃ closing ∈ [']', ')'], rest = inner ++ [closing]
    · obtain ⟨inner, closing, hclosing, rfl⟩ := hclosed
      rw [← List.cons_append, parse_bracket hopening hclosing] at h
      obtain ⟨low, high, lower, upper, rfl, hcomma, hlower, hupper, hsome, rfl⟩ :=
        bracketRange_eq_ok.mp h
      exact .range (.bracket hopening hclosing rfl hcomma hlower hupper hsome)
    · push Not at hclosed
      rw [parse_unclosed hopening hclosed] at h
      cases h
  · cases hnumbers : numbers? rest with
    | none => simp [parse, hnumbers] at h
    | some numbers =>
      let f : Shorthand true := .tilde ⟨rest, numbers, numbers?_eq_some.mp hnumbers⟩
      exact spells_of_rangeUpTo f rfl ((parse_shorthand f).symm.trans h)
  · cases hnumbers : numbers? rest with
    | none => simp [parse, hnumbers] at h
    | some numbers =>
      let f : Shorthand true := .caret ⟨rest, numbers, numbers?_eq_some.mp hnumbers⟩
      exact spells_of_rangeUpTo f rfl ((parse_shorthand f).symm.trans h)
  · exact spells_of_isUnmarked ht hunmarked h

theorem parse_of_spells {t : List Char} {s : Selection} (ht : Text.trimChars t = t)
    (h : Spells true t s) :
    parse t = .ok s := by
  cases h with
  | range h => exact parse_of_ranged h
  | latest hmem hword =>
    rw [hword]
    exact parse_latestWords _ hmem
  | exact hrange hlatest hwildcard hhyphen hfirst hall =>
    have hunmarked : IsUnmarked t := by
      refine ⟨hlatest, fun mark hmark htext => hrange none none (.anything hmark htext), ?_⟩
      obtain ⟨c, rest, htext, hc⟩ := hfirst
      refine ⟨c, rest, htext, fun hmem => ?_⟩
      rw [(leadingMarks_symbol c hmem).2.2] at hc
      cases hc
    have hstem : wildcardStem? t = none := by
      rw [Option.eq_none_iff_forall_ne_some]
      intro stem hstem
      obtain ⟨mark, hmark, htext⟩ := wildcardStem?_eq_some.mp hstem
      exact hwildcard stem mark hmark htext
    have hnone : hyphenRange? t = none := by
      rw [Option.eq_none_iff_forall_ne_some]
      rintro ⟨low, high⟩ hsome
      exact hhyphen low high ((hyphenRange?_eq_some ht).mp hsome)
    simp only [parse_of_isUnmarked hunmarked, hstem, hnone, isExact_iff.mpr ⟨hfirst, hall⟩, if_true]

section Signs

variable {signs signs' : Bool} {t : List Char}

theorem Shorthand.exists_congr (f : Shorthand signs) (h : '+' ∉ f.text) :
    ∃ f' : Shorthand signs', f'.text = f.text ∧ f'.lower = f.lower ∧ f'.limit = f.limit := by
  cases f with
  | wildcard p mark hmark =>
    have hplus : '+' ∉ p.text := fun hmem => h (List.mem_append_left _ hmem)
    exact ⟨.wildcard (p.recast hplus) mark hmark, rfl, rfl, rfl⟩
  | tilde p =>
    have hplus : '+' ∉ p.text := fun hmem => h (List.mem_cons_of_mem _ hmem)
    exact ⟨.tilde (p.recast hplus), rfl, rfl, rfl⟩
  | caret p =>
    have hplus : '+' ∉ p.text := fun hmem => h (List.mem_cons_of_mem _ hmem)
    exact ⟨.caret (p.recast hplus), rfl, rfl, rfl⟩
  | hyphen p q before after hbefore hafter =>
    simp only [text, List.mem_append, List.mem_cons, not_or] at h
    exact ⟨.hyphen (p.recast h.1.1) (q.recast h.2.2.2) before after hbefore hafter, rfl, rfl, rfl⟩

theorem Side.congr_signs {inclusive : Bool} {side : Option Bound} (h : Side signs inclusive t side)
    (hplus : '+' ∉ t) :
    Side signs' inclusive t side := by
  cases h with
  | unbounded hblank => exact .unbounded hblank
  | bounded p before after ht hbefore hafter =>
    have hrow : '+' ∉ p.text := by
      rw [ht, List.mem_append, List.mem_append, not_or, not_or] at hplus
      exact hplus.1.2
    exact .bounded (p.recast hrow) before after ht hbefore hafter

theorem Ranged.congr_signs {lower upper : Option Bound} (h : Ranged signs t lower upper)
    (hplus : '+' ∉ t) :
    Ranged signs' t lower upper := by
  cases h with
  | anything hmark ht => exact .anything hmark ht
  | shorthand f ht hlimit hbound =>
    obtain ⟨f', htext, hlower, hlimit'⟩ := f.exists_congr (ht ▸ hplus)
    rw [← hlower]
    exact .shorthand f' (ht.trans htext.symm) (hlimit'.trans hlimit) hbound
  | bracket hopening hclosing ht hcomma hlower hupper hsome =>
    rw [ht] at hplus
    simp only [List.mem_append, List.mem_cons, not_or] at hplus
    exact .bracket hopening hclosing ht hcomma (hlower.congr_signs hplus.1.2.1)
      (hupper.congr_signs hplus.1.2.2.2) hsome

theorem Hyphenated.congr_signs {low high : List Nat} (h : Hyphenated signs t low high)
    (hplus : '+' ∉ t) :
    Hyphenated signs' t low high := by
  obtain ⟨p, q, before, after, rfl, hlow, hhigh, hbefore, hafter⟩ := h
  simp only [List.mem_append, List.mem_cons, not_or] at hplus
  exact ⟨p.recast hplus.1.1, q.recast hplus.2.2.2, before, after, rfl, hlow, hhigh, hbefore, hafter⟩

theorem plus_not_mem_of_blank (h : ∀ c ∈ t, Text.isBlank c = true) : '+' ∉ t :=
  fun hmem => absurd (h _ hmem) (by decide)

theorem Hyphenated.plus_not_mem {low high : List Nat} (h : Hyphenated false t low high) :
    '+' ∉ t := by
  obtain ⟨p, q, before, after, rfl, -, -, hbefore, hafter⟩ := h
  simp only [List.mem_append, List.mem_cons, not_or]
  exact ⟨⟨p.isRow.plus_not_mem, plus_not_mem_of_blank hbefore⟩, by decide,
    plus_not_mem_of_blank hafter,
    q.isRow.plus_not_mem⟩

theorem Side.plus_not_mem {inclusive : Bool} {side : Option Bound}
    (h : Side false inclusive t side) : '+' ∉ t := by
  cases h with
  | unbounded hblank => exact plus_not_mem_of_blank hblank
  | bounded p before after ht hbefore hafter =>
    rw [ht, List.mem_append, List.mem_append, not_or, not_or]
    exact ⟨⟨plus_not_mem_of_blank hbefore, p.isRow.plus_not_mem⟩, plus_not_mem_of_blank hafter⟩

/-- A range without signs has no plus sign anywhere. -/
theorem Ranged.plus_not_mem {lower upper : Option Bound} (h : Ranged false t lower upper) :
    '+' ∉ t := by
  have hmarks : ∀ mark ∈ wildcards, '+' ≠ mark :=
    fun mark hmark => (wildcards_symbol mark hmark).2.1.symm
  cases h with
  | anything hmark ht => simp [ht, hmarks _ hmark]
  | shorthand f ht =>
    rw [ht]
    cases f with
    | wildcard p mark hmark => simp [Shorthand.text, p.isRow.plus_not_mem, hmarks mark hmark]
    | tilde p => simp [Shorthand.text, p.isRow.plus_not_mem]
    | caret p => simp [Shorthand.text, p.isRow.plus_not_mem]
    | hyphen p q before after hbefore hafter =>
      exact Hyphenated.plus_not_mem ⟨p, q, before, after, rfl, rfl, rfl, hbefore, hafter⟩
  | bracket hopening hclosing ht hcomma hlower hupper hsome =>
    have hopens : ∀ c ∈ ['[', '('], '+' ≠ c := by simp
    have hcloses : ∀ c ∈ [']', ')'], '+' ≠ c := by simp
    simp [ht, hlower.plus_not_mem, hupper.plus_not_mem, hopens _ hopening, hcloses _ hclosing]

theorem spells_congr {s : Selection}
    (hranged : ∀ lower upper, Ranged signs t lower upper ↔ Ranged signs' t lower upper)
    (hhyphen : ∀ low high, Hyphenated signs t low high ↔ Hyphenated signs' t low high)
    (h : Spells signs t s) :
    Spells signs' t s := by
  cases h with
  | range h => exact .range ((hranged _ _).mp h)
  | latest hmem hword => exact .latest hmem hword
  | exact hrange hlatest hwildcard hnone hfirst hall =>
    refine .exact (fun lower upper h => ?_) hlatest hwildcard (fun low high h => ?_) hfirst hall
    · exact hrange lower upper ((hranged lower upper).mpr h)
    · exact hnone low high ((hhyphen low high).mpr h)

/-- Signs matter only in texts with a plus sign that are read as ranges. -/
theorem spells_true_iff_false (h : '+' ∈ t →
      (∀ lower upper, ¬ Ranged true t lower upper) ∧ ∀ low high, ¬ Hyphenated true t low high)
        (s : Selection) :
    Spells true t s ↔ Spells false t s := by
  have hranged : ∀ lower upper, Ranged true t lower upper ↔ Ranged false t lower upper := by
    intro lower upper
    constructor
    · intro hrange
      exact hrange.congr_signs fun hplus => (h hplus).1 lower upper hrange
    · exact fun hrange => hrange.congr_signs hrange.plus_not_mem
  have hhyphen : ∀ low high, Hyphenated true t low high ↔ Hyphenated false t low high := by
    intro low high
    constructor
    · intro hrange
      exact hrange.congr_signs fun hplus => (h hplus).2 low high hrange
    · exact fun hrange => hrange.congr_signs hrange.plus_not_mem
  constructor
  · exact spells_congr hranged hhyphen
  · exact spells_congr (fun lower upper => (hranged lower upper).symm) fun low high =>
      (hhyphen low high).symm

end Signs

end Selection

namespace VersionSelector

open Selection

theorem parse_none (text : String) : parse text none =
    match Selection.parse (Text.trimChars text.toList) with
    | .ok selection => .ok ⟨Text.trim text, selection, none⟩
    | .error fault => .error (.invalidVersionSelector (Text.trim text) fault) := by
  cases hparse : Selection.parse (Text.trimChars text.toList) with
  | ok selection => simp [parse, hparse, bind, Except.bind, Text.trim]
  | error fault => simp [parse, hparse, bind, Except.bind, Text.trim]

/-- Exactly the texts of the grammar with signs are read, as what they spell. All others are
refused. The grammar without signs says the same of a text, unless there is a plus sign in it and it
is read as a range. -/
theorem parse_follows_grammar (text : String) :
    (∀ s, parse text none = .ok s ↔
        s.text = Text.trim text ∧ s.pattern = none ∧
          Spells true (Text.trim text).toList s.selection) ∧
      ((∃ fault, parse text none = .error (.invalidVersionSelector (Text.trim text) fault)) ↔
        ∀ s, ¬ Spells true (Text.trim text).toList s) ∧
      (('+' ∈ (Text.trim text).toList →
        (∀ lower upper, ¬ Ranged true (Text.trim text).toList lower upper) ∧
          ∀ low high, ¬ Hyphenated true (Text.trim text).toList low high) →
        ∀ s, Spells true (Text.trim text).toList s ↔ Spells false (Text.trim text).toList s) := by
  have htrim : Text.trimChars (Text.trim text).toList = (Text.trim text).toList := by
    rw [Text.trim, String.toList_ofList, Text.trimChars_trimChars]
  have hparse : parse text none =
      match Selection.parse (Text.trim text).toList with
      | .ok selection => .ok ⟨Text.trim text, selection, none⟩
      | .error fault => .error (.invalidVersionSelector (Text.trim text) fault) := by
    rw [parse_none, Text.trim, String.toList_ofList]
  have hspells : ∀ s, Selection.parse (Text.trim text).toList = .ok s ↔
      Spells true (Text.trim text).toList s :=
    fun s => ⟨spells_of_parse htrim, parse_of_spells htrim⟩
  refine ⟨fun s => ?_, ?_, spells_true_iff_false⟩
  · rw [hparse, ← hspells]
    rcases s with ⟨shown, selection, pattern⟩
    cases hselection : Selection.parse (Text.trim text).toList with
    | ok found => simp [eq_comm, and_comm, and_assoc]
    | error fault => simp
  · rw [hparse]
    simp only [← hspells]
    cases hselection : Selection.parse (Text.trim text).toList with
    | ok found => simp
    | error fault => simp

theorem parse_follows_grammar_with_build_number :
    let t := (Text.trim " 1.0+7 ").toList
    ('+' ∈ t ∧ (∀ lower upper, ¬ Ranged true t lower upper) ∧ ∀ low high,
      ¬ Hyphenated true t low high) ∧
      Spells false t (.exact "1.0+7") ∧ parse " 1.0+7 " none = .ok ⟨"1.0+7",
        .exact "1.0+7", none⟩ := by
  intro t
  have htrim : Text.trimChars t = t := by decide +kernel
  have hexact : Selection.parse t = .ok (.exact "1.0+7") := by decide +kernel
  have hrange : ∀ lower upper, ¬ Ranged true t lower upper := by
    intro lower upper hrange
    rw [parse_of_ranged hrange] at hexact
    cases hexact
  have hhyphen : ∀ low high, ¬ Hyphenated true t low high := by
    have hnone : hyphenRange? t = none := by decide +kernel
    intro low high hhyphen
    rw [(hyphenRange?_eq_some htrim).mpr hhyphen] at hnone
    cases hnone
  obtain ⟨hok, -, hsigns⟩ := parse_follows_grammar " 1.0+7 "
  have hspells : Spells true t (.exact "1.0+7") := spells_of_parse htrim hexact
  refine ⟨⟨by decide +kernel, hrange, hhyphen⟩,
    (hsigns (fun _ => ⟨hrange, hhyphen⟩) _).mp hspells, ?_⟩
  exact (hok _).mpr ⟨by decide +kernel, rfl, hspells⟩

/-- With signs a text is a range that without them is a version as it is, or nothing at all. -/
theorem parse_reads_signed_numbers :
    parse "1-+2" none = .ok ⟨"1-+2", .range (some ⟨[1], true⟩) (some ⟨[3], false⟩), none⟩ ∧
      Spells false "1-+2".toList (.exact "1-+2") ∧
      parse "~+1" none = .ok ⟨"~+1", .range (some ⟨[1], true⟩) (some ⟨[2], false⟩), none⟩ ∧
      ∀ s, ¬ Spells false "~+1".toList s := by
  refine ⟨?_, ?_, ?_, ?_⟩
  · have hrange : Selection.parse (Text.trimChars "1-+2".toList) =
        .ok (.range (some ⟨[1], true⟩) (some ⟨[3], false⟩)) := by decide +kernel
    have htrim : Text.trim "1-+2" = "1-+2" := by decide +kernel
    rw [parse_none, hrange, htrim]
  · have hspells : Spells false "1-+2".toList (.exact (String.ofList "1-+2".toList)) := by
      have hexact : isExact "1-+2".toList = true := by decide +kernel
      obtain ⟨hfirst, hall⟩ := isExact_iff.mp hexact
      refine .exact (fun lower upper h => ?_) (by decide +kernel) ?_
        (fun low high h => ?_) hfirst hall
      · exact h.plus_not_mem (by decide +kernel)
      · intro stem mark hmark heq
        have hstem : wildcardStem? "1-+2".toList = none := by decide +kernel
        rw [wildcardStem?_eq_some.mpr ⟨mark, hmark, heq⟩] at hstem
        cases hstem
      · exact h.plus_not_mem (by decide +kernel)
    rwa [String.ofList_toList] at hspells
  · have hrange : Selection.parse (Text.trimChars "~+1".toList) =
        .ok (.range (some ⟨[1], true⟩) (some ⟨[2], false⟩)) := by decide +kernel
    have htrim : Text.trim "~+1" = "~+1" := by decide +kernel
    rw [parse_none, hrange, htrim]
  · intro s h
    cases h with
    | range h => exact h.plus_not_mem (by decide +kernel)
    | latest hmem hword =>
      have hwords : ∀ entry ∈ latestWords, "~+1".toList ≠ entry.1.toList := by decide +kernel
      exact hwords _ hmem hword
    | exact _ _ _ _ hfirst _ =>
      obtain ⟨c, rest, hcons, hc⟩ := hfirst
      have hhead : "~+1".toList = '~' :: "+1".toList := by decide +kernel
      rw [hhead] at hcons
      rw [← (List.cons.inj hcons).1] at hc
      exact absurd hc (by decide)

end VersionSelector

end BuildScript
