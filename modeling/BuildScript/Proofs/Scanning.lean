import BuildScript.Lexeme.Scan
import BuildScript.Proofs.Cutting
import BuildScript.Proofs.Grammar

/-!
# What scanning keeps

The stretches that a script is cut into make up the script, and so do its lexemes with the trivia
between and behind them. A row of stretches is a cut of its own text if each of them is what the
lexical rules take from there on; there is one such row for each text.
-/

namespace BuildScript

namespace Lexeme

def flat (row : List Stretch) : List Char := row.flatMap Stretch.chars

@[simp] theorem flat_nil : flat [] = [] := rfl

@[simp] theorem flat_cons (s : Stretch) (row : List Stretch) :
    flat (s :: row) = s.chars ++ flat row := rfl

@[simp] theorem flat_append (row more : List Stretch) :
    flat (row ++ more) = flat row ++ flat more :=
  List.flatMap_append

/-- Each stretch is what the lexical rules take from the text that starts with it. -/
def Cut : List Stretch → Prop
  | [] => True
  | s :: row =>
    (∃ c body, s.chars = c :: body ∧ munch c (body ++ flat row) = (s.kind, body.length)) ∧ Cut row

theorem quotedRest_le (quote : Char) (text : List Char) :
    (quotedRest quote text).1 ≤ text.length := by
  fun_induction quotedRest quote text <;> simp_all

theorem commentRest_le (text : List Char) : (commentRest text).1 ≤ text.length := by
  fun_induction commentRest text <;> simp_all

theorem fractionLength_le (text : List Char) : fractionLength text ≤ text.length := by
  unfold fractionLength
  split
  · rename_i rest
    have := length_takeWhile_le Char.isDigit rest
    simp only [List.length_cons]
    split <;> omega
  · omega

def signLength : List Char → Nat
  | '+' :: _ | '-' :: _ => 1
  | _ => 0

theorem exponentLength_cons (c : Char) (rest : List Char) :
    exponentLength (c :: rest) =
      if c = 'e' || c = 'E' then
        if ((rest.drop (signLength rest)).takeWhile Char.isDigit).length = 0 then 0
        else 1 + signLength rest + ((rest.drop (signLength rest)).takeWhile Char.isDigit).length
      else 0 := rfl

theorem signLength_le (text : List Char) : signLength text ≤ text.length := by
  unfold signLength
  split <;> simp

theorem exponentLength_le (text : List Char) : exponentLength text ≤ text.length := by
  cases text with
  | nil => simp [exponentLength]
  | cons c rest =>
    have hsign := signLength_le rest
    have hdigits := length_takeWhile_le Char.isDigit (rest.drop (signLength rest))
    rw [List.length_drop] at hdigits
    rw [exponentLength_cons, List.length_cons]
    split_ifs <;> omega

theorem unitLength_le (text : List Char) : unitLength text ≤ text.length := by
  unfold unitLength
  split
  · simp only [List.length_cons]
    split <;> omega
  · simp

theorem numberRest_le (text : List Char) : numberRest text ≤ text.length := by
  unfold numberRest
  have hwhole := length_takeWhile_le (fun c => c.isDigit || c = '_') text
  simp only
  generalize (text.takeWhile fun c => c.isDigit || c = '_').length = whole at hwhole ⊢
  have hfraction := fractionLength_le (text.drop whole)
  generalize fractionLength (text.drop whole) = fraction at hfraction ⊢
  have hexponent := exponentLength_le (text.drop (whole + fraction))
  generalize exponentLength (text.drop (whole + fraction)) = exponent at hexponent ⊢
  have hletter := unitLength_le (text.drop (whole + fraction + exponent))
  simp only [List.length_drop] at hfraction hexponent hletter
  omega

/-- The lexical rules: what a stretch that starts with `c` is, and how much of `text` it takes. -/
inductive Rule (c : Char) (text : List Char) : Option LexemeKind → Nat → Prop
  | space (is : isSpace c = true) : Rule c text none (text.takeWhile isSpace).length
  | line {rest : List Char} (is : c = '/') (behind : text = '/' :: rest) :
      Rule c text none (1 + (rest.takeWhile fun d => d ≠ '\n').length)
  | comment {rest : List Char} {n : Nat} (is : c = '/') (behind : text = '*' :: rest)
      (closed : commentRest rest = (n, true)) : Rule c text none (1 + n)
  | word (is : isWordStart c = true) : Rule c text (some .word) (text.takeWhile isWordPart).length
  | quoted {n : Nat} (is : c = '"' ∨ c = '\'') (closed : quotedRest c text = (n, true)) :
      Rule c text (some .quoted) n
  | number (is : c.isDigit = true) : Rule c text (some .number) (numberRest text)
  | mark {kind : LexemeKind} (is : punctuation? c = some kind) : Rule c text (some kind) 0
  /-- Where no rule applies. -/
  | other {n : Nat} (le : n ≤ text.length) : Rule c text (some .other) n

theorem rule_munch (c : Char) (text : List Char) :
    Rule c text (munch c text).1 (munch c text).2 := by
  unfold munch
  split_ifs with hspace hslash hword hquote hdigit
  · exact .space hspace
  · split
    · exact .line hslash rfl
    · rename_i body
      have hle := commentRest_le body
      split
      · rename_i n hclosed
        exact .comment hslash rfl hclosed
      · rename_i n hopen
        rw [hopen] at hle
        exact .other (by simp only [List.length_cons] at hle ⊢; omega)
    · exact .other (by simp)
  · exact .word hword
  · have hle := quotedRest_le c text
    split
    · rename_i n hclosed
      exact .quoted (by simpa using hquote) hclosed
    · rename_i n hopen
      rw [hopen] at hle
      exact .other hle
  · exact .number hdigit
  · cases hmark : punctuation? c with
    | none => exact .other (by simp)
    | some kind => exact .mark hmark

theorem isSpace_eq {c : Char} (h : isSpace c = true) :
    c = ' ' ∨ c = '\t' ∨ c = '\r' ∨ c = '\n' ∨ c = '\x0c' := by
  simpa [isSpace, or_assoc] using h

theorem isAlpha_of_isDigit {c : Char} (h : c.isDigit = true) : c.isAlpha = false := by
  rw [Bool.eq_false_iff]
  intro hletter
  have hdigit : c.toNat ≤ 57 := of_decide_eq_true (Bool.and_eq_true_iff.mp h).2
  obtain hupper | hlower := Bool.or_eq_true_iff.mp hletter
  · have hupper : 65 ≤ c.toNat := (of_decide_eq_true hupper).1
    omega
  · have hlower : 97 ≤ c.toNat := of_decide_eq_true (Bool.and_eq_true_iff.mp hlower).1
    omega

theorem punctuation?_mem {c : Char} {kind : LexemeKind} (h : punctuation? c = some kind) :
    c ∈ ['\x7b', '\x7d', '(', ')', '[', ']', ',', '.', ':', ';', '='] := by
  fun_cases punctuation? c <;> simp_all [punctuation?]

/-- The first characters of the rules are different, so a rule decides what is taken. -/
theorem munch_of_rule {c : Char} {text : List Char} {kind : Option LexemeKind} {n : Nat}
    (h : Rule c text kind n) (hkind : kind ≠ some .other) : munch c text = (kind, n) := by
  have hspace (h : isSpace c = true) : isWordStart c = false := by
    obtain rfl | rfl | rfl | rfl | rfl := isSpace_eq h <;> rfl
  cases h with
  | space is => simp [munch, is]
  | line is behind =>
    subst is behind
    rfl
  | comment is behind closed =>
    subst is behind
    simp [munch, isSpace, closed]
  | word is =>
    have hno : isSpace c = false := by
      by_contra hs
      rw [hspace (by simpa using hs)] at is
      cases is
    have hslash : c ≠ '/' := by
      rintro rfl
      cases is
    simp [munch, hno, hslash, is]
  | quoted is closed => obtain rfl | rfl := is <;> simp [munch, isSpace, isWordStart, closed]
  | number is =>
    have hno : isSpace c = false := by
      by_contra hs
      obtain rfl | rfl | rfl | rfl | rfl := isSpace_eq (by simpa using hs) <;> cases is
    have hslash : c ≠ '/' := by
      rintro rfl
      cases is
    have hquote : ¬(c = '"' ∨ c = '\'') := by
      rintro (rfl | rfl) <;> cases is
    have hword : isWordStart c = false := by
      by_contra hw
      simp only [isWordStart, Bool.not_eq_false, Bool.or_eq_true, decide_eq_true_eq] at hw
      obtain (hw | rfl) | rfl := hw
      · rw [isAlpha_of_isDigit is] at hw
        cases hw
      · cases is
      · cases is
    simp [munch, hno, hslash, hquote, hword, is]
  | mark is =>
    have hmem := punctuation?_mem is
    simp only [List.mem_cons, List.not_mem_nil, or_false] at hmem
    obtain rfl | rfl | rfl | rfl | rfl | rfl | rfl | rfl | rfl | rfl | rfl := hmem <;>
      simp [munch, is, isSpace, isWordStart]
  | other => exact absurd rfl hkind

/-- A stretch takes no more than there is. -/
theorem munch_le (c : Char) (text : List Char) : (munch c text).2 ≤ text.length := by
  have hrule := rule_munch c text
  generalize (munch c text).1 = kind, (munch c text).2 = n at hrule ⊢
  cases hrule with
  | space is => exact length_takeWhile_le _ _
  | @line rest is behind =>
    have := length_takeWhile_le (fun d => d ≠ '\n') rest
    rw [behind, List.length_cons]
    omega
  | @comment rest n is behind closed =>
    have := commentRest_le rest
    rw [closed] at this
    rw [behind, List.length_cons]
    simp only at this
    omega
  | word is => exact length_takeWhile_le _ _
  | quoted is closed =>
    have := quotedRest_le c text
    rwa [closed] at this
  | number is => exact numberRest_le text
  | mark is => simp
  | other le => exact le

/-- With fuel for every character, the stretches of a text make it up and are a cut of it. -/
theorem cut_stretches {fuel : Nat} {text : List Char} (h : text.length ≤ fuel) :
    flat (stretches fuel text) = text ∧ Cut (stretches fuel text) := by
  induction fuel generalizing text with
  | zero =>
    have hnil : text = [] := List.eq_nil_of_length_eq_zero (by omega)
    subst hnil
    exact ⟨rfl, trivial⟩
  | succ fuel ih =>
    cases text with
    | nil => exact ⟨rfl, trivial⟩
    | cons c rest =>
      simp only [stretches]
      have hle := munch_le c rest
      obtain ⟨hflat, hcut⟩ := @ih (rest.drop (munch c rest).2) (by
        rw [List.length_cons] at h
        rw [List.length_drop]
        omega)
      refine ⟨by simp [hflat], ⟨c, rest.take (munch c rest).2, rfl, ?_⟩, hcut⟩
      rw [hflat, List.take_append_drop, List.length_take, Nat.min_eq_left hle]

/-- A row that is a cut of its text is what the text is cut into. -/
theorem stretches_flat {fuel : Nat} {row : List Stretch} (hcut : Cut row)
    (h : (flat row).length ≤ fuel) :
    stretches fuel (flat row) = row := by
  induction row generalizing fuel with
  | nil => cases fuel <;> rfl
  | cons s row ih =>
    obtain ⟨⟨c, body, hchars, hmunch⟩, hcut⟩ := hcut
    rw [flat_cons, hchars] at h ⊢
    cases fuel with
    | zero => simp at h
    | succ fuel =>
      have hlen : (flat row).length ≤ fuel := by
        simp only [List.cons_append, List.length_cons, List.length_append] at h
        omega
      simp only [List.cons_append, stretches, hmunch, List.take_left, List.drop_left, ih hcut hlen]
      rw [← hchars]

theorem Cut.ne_nil {row : List Stretch} (hcut : Cut row) : ∀ s ∈ row, s.chars ≠ [] := by
  induction row with
  | nil => simp
  | cons s row ih =>
    obtain ⟨⟨c, body, hchars, -⟩, hcut⟩ := hcut
    exact List.forall_mem_cons.mpr ⟨by simp [hchars], ih hcut⟩

def joinOther : List Stretch → List Stretch
  | [] => []
  | ⟨kind, chars⟩ :: rest =>
    match kind, joinOther rest with
    | some .other, ⟨some .other, more⟩ :: joined => ⟨some .other, chars ++ more⟩ :: joined
    | _, joined => ⟨kind, chars⟩ :: joined

/-- The lexemes of a row of stretches, and the trivia behind the last. `start` is the position of
the row and `lead` the trivia just in front of it. -/
def ofStretches (start : Nat) (lead : List Char) : List Stretch → List Lexeme × List Char
  | [] => ([], lead)
  | ⟨none, chars⟩ :: rest => ofStretches (start + chars.length) (lead ++ chars) rest
  | ⟨some kind, chars⟩ :: rest =>
    let (lexemes, tail) := ofStretches (start + chars.length) [] rest
    (⟨kind, .ofList lead, .ofList chars, start, start + chars.length⟩ :: lexemes, tail)

theorem joinOther_cons {kind : Option LexemeKind} (h : kind ≠ some .other) (chars : List Char)
    (row : List Stretch) : joinOther (⟨kind, chars⟩ :: row) = ⟨kind, chars⟩ :: joinOther row := by
  rw [joinOther]
  exact fun _ _ hkind _ => h hkind

theorem joinOther_other (chars : List Char) (row : List Stretch) :
    joinOther (⟨some .other, chars⟩ :: row) =
      match joinOther row with
      | ⟨some .other, more⟩ :: joined => ⟨some .other, chars ++ more⟩ :: joined
      | joined => ⟨some .other, chars⟩ :: joined := by
  conv_lhs => unfold joinOther
  rcases joinOther row with _ | ⟨⟨_ | ⟨⟨⟩⟩, more⟩, joined⟩ <;> rfl

theorem joinOther_other_cons {kind : Option LexemeKind} (h : kind ≠ some .other)
    (chars more : List Char) (row : List Stretch) :
    joinOther (⟨some .other, chars⟩ :: ⟨kind, more⟩ :: row) =
      ⟨some .other, chars⟩ :: ⟨kind, more⟩ :: joinOther row := by
  rw [joinOther_other, joinOther_cons h]
  split
  · rename_i hrow
    exact absurd (Stretch.mk.inj (List.cons.inj hrow).1).1 h
  · rfl

theorem joinOther_other_other (chars more : List Char) (row : List Stretch) :
    joinOther (⟨some .other, chars⟩ :: ⟨some .other, more⟩ :: row) =
      joinOther (⟨some .other, chars ++ more⟩ :: row) := by
  rw [joinOther_other, joinOther_other, joinOther_other]
  rcases joinOther row with _ | ⟨⟨_ | ⟨⟨⟩⟩, last⟩, joined⟩ <;> simp

namespace Scanner

variable {script : String} {s : Scanner} {start : Nat} {lead chars more : List Char}
  {row : List Stretch}

attribute [local simp] ofStretches

/-- What there is to read with the trivia `lead` in front of a row whose stretches are joined
beforehand. -/
def joining (s : Scanner) (lead : List Char) (row : List Stretch) : List Lexeme × String :=
  let (lexemes, tail) := ofStretches (s.triviaStart + lead.length) lead (joinOther row)
  (s.lexemes.reverse ++ lexemes, String.ofList tail)

def behind (s : Scanner) (lead : List Char) (kind : LexemeKind) (chars : List Char) : Scanner :=
  let start := s.triviaStart + lead.length
  ⟨⟨kind, .ofList lead, .ofList chars, start, start + chars.length⟩ :: s.lexemes,
    start + chars.length⟩

theorem push_eq (h : script.toList.drop s.triviaStart = lead ++ (chars ++ more))
    (kind : LexemeKind) :
    s.push script kind (s.triviaStart + lead.length) (s.triviaStart + lead.length + chars.length) =
      s.behind lead kind chars := by
  have htext : script.toList.drop (s.triviaStart + lead.length) = chars ++ more := by
    rw [← List.drop_drop, h, List.drop_left]
  rw [push, Text.slice_eq h, Text.slice_eq htext, behind]

theorem drop_behind (h : script.toList.drop s.triviaStart = lead ++ (chars ++ more))
    (kind : LexemeKind) : script.toList.drop (s.behind lead kind chars).triviaStart = more := by
  simp only [behind]
  rw [← List.drop_drop, ← List.drop_drop, h, List.drop_left, List.drop_left]

theorem joining_nil (h : script.toList.drop s.triviaStart = lead) :
    s.joining lead [] = s.finish script := by
  simp [joining, finish, joinOther, Text.slice_length, h]

theorem joining_trivia : s.joining lead (⟨none, chars⟩ :: row) = s.joining (lead ++ chars) row := by
  simp [joining, joinOther_cons, Nat.add_assoc]

theorem joining_lexeme {kind : LexemeKind} (h : kind ≠ .other) :
    s.joining lead (⟨some kind, chars⟩ :: row) = (s.behind lead kind chars).joining [] row := by
  simp [joining, behind, joinOther_cons, h]

theorem joining_other_nil :
    s.joining lead [⟨some .other, chars⟩] = (s.behind lead .other chars).joining [] [] := by
  simp [joining, behind, joinOther]

theorem joining_other_trivia : s.joining lead (⟨some .other, chars⟩ :: ⟨none, more⟩ :: row) =
    (s.behind lead .other chars).joining more row := by
  simp [joining, behind, joinOther_other_cons]

theorem joining_other_lexeme {kind : LexemeKind} (h : kind ≠ .other) :
    s.joining lead (⟨some .other, chars⟩ :: ⟨some kind, more⟩ :: row) =
      ((s.behind lead .other chars).behind [] kind more).joining [] row := by
  simp [joining, behind, joinOther_other_cons, h]

theorem joining_other_other : s.joining lead (⟨some .other, chars⟩ :: ⟨some .other, more⟩ :: row) =
    s.joining lead (⟨some .other, chars ++ more⟩ :: row) := by
  rw [joining, joinOther_other_other, joining]

/-- A lexeme is added, except where the scanner makes its last lexeme longer. -/
theorem take_some {kind : LexemeKind} {stop : Nat}
    (h : kind = .other → s.triviaStart = start → ∀ last ∈ s.lexemes.head?, last.kind ≠ .other) :
    s.take script (some kind) start stop = s.push script kind start stop := by
  rcases s with ⟨_ | ⟨last, before⟩, triviaStart⟩
  · rfl
  · simp only [take]
    refine if_neg ?_
    simp only [Bool.and_eq_true, decide_eq_true_eq]
    rintro ⟨⟨hkind, hstart⟩, hlast⟩
    exact h hkind hstart last rfl hlast

theorem take_push_other (start middle stop : Nat) :
    (s.push script .other start middle).take script (some .other) middle stop =
      s.push script .other start stop := by
  simp [push, take]

/-- The scanner reads a row as if its stretches were joined beforehand: from a state in which the
last lexeme cannot become longer, and from one that has just added a lexeme without a rule. -/
theorem finish_takeAll (hne : ∀ s ∈ row, s.chars ≠ []) :
    (∀ (s : Scanner) (lead : List Char), script.toList.drop s.triviaStart = lead ++ flat row →
      (lead = [] → ∀ last ∈ s.lexemes.head?, last.kind ≠ .other) →
      (takeAll script s (s.triviaStart + lead.length) row).finish script = s.joining lead row) ∧
    ∀ (s : Scanner) (lead chars : List Char),
      script.toList.drop s.triviaStart = lead ++ (chars ++ flat row) →
      (takeAll script (s.behind lead .other chars) (s.triviaStart + lead.length + chars.length)
        row).finish script = s.joining lead (⟨some .other, chars⟩ :: row) := by
  induction row with
  | nil =>
    constructor
    · intro s lead hlead _
      rw [joining_nil (by simpa using hlead), takeAll]
    · intro s lead chars hlead
      have hbehind := drop_behind hlead .other
      rw [flat_nil] at hbehind
      rw [joining_other_nil, joining_nil hbehind, takeAll]
  | cons next row ih =>
    obtain ⟨kind, more⟩ := next
    rw [List.forall_mem_cons] at hne
    obtain ⟨hsettled, hopen⟩ := ih hne.2
    constructor
    · intro s lead hlead hlast
      rw [flat_cons] at hlead
      cases kind with
      | none =>
        rw [joining_trivia, ← hsettled s (lead ++ more) (by rw [hlead, List.append_assoc])
          (fun h => absurd (List.append_eq_nil_iff.mp h).2 hne.1)]
        rw [takeAll, List.length_append, Nat.add_assoc]
        rfl
      | some kind =>
        have htake := @take_some script s (s.triviaStart + lead.length) kind
          (s.triviaStart + lead.length + more.length)
          (fun _ hstart => hlast (List.eq_nil_of_length_eq_zero (by omega)))
        rw [takeAll, htake, push_eq hlead]
        by_cases hkind : kind = .other
        · subst hkind
          exact hopen s lead more hlead
        · rw [joining_lexeme hkind]
          exact hsettled _ [] (drop_behind hlead _) (by simpa [behind] using hkind)
    · intro s lead chars hlead
      have hbehind := drop_behind hlead .other
      rw [flat_cons] at hlead hbehind
      cases kind with
      | none =>
        rw [joining_other_trivia, takeAll]
        exact hsettled _ more hbehind (fun h => absurd h hne.1)
      | some kind =>
        by_cases hkind : kind = .other
        · subst hkind
          rw [takeAll, ← push_eq hlead, take_push_other, joining_other_other,
            Nat.add_assoc _ chars.length,
            ← List.length_append, push_eq (by rw [hlead, List.append_assoc])]
          exact hopen s lead (chars ++ more) (by rw [hlead, List.append_assoc])
        · have hpush := @push_eq script (s.behind lead .other chars) [] more (flat row) hbehind kind
          rw [takeAll, take_some (fun h => absurd h hkind), joining_other_lexeme hkind]
          simp only [List.length_nil, Nat.add_zero] at hpush
          rw [show s.triviaStart + lead.length + chars.length =
            (s.behind lead .other chars).triviaStart from rfl, hpush]
          exact hsettled _ [] (drop_behind (by simpa using hbehind) _)
            (by simpa [behind] using hkind)

end Scanner

def joined (script : String) : List Stretch :=
  joinOther (stretches script.toList.length script.toList)

/-- The loop over the stretches of a script makes the lexemes of the joined stretches. -/
theorem scan_eq (script : String) :
    scan script = ((ofStretches 0 [] (joined script)).1,
      String.ofList (ofStretches 0 [] (joined script)).2) := by
  obtain ⟨hflat, hcut⟩ := @cut_stretches script.toList.length script.toList (Nat.le_refl _)
  have hread :=
    (@Scanner.finish_takeAll script _ hcut.ne_nil).1 ⟨[], 0⟩ [] (by simp [hflat]) (by simp)
  simpa [scan, joined, Scanner.joining, String.length_toList] using hread

@[simp] theorem flat_joinOther (row : List Stretch) : flat (joinOther row) = flat row := by
  fun_induction joinOther row with
  | case1 => rfl
  | case2 chars rest more joined h ih =>
    rw [h] at ih
    simp only [flat_cons] at ih ⊢
    rw [List.append_assoc, ih]
  | case3 kind chars rest hne ih => simp only [flat_cons, ih]

theorem written_ofStretches (start : Nat) (lead : List Char) (row : List Stretch) :
    writtenAll (ofStretches start lead row).1 ++ String.ofList (ofStretches start lead row).2 =
      String.ofList (lead ++ flat row) := by
  fun_induction ofStretches start lead row with
  | case1 start lead => simp
  | case2 start lead chars rest ih => rw [ih, flat_cons, List.append_assoc]
  | case3 start lead kind chars rest lexemes tail h ih =>
    simp only [h] at ih
    simp only [writtenAll_cons, flat_cons]
    rw [String.append_assoc, ih]
    simp [String.ofList_append, String.append_assoc]

/-- The lexemes of a script and the trivia behind them make up the script. -/
theorem written_scan (script : String) :
    writtenAll (scan script).1 ++ (scan script).2 = script := by
  have hflat := (@cut_stretches script.toList.length script.toList (Nat.le_refl _)).1
  rw [scan_eq, written_ofStretches, joined, List.nil_append, flat_joinOther, hflat,
    String.ofList_toList]

def Stretch.Formed (s : Stretch) : Prop :=
  ∀ kind text, s.kind = some kind → kind.mark? = some text → String.ofList s.chars = text

theorem mark?_of_punctuation? {c : Char} {kind : LexemeKind} (h : punctuation? c = some kind) :
    kind.mark? = some (String.ofList [c]) := by
  fun_cases punctuation? c <;> simp_all [punctuation?] <;> (subst_vars; rfl)

/-- Only a mark is taken as one, and it is one character long. -/
theorem munch_mark {c : Char} {text : List Char} {kind : LexemeKind} {written : String}
    (h : (munch c text).1 = some kind) (hmark : kind.mark? = some written) :
    (munch c text).2 = 0 ∧ written = String.ofList [c] := by
  have hrule := rule_munch c text
  rw [h] at hrule
  generalize (munch c text).2 = n at hrule ⊢
  cases hrule with
  | word | quoted | number | other => cases hmark
  | mark is =>
    rw [mark?_of_punctuation? is] at hmark
    exact ⟨rfl, (Option.some.inj hmark).symm⟩

theorem formed_stretches (fuel : Nat) (text : List Char) : ∀ s ∈ stretches fuel text, s.Formed := by
  induction fuel generalizing text with
  | zero => simp [stretches]
  | succ fuel ih =>
    cases text with
    | nil => simp [stretches]
    | cons c rest =>
      simp only [stretches, List.forall_mem_cons]
      refine ⟨?_, ih _⟩
      intro kind written hkind hmark
      obtain ⟨hlen, rfl⟩ := munch_mark hkind hmark
      simp [hlen]

theorem formed_joinOther {row : List Stretch} (h : ∀ s ∈ row, s.Formed) :
    ∀ s ∈ joinOther row, s.Formed := by
  fun_induction joinOther row with
  | case1 => exact h
  | case2 chars rest more joined hjoin ih =>
    rw [List.forall_mem_cons] at h
    have hrest := ih h.2
    rw [hjoin, List.forall_mem_cons] at hrest
    rw [List.forall_mem_cons]
    refine ⟨?_, hrest.2⟩
    intro kind text hkind hmark
    obtain rfl := Option.some.inj hkind
    cases hmark
  | case3 kind chars rest hne ih =>
    rw [List.forall_mem_cons] at h ⊢
    exact ⟨h.1, ih h.2⟩

theorem formed_ofStretches {start : Nat} {lead : List Char} {row : List Stretch}
    (h : ∀ s ∈ row, s.Formed) :
    ∀ l ∈ (ofStretches start lead row).1, l.Formed := by
  fun_induction ofStretches start lead row with
  | case1 => simp
  | case2 start lead chars rest ih => exact ih (List.forall_mem_cons.mp h).2
  | case3 start lead kind chars rest lexemes tail hrest ih =>
    rw [List.forall_mem_cons] at h ⊢
    refine ⟨fun text hmark => h.1 kind text rfl hmark, ?_⟩
    simpa [hrest] using ih h.2

theorem formed_scan (script : String) : ∀ l ∈ (scan script).1, l.Formed := by
  rw [scan_eq]
  exact formed_ofStretches (formed_joinOther (formed_stretches _ _))

end Lexeme

end BuildScript
