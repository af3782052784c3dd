import BuildScript.Proofs.Snippets

/-!
# Scanning an edited text

A stretch depends on what follows it only as far as it could have gone on there. A line break stops
every rule but the one for blanks, so text that starts a new line can be put behind a lexeme or a
comment without changing how the text before it is cut.
-/

namespace BuildScript.Lexeme

variable {c : Char} {front text rest : List Char} {row more : List Stretch}

/-- What a rule takes stays the same if the text behind it is replaced by a line break. -/
def Local (taken : List Char → Nat) : Prop :=
  ∀ front text rest, taken (front ++ text) ≤ front.length →
    taken (front ++ '\n' :: rest) = taken (front ++ text)

theorem local_takeWhile {p : Char → Bool} (hp : p '\n' = false) :
    Local fun text => (text.takeWhile p).length := by
  intro front text rest h
  induction front with
  | nil =>
    simp only [List.nil_append, List.length_nil, Nat.le_zero_eq] at h
    simp [h, hp]
  | cons c front ih =>
    cases hc : p c with
    | true =>
      simp only [List.cons_append, List.takeWhile_cons, hc, if_true, List.length_cons] at h ih ⊢
      rw [ih (by omega)]
    | false => simp [hc]

theorem fractionLength_dot (text : List Char) :
    fractionLength ('.' :: text) =
      if (text.takeWhile Char.isDigit).length = 0 then 0
        else (text.takeWhile Char.isDigit).length + 1 := rfl

theorem fractionLength_of_ne (hc : c ≠ '.') (text : List Char) :
    fractionLength (c :: text) = 0 := by
  unfold fractionLength
  split
  · rename_i heq
    exact absurd (List.cons.inj heq).1 hc
  · rfl

theorem local_fractionLength : Local fractionLength := by
  intro front text rest h
  cases front with
  | nil =>
    simp only [List.nil_append, List.length_nil, Nat.le_zero_eq] at h
    rw [List.nil_append, List.nil_append, h, fractionLength_of_ne (by decide)]
  | cons c front =>
    by_cases hc : c = '.'
    · subst hc
      have hdigits := @local_takeWhile Char.isDigit rfl front text rest
      simp only [List.cons_append, fractionLength_dot, List.length_cons] at h hdigits ⊢
      have hle : ((front ++ text).takeWhile Char.isDigit).length ≤ front.length := by
        split_ifs at h <;> omega
      rw [hdigits hle]
    · rw [List.cons_append, List.cons_append, fractionLength_of_ne hc, fractionLength_of_ne hc]

theorem signLength_le_one (text : List Char) : signLength text ≤ 1 := by
  unfold signLength
  split <;> omega

theorem local_exponentLength : Local exponentLength := by
  intro front text rest h
  cases front with
  | nil =>
    simp only [List.nil_append, List.length_nil, Nat.le_zero_eq] at h
    rw [List.nil_append, List.nil_append, h]
    rfl
  | cons c front =>
    simp only [List.cons_append, exponentLength_cons, List.length_cons] at h ⊢
    by_cases hc : (c = 'e' || c = 'E') = true
    · rw [if_pos hc] at h
      rw [if_pos hc, if_pos hc]
      cases front with
      | nil =>
        -- Nothing of the exponent but its letter is there, so it counts for nothing.
        have hnone : ((text.drop (signLength text)).takeWhile Char.isDigit).length = 0 := by
          simp only [List.nil_append, List.length_nil] at h
          split_ifs at h with hzero
          · exact hzero
          · omega
        have hbreak : ((('\n' :: rest).drop (signLength ('\n' :: rest))).takeWhile
            Char.isDigit).length = 0 := rfl
        rw [List.nil_append, List.nil_append, if_pos hbreak, if_pos hnone]
      | cons d front =>
        have hsign : ∀ t, signLength (d :: front ++ t) = signLength [d] := by
          intro t
          unfold signLength
          split <;> simp_all
        have hle := signLength_le_one [d]
        have hdrop : ∀ t,
            (d :: front ++ t).drop (signLength [d]) = (d :: front).drop (signLength [d]) ++ t := by
          intro t
          rw [List.drop_append_of_le_length]
          simp only [List.length_cons]
          omega
        have hdigits :=
          @local_takeWhile Char.isDigit rfl ((d :: front).drop (signLength [d])) text rest
        simp only [hsign, hdrop, List.length_drop, List.length_cons] at h hdigits ⊢
        rw [hdigits]
        split_ifs at h <;> omega
    · rw [if_neg hc, if_neg hc]

theorem local_unitLength : Local unitLength := by
  intro front text rest h
  cases front with
  | nil =>
    simp only [List.nil_append, List.length_nil, Nat.le_zero_eq] at h
    rw [List.nil_append, List.nil_append, h]
    rfl
  | cons c front => rfl

theorem local_numberRest : Local numberRest := by
  intro front text rest h
  unfold numberRest at h ⊢
  simp only at h ⊢
  have hwhole := @local_takeWhile (fun c => c.isDigit || c = '_') rfl front text rest
  simp only at hwhole
  generalize hw : ((front ++ text).takeWhile fun c => c.isDigit || c = '_').length = whole at *
  have hdrop : ∀ n, n ≤ front.length → ∀ t, (front ++ t).drop n = front.drop n ++ t :=
    fun n hn t => List.drop_append_of_le_length hn
  rw [hwhole (by omega)]
  have hfraction := local_fractionLength (front.drop whole) text rest
  rw [← hdrop whole (by omega), ← hdrop whole (by omega), List.length_drop] at hfraction
  generalize fractionLength ((front ++ text).drop whole) = fraction at *
  rw [hfraction (by omega)]
  have hexponent := local_exponentLength (front.drop (whole + fraction)) text rest
  rw [← hdrop (whole + fraction) (by omega), ← hdrop (whole + fraction) (by omega),
    List.length_drop] at hexponent
  generalize exponentLength ((front ++ text).drop (whole + fraction)) = exponent at *
  rw [hexponent (by omega)]
  have hletter := local_unitLength (front.drop (whole + fraction + exponent)) text rest
  rw [← hdrop (whole + fraction + exponent) (by omega),
    ← hdrop (whole + fraction + exponent) (by omega), List.length_drop] at hletter
  rw [hletter (by omega)]

/-- A closed comment ends in its mark. -/
theorem commentRest_closed {n : Nat} (h : commentRest text = (n, true)) :
    ∃ body, text.take n = body ++ ['*', '/'] := by
  fun_induction commentRest text generalizing n with
  | case1 => cases h
  | case2 rest =>
    cases h
    exact ⟨[], rfl⟩
  | case3 c rest hne m closed hrest ih =>
    simp only [Prod.mk.injEq] at h
    obtain ⟨rfl, rfl⟩ := h
    obtain ⟨body, hbody⟩ := ih hrest
    exact ⟨c :: body, by rw [List.take_succ_cons, hbody, List.cons_append]⟩

theorem two_le_commentRest {n : Nat} (h : commentRest text = (n, true)) : 2 ≤ n := by
  obtain ⟨body, hbody⟩ := commentRest_closed h
  have hlen := congrArg List.length hbody
  simp only [List.length_take, List.length_append, List.length_cons, List.length_nil] at hlen
  omega

theorem commentRest_cons (hne : ∀ rest, c = '*' → text ≠ '/' :: rest) :
    commentRest (c :: text) = ((commentRest text).1 + 1, (commentRest text).2) := by
  rw [commentRest]
  rintro rest rfl rfl
  exact hne rest rfl rfl

theorem commentRest_append {n : Nat} (h : commentRest (front ++ text) = (n, true))
    (hn : n ≤ front.length) (other : List Char) :
    commentRest (front ++ other) = (n, true) := by
  have htwo := two_le_commentRest h
  induction front generalizing n with
  | nil =>
    simp only [List.length_nil] at hn
    omega
  | cons c front ih =>
    cases front with
    | nil =>
      simp only [List.length_cons, List.length_nil] at hn
      omega
    | cons d front =>
      by_cases hmark : c = '*' ∧ d = '/'
      · obtain ⟨rfl, rfl⟩ := hmark
        exact h
      · have hne : ∀ t rest, c = '*' → d :: front ++ t ≠ '/' :: rest := by
          rintro t rest rfl ⟨⟩
          exact hmark ⟨rfl, rfl⟩
        rw [List.cons_append, commentRest_cons (hne text)] at h
        rw [List.cons_append, commentRest_cons (hne other)]
        simp only [Prod.mk.injEq] at h
        obtain ⟨rfl, hclosed⟩ := h
        have hrest : commentRest (d :: front ++ text) =
            ((commentRest (d :: front ++ text)).1, true) := by
          rw [← hclosed]
        rw [ih hrest (by simp only [List.length_cons] at hn ⊢; omega) (two_le_commentRest hrest)]

theorem quotedRest_cons {quote : Char} (hc : c ≠ '\\') :
    quotedRest quote (c :: text) =
      if c = quote then (1, true)
        else ((quotedRest quote text).1 + 1, (quotedRest quote text).2) := by
  rw [quotedRest]
  · rintro rest rfl
    exact absurd rfl hc
  · rintro d rest rfl
    exact absurd rfl hc

theorem quotedRest_append {quote : Char} (hquote : quote ≠ '\\') {n : Nat}
    (h : quotedRest quote (front ++ text) = (n, true)) (hn : n ≤ front.length) (other : List Char) :
    quotedRest quote (front ++ other) = (n, true) := by
  generalize hall : front ++ text = all at h
  fun_induction quotedRest quote all generalizing front n with
  | case1 => cases h
  | case2 rest => cases h
  | case3 d rest hd m closed hrest ih =>
    simp only [Prod.mk.injEq] at h
    obtain ⟨rfl, rfl⟩ := h
    -- The escape and the character that it takes along are in front.
    rcases front with _ | ⟨c, _ | ⟨e, front⟩⟩
    · simp at hn
    · simp at hn
    · simp only [List.cons_append, List.cons.injEq] at hall
      obtain ⟨rfl, rfl, rfl⟩ := hall
      simp only [List.length_cons] at hn
      have hih := ih (by omega) rfl hrest
      simp only [List.cons_append]
      rw [quotedRest, hih]
      exact hd
  | case4 rest hlast hescape =>
    simp only [Prod.mk.injEq, and_true] at h
    subst h
    cases front with
    | nil => simp at hn
    | cons c front =>
      obtain rfl : c = quote := (List.cons.inj hall).1
      rw [List.cons_append, quotedRest_cons hquote, if_pos rfl]
  | case5 c rest hlast hescape hne m closed hrest ih =>
    simp only [Prod.mk.injEq] at h
    obtain ⟨rfl, rfl⟩ := h
    cases front with
    | nil => simp at hn
    | cons c' front =>
      simp only [List.cons_append, List.cons.injEq] at hall
      obtain ⟨rfl, rfl⟩ := hall
      simp only [List.length_cons] at hn
      have hih := ih (by omega) rfl hrest
      have hbackslash : c' ≠ '\\' := by
        rintro rfl
        cases hchars : front ++ text with
        | nil =>
          rw [hchars] at hrest
          cases hrest
        | cons d rest => exact hescape d rest rfl hchars
      rw [List.cons_append, quotedRest_cons hbackslash, if_neg hne, hih]

def Stretch.Bracketed (s : Stretch) : Prop :=
  s.kind = some .other → s.chars = ['<'] ∨ s.chars = ['>']

/-- A stretch stays the same if a line break comes somewhere behind it. Blanks would take the line
break along, so something else has to stand between. -/
theorem munch_append {kind : Option LexemeKind} {n : Nat} (h : munch c (front ++ text) = (kind, n))
    (hn : n ≤ front.length) (hspace : isSpace c = true → n < front.length)
    (hother : kind = some .other → c = '<' ∨ c = '>') (rest : List Char) :
    munch c (front ++ '\n' :: rest) = (kind, n) := by
  have hrule : Rule c (front ++ text) kind n := by
    have hmunch := rule_munch c (front ++ text)
    rwa [h] at hmunch
  by_cases hkind : kind = some .other
  · have hbracket : ∀ t, munch c t = (some .other, 0) := by
      intro t
      obtain rfl | rfl := hother hkind <;> rfl
    rw [hbracket] at h ⊢
    exact h
  · refine munch_of_rule ?_ hkind
    cases hrule with
    | space is =>
      rw [← length_takeWhile_append (hspace is) ('\n' :: rest)]
      exact .space is
    | @line line is behind =>
      cases front with
      | nil => simp at hn
      | cons d front =>
        simp only [List.cons_append, List.cons.injEq] at behind
        obtain ⟨rfl, rfl⟩ := behind
        have hline := @local_takeWhile (fun d => d ≠ '\n') (by simp) front text rest
        simp only [List.length_cons] at hn hline
        rw [← hline (by omega)]
        exact .line is rfl
    | @comment body n is behind closed =>
      cases front with
      | nil => simp at hn
      | cons d front =>
        simp only [List.cons_append, List.cons.injEq] at behind
        obtain ⟨rfl, rfl⟩ := behind
        simp only [List.length_cons] at hn
        exact .comment is rfl (commentRest_append closed (by omega) _)
    | word is =>
      have hword := @local_takeWhile isWordPart rfl front text rest hn
      simp only at hword
      rw [← hword]
      exact .word is
    | quoted is closed =>
      refine .quoted is (quotedRest_append ?_ closed hn _)
      obtain rfl | rfl := is <;> decide
    | number is =>
      rw [← local_numberRest front text rest hn]
      exact .number is
    | mark is => exact .mark is
    | other le => exact absurd rfl hkind

theorem flat_ne_nil (hcut : Cut (row ++ more)) (hrow : row ≠ []) : flat row ≠ [] := by
  cases row with
  | nil => exact absurd rfl hrow
  | cons s row =>
    obtain ⟨⟨c, body, hchars, -⟩, -⟩ := hcut
    simp [hchars]

/-- Other text may follow a row behind a line break, if the row does not end in blanks. -/
theorem cut_append (hcut : Cut (row ++ more))
    (hlast : ∀ s, row.getLast? = some s → Stops isSpace s.chars) (hother : ∀ s ∈ row, s.Bracketed)
    {behind : List Stretch} (hbehind : Cut behind) (hbreak : flat behind = '\n' :: rest) :
    Cut (row ++ behind) := by
  induction row with
  | nil => exact hbehind
  | cons s row ih =>
    rw [List.cons_append] at hcut ⊢
    obtain ⟨⟨c, body, hchars, hmunch⟩, hcut⟩ := hcut
    rw [List.forall_mem_cons] at hother
    refine ⟨⟨c, body, hchars, ?_⟩, ih hcut ?_ hother.2⟩
    · rw [flat_append, ← List.append_assoc] at hmunch ⊢
      rw [hbreak]
      refine munch_append hmunch (by simp) ?_ ?_ rest
      · intro hspace
        have hrow : row ≠ [] := by
          rintro rfl
          have hstops := hlast s rfl c body hchars
          rw [hspace] at hstops
          cases hstops
        have hpos := List.length_pos_of_ne_nil (flat_ne_nil hcut hrow)
        rw [List.length_append]
        omega
      · intro hkind
        have hbracket := hother.1 hkind
        rw [hchars] at hbracket
        simp only [List.cons.injEq] at hbracket
        exact hbracket.imp And.left And.left
    · intro t ht
      refine hlast t ?_
      rw [List.getLast?_cons, ht]
      rfl

/-- What is left of a cut is one. -/
theorem Cut.right (hcut : Cut (row ++ more)) : Cut more := by
  induction row with
  | nil => exact hcut
  | cons s row ih => exact ih hcut.2

/-- A lexeme does not start with a blank. -/
theorem Cut.stops {s : Stretch} (hcut : Cut (s :: more)) (hkind : s.kind ≠ none) :
    Stops isSpace s.chars := by
  obtain ⟨⟨c, body, hchars, hmunch⟩, -⟩ := hcut
  intro d rest hd
  rw [hchars, List.cons.injEq] at hd
  obtain ⟨rfl, rfl⟩ := hd
  by_contra hspace
  have hnone := munch_of_rule (@Rule.space c (body ++ flat more) (by simpa using hspace)) (by simp)
  rw [hmunch, Prod.mk.injEq] at hnone
  exact hkind hnone.1

section Trivia

variable {s : Stretch}

/-- Blanks are taken to the last. -/
theorem Cut.blanks (hcut : Cut (s :: more)) (hspace : ¬ Stops isSpace s.chars) :
    (∀ c ∈ s.chars, isSpace c = true) ∧ Stops isSpace (flat more) := by
  obtain ⟨⟨c, body, hchars, hmunch⟩, -⟩ := hcut
  have hc : isSpace c = true := by
    by_contra hc
    refine hspace fun d rest hd => ?_
    rw [hchars, List.cons.injEq] at hd
    simpa [← hd.1] using hc
  have htaken := munch_of_rule (@Rule.space c (body ++ flat more) hc) (by simp)
  rw [hmunch, Prod.mk.injEq] at htaken
  have hsplit := @List.takeWhile_append_dropWhile _ isSpace (body ++ flat more)
  obtain ⟨hbody, hrest⟩ := List.append_inj hsplit htaken.2.symm
  constructor
  · rw [hchars, List.forall_mem_cons, ← hbody]
    exact ⟨hc, fun d hd => List.mem_takeWhile_imp hd⟩
  · intro d rest hd
    rw [← hrest] at hd
    have hnot := List.head?_dropWhile_not isSpace (body ++ flat more)
    rw [hd] at hnot
    simpa using hnot

/-- Trivia that are no blanks and do not end at a line break are a block comment. -/
theorem Cut.comment (hcut : Cut (s :: more)) (hkind : s.kind = none)
    (hstops : Stops isSpace s.chars) (hmore : ∃ d rest, flat more = d :: rest ∧ d ≠ '\n') :
    ∃ body, s.chars = body ++ ['/'] := by
  obtain ⟨⟨c, body, hchars, hmunch⟩, -⟩ := hcut
  have hrule : Rule c (body ++ flat more) none body.length := by
    have hrule := rule_munch c (body ++ flat more)
    rwa [hmunch, hkind] at hrule
  generalize hlen : body.length = n at hrule
  cases hrule with
  | space is =>
    have hnot := hstops c body hchars
    rw [is] at hnot
    cases hnot
  | @line line is behind =>
    cases body with
    | nil =>
      rw [List.length_nil] at hlen
      omega
    | cons e body =>
      simp only [List.cons_append, List.cons.injEq] at behind
      obtain ⟨rfl, rfl⟩ := behind
      obtain ⟨d, rest, hrest, hd⟩ := hmore
      have hsplit := @List.takeWhile_append_dropWhile _ (fun d => d ≠ '\n') (body ++ flat more)
      obtain ⟨-, hdrop⟩ := List.append_inj hsplit (by rw [List.length_cons] at hlen; omega)
      have hnot := List.head?_dropWhile_not (fun d => d ≠ '\n') (body ++ flat more)
      rw [hdrop, hrest] at hnot
      simp [hd] at hnot
  | @comment text n is behind closed =>
    cases body with
    | nil =>
      rw [List.length_nil] at hlen
      omega
    | cons e body =>
      simp only [List.cons_append, List.cons.injEq] at behind
      obtain ⟨rfl, rfl⟩ := behind
      obtain ⟨inner, hinner⟩ := commentRest_closed closed
      rw [List.length_cons] at hlen
      rw [List.take_left' (by omega)] at hinner
      exact ⟨c :: '*' :: (inner ++ ['*']), by simp [hchars, hinner]⟩

theorem trimBack_append_of_blank {text more : List Char} (h : ∀ c ∈ more, isSpace c = true) :
    Text.trimBack (text ++ more) = Text.trimBack text := by
  have hblank : ∀ c ∈ more.reverse, Text.isBlank c = true := by
    intro c hc
    obtain rfl | rfl | rfl | rfl | rfl := isSpace_eq (h c (List.mem_reverse.mp hc)) <;> rfl
  rw [Text.trimBack, List.reverse_append, List.dropWhile_append_of_pos hblank, Text.trimBack]

/-- Trivia on one line lose at most the blanks behind their last comment when they are trimmed. -/
theorem exists_trimmed {trivia : List Stretch} (hcut : Cut (trivia ++ more))
    (htrivia : ∀ s ∈ trivia, s.kind = none) (hline : '\n' ∉ flat trivia)
    (hmore : ∃ d rest, flat more = d :: rest ∧ d ≠ '\n') :
    ∃ kept dropped, trivia = kept ++ dropped ∧ flat kept = Text.trimBack (flat trivia) ∧
      ∀ s, kept.getLast? = some s → Stops isSpace s.chars := by
  have hnext : ∀ kept dropped, trivia = kept ++ dropped →
      ∃ d rest, flat (dropped ++ more) = d :: rest ∧ d ≠ '\n' := by
    rintro kept dropped rfl
    rw [flat_append] at hline ⊢
    cases hflat : flat dropped with
    | nil => exact hmore
    | cons d rest =>
      refine ⟨d, rest ++ flat more, rfl, ?_⟩
      rintro rfl
      exact hline (by simp [hflat])
  -- Trivia that do not end in blanks end in a comment.
  have hkeep : ∀ kept dropped, trivia = kept ++ dropped →
      (∀ s, kept.getLast? = some s → Stops isSpace s.chars) →
      Text.trimBack (flat kept) = flat kept := by
    intro kept dropped hsplit hlast
    have hbehind := hnext kept dropped hsplit
    rcases List.eq_nil_or_concat kept with rfl | ⟨init, s, rfl⟩
    · rfl
    · rw [List.concat_eq_append] at *
      subst hsplit
      have hcut' : Cut (s :: (dropped ++ more)) := by
        simp only [List.append_assoc, List.cons_append, List.nil_append] at hcut
        exact hcut.right
      obtain ⟨body, hbody⟩ := hcut'.comment (htrivia s (by simp)) (hlast s (by simp)) hbehind
      rw [flat_append, flat_cons, hbody, flat_nil, List.append_nil, ← List.append_assoc,
        Text.trimBack_eq, List.rdropWhile_concat_neg]
      decide
  rcases List.eq_nil_or_concat trivia with rfl | ⟨init, s, rfl⟩
  · exact ⟨[], [], rfl, rfl, by simp⟩
  · rw [List.concat_eq_append] at *
    by_cases hspace : Stops isSpace s.chars
    · have hlast : ∀ t, (init ++ [s]).getLast? = some t → Stops isSpace t.chars := by
        intro t ht
        rw [List.getLast?_concat, Option.some.injEq] at ht
        exact ht ▸ hspace
      exact ⟨init ++ [s], [], by simp, (hkeep _ [] (by simp) hlast).symm, hlast⟩
    · have hcut' : Cut (init ++ (s :: more)) := by simpa using hcut
      have hlast : ∀ t, init.getLast? = some t → Stops isSpace t.chars := by
        intro t ht
        obtain ⟨before, rfl⟩ := List.getLast?_eq_some_iff.mp ht
        by_contra hblank
        have hcut'' : Cut (t :: s :: more) := by
          rw [List.append_assoc] at hcut'
          exact hcut'.right
        refine hspace fun c rest hc => ?_
        exact (hcut''.blanks hblank).2 c (rest ++ flat more) (by simp [hc])
      refine ⟨init, [s], rfl, ?_, hlast⟩
      rw [flat_append, flat_cons, flat_nil, List.append_nil,
        trimBack_append_of_blank (hcut'.right.blanks hspace).1]
      exact (hkeep init [s] rfl hlast).symm

end Trivia

def unplaced (l : Lexeme) : Lexeme := { l with start := 0, stop := 0 }

/-- The position of a row matters for nothing but the positions of its lexemes. -/
theorem unplaced_ofStretches (start at' : Nat) (lead : List Char) (row : List Stretch) :
    (ofStretches start lead row).1.map unplaced = (ofStretches at' lead row).1.map unplaced ∧
      (ofStretches start lead row).2 = (ofStretches at' lead row).2 := by
  induction row generalizing start at' lead with
  | nil => exact ⟨rfl, rfl⟩
  | cons s row ih =>
    rcases s with ⟨_ | kind, chars⟩
    · exact ih _ _ _
    · obtain ⟨hlexemes, htail⟩ := ih (start + chars.length) (at' + chars.length) []
      simp only [ofStretches, List.map_cons, hlexemes]
      exact ⟨rfl, htail⟩

section Lexemes

variable {start : Nat} {lead : List Char} {l : Lexeme} {ls ms : List Lexeme} {tail : List Char}

/-- A lexeme behind some trivia. -/
theorem ofStretches_lexeme (htrivia : ∀ s ∈ row, s.kind = none) (start : Nat) (lead : List Char)
    (kind : LexemeKind) (chars : List Char) (behind : List Stretch) :
    ofStretches start lead (row ++ ⟨some kind, chars⟩ :: behind) =
      (⟨kind, String.ofList (lead ++ flat row), String.ofList chars, start + (flat row).length,
          start + (flat row).length + chars.length⟩ ::
        (ofStretches (start + (flat row).length + chars.length) [] behind).1,
      (ofStretches (start + (flat row).length + chars.length) [] behind).2) := by
  rw [ofStretches_append, ofStretches_trivia htrivia, List.nil_append, ofStretches]

/-- The first lexeme of a row stands behind some trivia. -/
theorem exists_first (h : ofStretches start lead row = (l :: ls, tail)) :
    ∃ trivia behind, row = trivia ++ ⟨some l.kind, l.text.toList⟩ :: behind ∧
      (∀ s ∈ trivia, s.kind = none) ∧
      l.lead = String.ofList (lead ++ flat trivia) ∧ l.start = start + (flat trivia).length ∧
      l.stop = l.start + l.text.toList.length ∧
      ofStretches (start + (flat trivia).length + l.text.toList.length) [] behind = (ls, tail) := by
  induction row generalizing start lead with
  | nil => cases h
  | cons s row ih =>
    rcases s with ⟨_ | kind, chars⟩
    · obtain ⟨trivia, behind, rfl, htrivia, hlead, hstart, hstop, hbehind⟩ := ih h
      refine ⟨⟨none, chars⟩ :: trivia, behind, rfl, List.forall_mem_cons.mpr ⟨rfl, htrivia⟩, ?_,
        ?_, hstop, ?_⟩
      · rw [hlead, flat_cons, List.append_assoc]
      · rw [hstart, flat_cons, List.length_append, Nat.add_assoc]
      · rw [flat_cons, List.length_append, ← Nat.add_assoc]
        exact hbehind
    · simp only [ofStretches, Prod.mk.injEq, List.cons.injEq] at h
      obtain ⟨⟨rfl, rfl⟩, rfl⟩ := h
      exact ⟨[], row, by simp, by simp, by simp, rfl, by simp, by simp⟩

/-- A row of lexemes comes from a row of stretches that ends in the last of them. -/
theorem exists_split (h : ofStretches start [] row = (ls ++ ms, tail)) :
    ∃ front behind, row = front ++ behind ∧ ofStretches start [] front = (ls, []) ∧
      ofStretches (start + (flat front).length) [] behind = (ms, tail) ∧
      ∀ s, front.getLast? = some s → s.kind ≠ none := by
  induction ls generalizing start row with
  | nil => exact ⟨[], row, rfl, rfl, h, by simp⟩
  | cons l ls ih =>
    obtain ⟨trivia, rest, rfl, htrivia, hlead, hstart, hstop, hrest⟩ := exists_first h
    obtain ⟨front, behind, rfl, hfront, hbehind, hlast⟩ := ih hrest
    refine ⟨trivia ++ ⟨some l.kind, l.text.toList⟩ :: front, behind, by simp, ?_, ?_, ?_⟩
    · rw [ofStretches_lexeme htrivia, hfront, String.ofList_toList, ← hlead, ← hstart, ← hstop]
    · simpa [Nat.add_assoc] using hbehind
    · intro s hs
      rw [List.getLast?_append, List.getLast?_cons] at hs
      simp only [Option.some_or, Option.some.injEq] at hs
      subst hs
      cases hfront : front.getLast? with
      | none => simp
      | some s => exact hlast s hfront

end Lexemes

end BuildScript.Lexeme
