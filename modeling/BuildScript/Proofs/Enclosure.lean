import BuildScript.Proofs.Extents

/-!
# Statements stay inside their closure

If the brackets between two braces are properly nested, a closure that starts at the first ends at
the second, whatever is between them. A verbatim statement only counts brackets and does not tell
them apart, but on nested ones it counts right, so like all that the rules read it ends where as
many brackets are open as at its start.
-/

namespace BuildScript

namespace LexemeKind

def closer? : LexemeKind → Option LexemeKind
  | braceOpen => some braceClose
  | parenOpen => some parenClose
  | bracketOpen => some bracketClose
  | _ => none

def isCloser : LexemeKind → Bool
  | braceClose | parenClose | bracketClose => true
  | _ => false

variable {kind close : LexemeKind}

theorem isCloser_of_isBracket (h : kind.isBracket = false) : kind.isCloser = false := by
  cases kind <;> simp_all [isBracket, isCloser]

theorem ne_braceClose_of_isCloser (h : kind.isCloser = false) : kind ≠ braceClose := by
  rintro rfl
  cases h

theorem isBracket_of_closer? (h : kind.closer? = some close) : kind.isBracket = true := by
  cases kind <;> simp_all [isBracket, closer?]

theorem isCloser_of_closer? (h : kind.closer? = some close) :
    kind.isCloser = false ∧ close.isCloser = true := by
  cases kind <;> cases h <;> exact ⟨rfl, rfl⟩

theorem depthAfter_plain (h : kind.isBracket = false) (depth : Nat) :
    kind.depthAfter depth = depth := by
  cases kind <;> simp_all [isBracket, depthAfter]

theorem depthAfter_opening (h : kind.closer? = some close) (depth : Nat) :
    kind.depthAfter depth = depth + 1 := by
  cases kind <;> simp_all [closer?, depthAfter]

theorem depthAfter_closer (h : kind.isCloser = true) (depth : Nat) :
    kind.depthAfter (depth + 1) = depth := by
  cases kind <;> simp_all [isCloser, depthAfter]

end LexemeKind

namespace Node

/-- The brackets in a row are properly nested: each is closed by one that belongs to it. -/
inductive Nested : List Lexeme → Prop
  | nil : Nested []
  | plain {l : Lexeme} {ls : List Lexeme} (kind : l.kind.isBracket = false) (more : Nested ls) :
      Nested (l :: ls)
  | group {opening close : Lexeme} {ls ms : List Lexeme}
      (pair : opening.kind.closer? = some close.kind) (inside : Nested ls) (more : Nested ms) :
      Nested (opening :: (ls ++ close :: ms))

variable {inClosure : Bool} {l opening close : Lexeme} {inner rest after ls ms left : List Lexeme}
    {kind : LexemeKind}
  {depth fuel : Nat}

theorem Nested.isCloser_head (h : Nested (l :: ls)) : l.kind.isCloser = false := by
  cases h with
  | plain kind more => exact LexemeKind.isCloser_of_isBracket kind
  | group pair inside more => exact (LexemeKind.isCloser_of_closer? pair).1

/-- Where a closing bracket comes next, no nested lexemes are left in front of it. -/
theorem Nested.eq_of_closer (h : Nested inner) (hl : l.kind.isCloser = true)
    (hrow : l :: ms = inner ++ close :: rest) :
    l = close ∧ ms = rest := by
  cases inner with
  | nil => exact List.cons.inj hrow
  | cons m inner =>
    obtain ⟨rfl, -⟩ := List.cons.inj hrow
    rw [h.isCloser_head] at hl
    cases hl

/-- Where an opening bracket comes next, the bracket that belongs to it is among the nested
lexemes. -/
theorem Nested.exists_group (h : Nested inner) (hclose : close.kind.isCloser = true)
    (hopening : opening.kind.closer? = some kind) (hrow : opening :: ls = inner ++ close :: after) :
    ∃ inside other more, other.kind = kind ∧ Nested inside ∧ Nested more ∧
      ls = inside ++ other :: (more ++ close :: after) := by
  have hbracket := LexemeKind.isBracket_of_closer? hopening
  cases h with
  | nil =>
    obtain ⟨rfl, -⟩ := List.cons.inj hrow
    rw [(LexemeKind.isCloser_of_closer? hopening).1] at hclose
    cases hclose
  | plain kind more =>
    obtain ⟨rfl, -⟩ := List.cons.inj hrow
    rw [hbracket] at kind
    cases kind
  | @group _ other inside more pair hinside hmore =>
    obtain ⟨rfl, rfl⟩ := List.cons.inj hrow
    refine ⟨inside, other, more, ?_, hinside, hmore, by simp⟩
    exact Option.some.inj (pair.symm.trans hopening)

/-- A lexeme at which a verbatim statement neither stops nor ends. -/
theorem verbatimRest_cons (hgo : depth = 0 → l.startsLine = false ∧ l.kind.isCloser = false)
    (hend : l.kind = .semicolon → l.kind.depthAfter depth ≠ 0) :
    (verbatimRest true depth (l :: rest)).2 =
      (verbatimRest true (l.kind.depthAfter depth) rest).2 := by
  have hstop : depth = 0 → l.startsLine = false ∧ l.kind ≠ .braceClose :=
    fun hdepth => (hgo hdepth).imp_right LexemeKind.ne_braceClose_of_isCloser
  rw [verbatimRest, if_neg, if_neg]
  · simpa using hend
  · simpa using hstop

theorem verbatimRest_closer (hl : l.kind.isCloser = true) :
    (verbatimRest true (depth + 1) (l :: rest)).2 = (verbatimRest true depth rest).2 := by
  rw [verbatimRest_cons (by simp), LexemeKind.depthAfter_closer hl]
  intro hsemicolon
  rw [hsemicolon] at hl
  cases hl

/-- Inside brackets a verbatim statement goes on over nested lexemes. -/
theorem Nested.verbatimRest_succ (h : Nested inner) (depth : Nat) (rest : List Lexeme) :
    (verbatimRest true (depth + 1) (inner ++ rest)).2 = (verbatimRest true (depth + 1) rest).2 := by
  induction h generalizing depth rest with
  | nil => rfl
  | plain kind more ih =>
    have hdepth := LexemeKind.depthAfter_plain kind (depth + 1)
    rw [List.cons_append, verbatimRest_cons (by simp) (by simp [hdepth]), hdepth, ih]
  | @group opening close ls ms pair inside more ihInside ih =>
    have hdepth := LexemeKind.depthAfter_opening pair (depth + 1)
    rw [List.cons_append, List.append_assoc, verbatimRest_cons (by simp) (by simp [hdepth]),
      hdepth, ihInside,
      List.cons_append, verbatimRest_closer (LexemeKind.isCloser_of_closer? pair).2, ih]

/-- A group of brackets is passed as a whole. -/
theorem Nested.verbatimRest_group (h : Nested inner) (hclose : close.kind.isCloser = true)
    (rest : List Lexeme) :
    (verbatimRest true 1 (inner ++ close :: rest)).2 = (verbatimRest true 0 rest).2 := by
  rw [h.verbatimRest_succ, verbatimRest_closer hclose]

/-- A verbatim statement ends in front of the brace that closes its closure, with nested lexemes
left. -/
theorem Nested.verbatimRest_left (h : Nested inner) (hclose : close.kind = .braceClose)
    (after : List Lexeme) :
    ∃ left, Nested left ∧ (verbatimRest true 0 (inner ++ close :: after)).2 =
      left ++ close :: after := by
  induction h with
  | nil => exact ⟨[], .nil, by simp [verbatimRest, hclose]⟩
  | @plain l ls kind more ih =>
    have hdepth := LexemeKind.depthAfter_plain kind 0
    by_cases hline : l.startsLine = true
    · exact ⟨l :: ls, .plain kind more, by simp [verbatimRest, hline]⟩
    · have hgo : l.startsLine = false ∧ l.kind.isCloser = false :=
        ⟨by simpa using hline, LexemeKind.isCloser_of_isBracket kind⟩
      by_cases hsemicolon : l.kind = .semicolon
      · exact ⟨ls, more, by simp [verbatimRest, hline, hsemicolon, LexemeKind.depthAfter]⟩
      · rw [List.cons_append,
          verbatimRest_cons (fun _ => hgo) (fun h => absurd h hsemicolon), hdepth]
        exact ih
  | @group opening other ls ms pair inside more ihInside ih =>
    obtain ⟨hopening, hother⟩ := LexemeKind.isCloser_of_closer? pair
    by_cases hline : opening.startsLine = true
    · exact ⟨_, .group pair inside more, by simp [verbatimRest, hline]⟩
    · have hgo : opening.startsLine = false ∧ opening.kind.isCloser = false :=
        ⟨by simpa using hline, hopening⟩
      have hdepth := LexemeKind.depthAfter_opening pair 0
      rw [List.cons_append, List.append_assoc,
        verbatimRest_cons (fun _ => hgo) (by simp [hdepth]), hdepth,
        List.cons_append, inside.verbatimRest_group hother]
      exact ih

theorem Nested.verbatim_left (h : Nested (l :: inner)) (hclose : close.kind = .braceClose)
    (after : List Lexeme) :
    ∃ left, Nested left ∧ (verbatim true l (inner ++ close :: after)).2 =
      left ++ close :: after := by
  unfold verbatim
  cases h with
  | plain kind more =>
    split
    · exact ⟨inner, more, rfl⟩
    · rw [LexemeKind.depthAfter_plain kind]
      exact more.verbatimRest_left hclose after
  | @group _ other ls ms pair inside more =>
    have hother := (LexemeKind.isCloser_of_closer? pair).2
    have hsemicolon : l.kind ≠ .semicolon := by
      intro hl
      rw [hl] at pair
      cases pair
    rw [if_neg hsemicolon, LexemeKind.depthAfter_opening pair, List.append_assoc, List.cons_append]
    obtain ⟨left, hleft, hrest⟩ := more.verbatimRest_left hclose after
    exact ⟨left, hleft, by rw [← hrest, ← inside.verbatimRest_group hother]⟩

/-- What the rules read ends in front of the bracket that closes it, with nested lexemes left. -/
theorem Takes.stays_within (h : Takes inClosure ls left) (hinner : Nested inner)
    (hclose : close.kind.isCloser = true) (hbrace : inClosure = true → close.kind = .braceClose)
    (hrow : ls = inner ++ close :: after) :
    ∃ inner', Nested inner' ∧ left = inner' ++ close :: after := by
  induction h generalizing inner close after with
  | nothing => exact ⟨inner, hinner, hrow⟩
  | plain kind more ih =>
    cases hinner with
    | nil =>
      obtain ⟨rfl, -⟩ := List.cons.inj hrow
      rw [LexemeKind.isCloser_of_isBracket kind] at hclose
      cases hclose
    | plain _ hmore => exact ih hmore hclose hbrace (List.cons.inj hrow).2
    | group pair =>
      obtain ⟨rfl, -⟩ := List.cons.inj hrow
      rw [LexemeKind.isBracket_of_closer? pair] at kind
      cases kind
  | parens is inside is' more ihInside ih =>
    obtain ⟨within, other, behind, hother, hwithin, hbehind, rfl⟩ :=
      @Nested.exists_group _ _ _ _ _ .parenClose hinner hclose (by rw [is]; rfl) hrow
    obtain ⟨rest, hrest, hsame⟩ := ihInside hwithin (by rw [hother]; rfl) (by simp) rfl
    obtain ⟨-, rfl⟩ := hrest.eq_of_closer (by rw [is']; rfl) hsame
    exact ih hbehind hclose hbrace rfl
  | braces is inside is' more ihInside ih =>
    obtain ⟨within, other, behind, hother, hwithin, hbehind, rfl⟩ :=
      @Nested.exists_group _ _ _ _ _ .braceClose hinner hclose (by rw [is]; rfl) hrow
    obtain ⟨rest, hrest, hsame⟩ := ihInside hwithin (by rw [hother]; rfl) (fun _ => hother) rfl
    obtain ⟨-, rfl⟩ := hrest.eq_of_closer (by rw [is']; rfl) hsame
    exact ih hbehind hclose hbrace rfl
  | verbatim kind more ih =>
    cases inner with
    | nil =>
      obtain ⟨rfl, -⟩ := List.cons.inj hrow
      exact absurd (hbrace rfl) kind
    | cons l inner =>
      obtain ⟨rfl, rfl⟩ := List.cons.inj hrow
      obtain ⟨rest, hrest, hsame⟩ := hinner.verbatim_left (hbrace rfl) after
      exact ih hrest hclose hbrace hsame

/-- The statements of a closure take all nested lexemes in front of its brace. -/
theorem Nested.statements_left (h : Nested inner) (hclose : close.kind = .braceClose)
    (hfuel : inner.length ≤ fuel) (after : List Lexeme) :
    (statements fuel true (inner ++ close :: after)).2 = close :: after := by
  induction fuel generalizing inner with
  | zero =>
    obtain rfl := List.eq_nil_of_length_eq_zero (Nat.le_zero.mp hfuel)
    rfl
  | succ fuel ih =>
    cases inner with
    | nil => simp [statements_cons, hclose]
    | cons l inner =>
      have hl : l.kind ≠ .braceClose := LexemeKind.ne_braceClose_of_isCloser h.isCloser_head
      -- The first statement stays inside and leaves less, which is nested again.
      obtain ⟨rest, hrest, hleft⟩ :=
        ((taking fuel).statementOrVerbatim l (inner ++ close :: after) hl).stays_within h
        (by rw [hclose]; rfl) (fun _ => hclose) rfl
      have hlength :=
        ((taking fuel).statementOrVerbatim_suffix true l (inner ++ close :: after)).length_le
      rw [hleft, List.length_append, List.length_append] at hlength
      rw [List.length_cons] at hfuel
      simp only [List.cons_append, statements_cons, hl, decide_false, Bool.and_false,
        Bool.false_eq_true, if_false, hleft]
      exact ih hrest (by omega)

/-- A closure ends at the brace that belongs to it, whatever statements are in between: if the
brackets between two positions are nested and a closing brace is at the second, the closure that
starts at the first ends just behind. What the first position holds is left to the caller to look
at. -/
theorem closure_ends_at_its_brace {ls : List Lexeme} {o k : Nat} {opening close : Lexeme}
    (hok : o < k) (hopening : ls[o]? = some opening) (hclose : ls[k]? = some close)
    (hbrace : close.kind = .braceClose) (hnested : Nested ((ls.take k).drop (o + 1))) {fuel : Nat}
    (hfuel : k - o ≤ fuel) :
    ∃ nodes, closureBody fuel (ls.drop o) =
      some (closure (headOf opening) nodes close.lead, ls.drop (k + 1)) := by
  obtain ⟨ho, rfl⟩ := List.getElem?_eq_some_iff.mp hopening
  obtain ⟨hk, rfl⟩ := List.getElem?_eq_some_iff.mp hclose
  have hlength : ((ls.take k).drop (o + 1)).length = k - (o + 1) := by
    rw [List.length_drop, List.length_take, Nat.min_eq_left (Nat.le_of_lt hk)]
  have hrow : ls.drop o = ls[o] :: ((ls.take k).drop (o + 1) ++ ls[k] :: ls.drop (k + 1)) := by
    rw [List.drop_eq_getElem_cons ho, ← List.drop_eq_getElem_cons hk,
      ← List.drop_append_of_le_length, List.take_append_drop]
    rw [List.length_take, Nat.min_eq_left (Nat.le_of_lt hk)]
    exact hok
  obtain ⟨n, rfl⟩ : ∃ n, fuel = n + 1 := ⟨fuel - 1, by omega⟩
  have hleft := hnested.statements_left hbrace (by omega : _ ≤ n) (ls.drop (k + 1))
  refine ⟨(statements n true ((ls.take k).drop (o + 1) ++ ls[k] :: ls.drop (k + 1))).1, ?_⟩
  rw [hrow]
  simp only [closureBody_succ, Query.step, answer_statements]
  generalize statements n true ((ls.take k).drop (o + 1) ++ ls[k] :: ls.drop (k + 1)) =
    reading at hleft
  obtain ⟨nodes, left⟩ := reading
  obtain rfl : left = ls[k] :: ls.drop (k + 1) := hleft
  simp only [hbrace, if_true]

/-- The closure in `a { +(;)`, `-> } b`, on two lines, has no statement that the grammar covers. -/
theorem closure_ends_at_its_brace_behind_operators :
    let row : List Lexeme :=
      [⟨.word, "", "a", 0, 1⟩, ⟨.braceOpen, " ", "\x7b", 2, 3⟩, ⟨.other, " ", "+", 4, 5⟩,
      ⟨.parenOpen, "", "(", 5, 6⟩, ⟨.semicolon, "", ";", 6, 7⟩, ⟨.parenClose, "", ")", 7, 8⟩,
        ⟨.other, "\n", "->", 9, 11⟩,
      ⟨.braceClose, " ", "\x7d", 12, 13⟩, ⟨.word, " ", "b", 14, 15⟩]
    Nested ((row.take 7).drop 2) ∧
      ∃ nodes, closureBody 6 (row.drop 1) =
        some (closure ⟨3, 0, " "⟩ nodes " ", [⟨.word, " ", "b", 14, 15⟩]) := by
  intro row
  have hnested : Nested ((row.take 7).drop 2) :=
    .plain rfl
      (@Nested.group _ _ [⟨.semicolon, "", ";", 6, 7⟩] _ rfl (.plain rfl .nil) (.plain rfl .nil))
  have hopening : row[1]? = some ⟨.braceOpen, " ", "\x7b", 2, 3⟩ := rfl
  have hclose : row[7]? = some ⟨.braceClose, " ", "\x7d", 12, 13⟩ := rfl
  exact ⟨hnested, closure_ends_at_its_brace (by decide) hopening hclose rfl hnested (Nat.le_refl 6)⟩

end Node

end BuildScript
