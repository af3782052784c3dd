import BuildScript.Proofs.Rescanning
import Mathlib.Data.List.Chain

/-!
# Splicing rows of stretches

A piece of text that starts a line can be put in front of a closing brace or behind the last lexeme.
The new text is scanned as the stretches of the old with those of the piece among them.
-/

namespace BuildScript

namespace Lexeme

variable {row more : List Stretch} {text : String}

/-- The row is what its text is scanned as, and has nothing in it that no rule is for but angle
brackets. -/
structure IsScan (row : List Stretch) : Prop where
  cut : Cut row
  apart : Apart row
  bracketed : ∀ s ∈ row, s.Bracketed

/-- The row is what the text is scanned as wherever it stands, and ends in a lexeme. -/
structure IsPiece (text : String) (row : List Stretch) : Prop where
  flat_eq : flat row = text.toList
  kind : ∀ s ∈ row, s.kind ≠ some .other
  cut : ∀ more, Cut more → Cut (row ++ more)
  stops : ∀ more, Stops isSpace (flat (row ++ more))
  behind : ∀ start lead, (ofStretches start lead row).2 = []

section Joining

theorem Apart.append (hrow : Apart row) (hmore : Apart more)
    (hnext : ∀ s ∈ more.head?, s.kind ≠ some .other) :
    Apart (row ++ more) :=
  List.isChain_append.mpr ⟨hrow, hmore, fun _ _ t ht _ => hnext t ht⟩

theorem Apart.append_of_ne (hrow : ∀ s ∈ row, s.kind ≠ some .other) (hmore : Apart more) :
    Apart (row ++ more) :=
  List.isChain_append.mpr ⟨apart_of_ne hrow, hmore,
    fun s hs _ _ hkind => absurd hkind (hrow s (List.mem_of_getLast? hs))⟩

theorem Apart.left (h : Apart (row ++ more)) : Apart row := (List.isChain_append.mp h).1

theorem Apart.right (h : Apart (row ++ more)) : Apart more := (List.isChain_append.mp h).2.1

theorem apart_joinOther (row : List Stretch) : Apart (joinOther row) := by
  fun_induction joinOther row with
  | case1 => exact .nil
  | case2 chars rest more joined hjoined ih =>
    rw [hjoined] at ih
    cases joined with
    | nil => exact .singleton _
    | cons t joined =>
      obtain ⟨hfirst, hrest⟩ := List.isChain_cons_cons.mp ih
      exact .cons_cons hfirst hrest
  | case3 kind chars rest hne ih =>
    cases hjoined : joinOther rest with
    | nil => exact .singleton _
    | cons t joined =>
      rw [hjoined] at ih hne
      refine .cons_cons ?_ ih
      rcases t with ⟨kind', chars'⟩
      rintro rfl rfl
      exact hne _ _ rfl rfl

theorem joinOther_ne_nil (hrow : ∀ s ∈ row, s.chars ≠ []) : ∀ s ∈ joinOther row, s.chars ≠ [] := by
  fun_induction joinOther row with
  | case1 => simp
  | case2 chars rest more joined hjoined ih =>
    rw [List.forall_mem_cons] at hrow
    have hrest := ih hrow.2
    rw [hjoined, List.forall_mem_cons] at hrest
    exact List.forall_mem_cons.mpr ⟨by simp [hrow.1], hrest.2⟩
  | case3 kind chars rest hne ih =>
    rw [List.forall_mem_cons] at hrow
    exact List.forall_mem_cons.mpr ⟨hrow.1, ih hrow.2⟩

/-- What is joined is longer than one character. -/
theorem joinOther_of_bracketed (hrow : ∀ s ∈ row, s.chars ≠ [])
    (h : ∀ s ∈ joinOther row, s.Bracketed) :
    joinOther row = row := by
  fun_induction joinOther row with
  | case1 => rfl
  | case2 chars rest more joined hjoined ih =>
    rw [List.forall_mem_cons] at hrow h
    have hmore := joinOther_ne_nil hrow.2
    rw [hjoined, List.forall_mem_cons] at hmore
    have hlength : (chars ++ more).length = 1 := by
      obtain hone | hone := h.1 rfl
      · exact congrArg List.length hone
      · exact congrArg List.length hone
    have hchars := List.length_pos_of_ne_nil hrow.1
    have hbehind := List.length_pos_of_ne_nil hmore.1
    simp only [List.length_append] at hlength hchars hbehind
    omega
  | case3 kind chars rest hne ih =>
    rw [List.forall_mem_cons] at hrow h
    rw [ih hrow.2 h.2]

theorem mem_ofStretches {s : Stretch} {kind : LexemeKind} (hs : s ∈ row)
    (hkind : s.kind = some kind) (start : Nat) (lead : List Char) :
    ∃ l ∈ (ofStretches start lead row).1, l.kind = kind ∧ l.text = String.ofList s.chars := by
  induction row generalizing start lead with
  | nil => cases hs
  | cons t row ih =>
    rcases t with ⟨_ | kind', chars⟩
    · obtain rfl | hs := List.mem_cons.mp hs
      · cases hkind
      · exact ih hs _ _
    · obtain rfl | hs := List.mem_cons.mp hs
      · exact ⟨_, List.mem_cons_self, Option.some.inj hkind, rfl⟩
      · obtain ⟨l, hl, his⟩ := ih hs (start + chars.length) []
        exact ⟨l, List.mem_cons_of_mem _ hl, his⟩

def Bracketed (l : Lexeme) : Prop := l.kind = .other → l.text = "<" ∨ l.text = ">"

theorem Bracketed.of_kind {l : Lexeme} {kind : LexemeKind} (h : l.kind = kind)
    (hkind : kind ≠ .other) : l.Bracketed :=
  fun hother => absurd (h.symm.trans hother) hkind

/-- A text whose only lexemes without a rule are angle brackets is scanned without joining any. -/
theorem isScan_joined {script : String} (h : ∀ l ∈ (scan script).1, l.Bracketed) :
    IsScan (joined script) := by
  have hcut := (@cut_stretches _ script.toList (Nat.le_refl _)).2
  rw [scan_eq] at h
  have hbracketed : ∀ s ∈ joined script, s.Bracketed := by
    intro s hs hkind
    obtain ⟨l, hl, hother, htext⟩ := mem_ofStretches hs hkind 0 []
    have hone := h l hl hother
    rw [htext] at hone
    obtain hone | hone := hone
    · exact Or.inl (by simpa using congrArg String.toList hone)
    · exact Or.inr (by simpa using congrArg String.toList hone)
  have hjoin := joinOther_of_bracketed hcut.ne_nil hbracketed
  refine ⟨?_, apart_joinOther _, hbracketed⟩
  rw [joined, hjoin]
  exact hcut

end Joining

section Splicing

variable {front trivia back : List Stretch} {indent : String}

def anywhere (lead : List Char) (row : List Stretch) : List Lexeme × List Char :=
  ((ofStretches 0 lead row).1.map unplaced, (ofStretches 0 lead row).2)

theorem anywhere_of_ofStretches {start : Nat} {lead tail : List Char} {ls : List Lexeme}
    (h : ofStretches start lead row = (ls, tail)) :
    anywhere lead row = (ls.map unplaced, tail) := by
  obtain ⟨hlexemes, htail⟩ := unplaced_ofStretches start 0 lead row
  rw [anywhere, ← hlexemes, ← htail, h]

theorem anywhere_append (lead : List Char) (row more : List Stretch) :
    anywhere lead (row ++ more) =
      ((anywhere lead row).1 ++ (anywhere (anywhere lead row).2 more).1,
        (anywhere (anywhere lead row).2 more).2) := by
  obtain ⟨hlexemes, htail⟩ :=
    unplaced_ofStretches (0 + (flat row).length) 0 (ofStretches 0 lead row).2 more
  simp only [anywhere, ofStretches_append, List.map_append, hlexemes, htail]

theorem anywhere_lexeme (lead : List Char) (kind : LexemeKind) (chars : List Char)
    (row : List Stretch) :
    anywhere lead (⟨some kind, chars⟩ :: row) =
      (⟨kind, String.ofList lead, String.ofList chars, 0, 0⟩ :: (anywhere [] row).1,
        (anywhere [] row).2) := by
  obtain ⟨hlexemes, htail⟩ := unplaced_ofStretches (0 + chars.length) 0 [] row
  simp only [anywhere, ofStretches, List.map_cons, hlexemes, htail, unplaced]

theorem anywhere_trivia (htrivia : ∀ s ∈ row, s.kind = none) (lead : List Char) :
    anywhere lead row = ([], lead ++ flat row) := by
  rw [anywhere, ofStretches_trivia htrivia, List.map_nil]

/-- A lexeme at the end of a row does not start with a blank. -/
theorem Cut.stops_last (hcut : Cut (row ++ more))
    (hlast : ∀ s, row.getLast? = some s → s.kind ≠ none) :
    ∀ s, row.getLast? = some s → Stops isSpace s.chars := by
  intro s hs
  obtain ⟨init, rfl⟩ := List.getLast?_eq_some_iff.mp hs
  rw [List.append_assoc] at hcut
  exact hcut.right.stops (hlast s hs)

/-- Trivia can be made to end in a line break and some blanks. -/
theorem exists_broken {d : Char} {rest : List Char} (hcut : Cut (trivia ++ back))
    (htrivia : ∀ s ∈ trivia, s.kind = none) (hback : flat back = d :: rest) (hd : isSpace d = false)
    (hindent : indent.toList.all isSpace = true) :
    ∃ broken, (∀ s ∈ broken, s.kind = none) ∧ Cut (broken ++ back) ∧
      String.ofList (flat broken) = Insertion.brokenTail indent (String.ofList (flat trivia)) := by
  unfold Insertion.brokenTail
  rw [String.toList_ofList]
  by_cases hline : (flat trivia).contains '\n' = true
  · rw [if_pos hline]
    exact ⟨trivia, htrivia, hcut, rfl⟩
  · rw [if_neg hline]
    have hne : d ≠ '\n' := by
      rintro rfl
      cases hd
    obtain ⟨kept, dropped, rfl, hflat, hlast⟩ :=
      exists_trimmed hcut htrivia (by simpa using hline) ⟨d, rest, hback, hne⟩
    rw [List.forall_mem_append] at htrivia
    refine ⟨kept ++ [⟨none, '\n' :: indent.toList⟩], ?_, ?_, ?_⟩
    · rw [List.forall_mem_append, List.forall_mem_singleton]
      exact ⟨htrivia.1, rfl⟩
    · have hbreak : Cut (⟨none, '\n' :: indent.toList⟩ :: back) := by
        refine cut_space rfl (by simpa using hindent) ?_ (Cut.right hcut)
        intro c more hmore
        rw [hback, List.cons.injEq] at hmore
        rwa [← hmore.1]
      rw [List.append_assoc] at hcut ⊢
      refine cut_append hcut hlast (fun s hs hother => ?_) hbreak rfl
      rw [htrivia.1 s hs] at hother
      cases hother
    · have hbreak : String.ofList ('\n' :: indent.toList) = "\n" ++ indent := by
        rw [← List.singleton_append, String.ofList_append, String.ofList_toList]
      rw [Text.trimEnd, String.toList_ofList, ← hflat, flat_append, String.ofList_append,
        String.append_assoc, ← hbreak]
      simp

theorem Stretch.bracketed_of_ne {s : Stretch} (h : s.kind ≠ some .other) :
    s.Bracketed := fun hkind => absurd hkind h

/-- A piece on a line of its own can be put in front of a closing brace. -/
theorem exists_spliced {piece : List Stretch} {before after : List Lexeme} {close : Lexeme}
    {lead tail : List Char} (hscan : IsScan row)
    (hrow : ofStretches 0 [] row = (before ++ close :: after, tail))
    (hmark : close.Marks .braceClose "\x7d") (hpiece : IsPiece text piece)
    (hlead : ∀ c ∈ lead, isSpace c = true) (hindent : indent.toList.all isSpace = true) :
    ∃ row', IsScan row' ∧ anywhere [] row' =
      ((before ++ (ofStretches 0 [] (⟨none, '\n' :: lead⟩ :: piece)).1 ++
        { close with lead := Insertion.brokenTail indent close.lead } :: after).map unplaced,
          tail) := by
  obtain ⟨front, behind, rfl, hfront, hbehind, hlast⟩ := exists_split hrow
  obtain ⟨trivia, back, rfl, htrivia, hclose, -, -, hback⟩ := exists_first hbehind
  rcases close with ⟨kind, closeLead, closeText, position⟩
  obtain ⟨rfl, rfl⟩ : kind = .braceClose ∧ closeText = "\x7d" := hmark
  rw [List.nil_append] at hclose
  have hstart : flat (⟨some .braceClose, "\x7d".toList⟩ :: back) = '\x7d' :: flat back := rfl
  obtain ⟨broken, hbroken, hcut, hflat⟩ := exists_broken hscan.cut.right htrivia hstart rfl hindent
  have hnew : Cut
      (⟨none, '\n' :: lead⟩ :: (piece ++ (broken ++ ⟨some .braceClose, "\x7d".toList⟩ :: back))) :=
    cut_space rfl hlead (hpiece.stops _) (hpiece.cut _ hcut)
  have hne : ∀ s ∈ broken, s.kind ≠ some .other := by
    intro s hs
    simp [hbroken s hs]
  have hbracketed := hscan.bracketed
  simp only [List.forall_mem_append, List.forall_mem_cons] at hbracketed
  obtain ⟨hinFront, -, hbrace, hinBack⟩ := hbracketed
  refine ⟨_, ⟨cut_append hscan.cut (hscan.cut.stops_last hlast) hinFront hnew rfl, ?_, ?_⟩, ?_⟩
  · refine hscan.apart.left.append ?_ (by simp)
    exact @Apart.append_of_ne [_] _ (by simp)
      (.append_of_ne hpiece.kind (.append_of_ne hne hscan.apart.right.right))
  · simp only [List.forall_mem_append, List.forall_mem_cons]
    exact ⟨hinFront, Stretch.bracketed_of_ne (by simp),
      fun s hs => Stretch.bracketed_of_ne (hpiece.kind s hs),
      fun s hs => Stretch.bracketed_of_ne (hne s hs), hbrace, hinBack⟩
  · have hpiece' : anywhere [] (⟨none, '\n' :: lead⟩ :: piece) =
        ((ofStretches 0 [] (⟨none, '\n' :: lead⟩ :: piece)).1.map unplaced, []) :=
      Prod.ext rfl (hpiece.behind _ _)
    rw [anywhere_append, anywhere_of_ofStretches hfront, ← List.cons_append, anywhere_append,
      hpiece', anywhere_append,
      anywhere_trivia hbroken, List.nil_append, List.nil_append, anywhere_lexeme,
        anywhere_of_ofStretches hback, hflat,
      ← hclose, String.ofList_toList]
    simp [unplaced]

theorem trivia_of_ofStretches {start : Nat} {lead tail : List Char}
    (h : ofStretches start lead row = ([], tail)) :
    ∀ s ∈ row, s.kind = none := by
  intro s hs
  cases hkind : s.kind with
  | none => rfl
  | some kind =>
    obtain ⟨l, hl, -⟩ := mem_ofStretches hs hkind start lead
    rw [h] at hl
    cases hl

/-- A piece on a line of its own can be put behind the last lexeme. The trivia behind it stay, or a
line break is added. -/
theorem exists_appended {piece : List Stretch} {ls : List Lexeme} {lead tail : List Char}
    (hscan : IsScan row) (hrow : ofStretches 0 [] row = (ls, tail)) (hpiece : IsPiece text piece)
    (hlead : ∀ c ∈ lead, isSpace c = true) (hbreak : ls ≠ [] → ∃ rest, lead = '\n' :: rest) :
    ∃ row', IsScan row' ∧ anywhere [] row' =
      ((ls ++ (ofStretches 0 [] (Recipe.leadRow lead ++ piece)).1).map unplaced,
        if tail = [] then ['\n'] else tail) := by
  rw [← List.append_nil ls] at hrow
  obtain ⟨front, behind, rfl, hfront, hbehind, hlast⟩ := exists_split hrow
  have htrivia := trivia_of_ofStretches hbehind
  have htail : tail = flat behind := by
    rw [ofStretches_trivia htrivia, List.nil_append, Prod.mk.injEq] at hbehind
    exact hbehind.2.symm
  obtain ⟨last, hlastTrivia, hlastCut, hlastFlat⟩ : ∃ last : List Stretch,
    (∀ s ∈ last, s.kind = none) ∧ Cut last ∧
      flat last = if tail = [] then ['\n'] else tail := by
    split_ifs with hnil
    · exact ⟨[⟨none, ['\n']⟩], by simp, cut_space rfl (by simp) (by simp [Stops]) trivial, rfl⟩
    · exact ⟨behind, htrivia, hscan.cut.right, htail.symm⟩
  have hne : ∀ s ∈ Recipe.leadRow lead ++ (piece ++ last), s.kind ≠ some .other := by
    simp only [List.forall_mem_append]
    refine ⟨Recipe.kind_leadRow lead, hpiece.kind, fun s hs => ?_⟩
    simp [hlastTrivia s hs]
  have hinFront : ∀ s ∈ front, s.Bracketed :=
    fun s hs => hscan.bracketed s (List.mem_append_left _ hs)
  have hnew := Recipe.cut_leadRow hlead (hpiece.stops last) (hpiece.cut last hlastCut)
  refine ⟨front ++ (Recipe.leadRow lead ++ (piece ++ last)), ⟨?_, ?_, ?_⟩, ?_⟩
  · -- Without a lexeme in front there may be no line break to keep the piece apart, and no need
    -- for one.
    by_cases hls : ls = []
    · have hnil : front = [] := by
        subst hls
        rcases List.eq_nil_or_concat front with hnil | ⟨init, s, rfl⟩
        · exact hnil
        · exact absurd (trivia_of_ofStretches hfront s (by simp)) (hlast s (by simp))
      rw [hnil]
      exact hnew
    · obtain ⟨rest, rfl⟩ := hbreak hls
      exact cut_append hscan.cut (hscan.cut.stops_last hlast) hinFront hnew rfl
  · exact hscan.apart.left.append (apart_of_ne hne) fun s hs => hne s (List.mem_of_mem_head? hs)
  · rw [List.forall_mem_append]
    exact ⟨hinFront, fun s hs => Stretch.bracketed_of_ne (hne s hs)⟩
  · have hpiece' : anywhere [] (Recipe.leadRow lead ++ piece) =
        ((ofStretches 0 [] (Recipe.leadRow lead ++ piece)).1.map unplaced, []) := by
      refine Prod.ext rfl ?_
      simp only [anywhere, Recipe.ofStretches_leadRow]
      exact hpiece.behind _ _
    rw [anywhere_append, anywhere_of_ofStretches hfront, ← List.append_assoc,
      anywhere_append, hpiece', anywhere_trivia hlastTrivia, hlastFlat]
    simp

end Splicing

end Lexeme

end BuildScript
