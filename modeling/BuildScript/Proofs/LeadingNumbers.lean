import BuildScript.Proofs.Numerals

/-!
# The numbers in front of a version

A version starts with the longest row of numbers that its text has in front, and its parts are the
values of these. What is behind the row is the qualifier, with one exception: a dot behind the row
is lost if the digits that follow it stand for a number that is too large.
-/

namespace BuildScript.Version

/-- A row of numbers at the front of a text, which may be empty. Every run of digits in it is a
whole run of the text. -/
structure IsFront (text row : List Char) (numbers : List Nat) : Prop where
  numerals : row = [] ∧ numbers = [] ∨ IsRow false row numbers
  front : row <+: text
  whole : ∀ rest, row ≠ [] → text = row ++ rest → Stops rest

/-- Behind a row stand a dot and a whole run of digits with a value that is not below the bound. -/
def Overflows (text row : List Char) : Prop :=
  row ≠ [] ∧ ∃ digits rest, text = row ++ '.' :: (digits ++ rest) ∧ digits ≠ [] ∧
    (∀ c ∈ digits, c.isDigit = true) ∧ Stops rest ∧ partBound ≤ numberOf digits

/-- How a text is split: its longest row of numbers is cut off, and so is a dot behind the row if a
number follows that is too large. -/
structure IsSplit (text row : List Char) (numbers : List Nat) (qualifier : List Char) : Prop where
  front : IsFront text row numbers
  longest : ∀ other others, IsFront text other others → other.length ≤ row.length
  kept : ¬ Overflows text row → text = row ++ qualifier
  lost : Overflows text row → text = row ++ '.' :: qualifier

variable {text row digits rest qualifier : List Char} {numbers : List Nat} {n fuel : Nat}

section Runs

theorem not_stops_cons {c : Char} (hc : c.isDigit = true) : ¬ Stops (c :: rest) := by
  intro h
  rw [h c rfl] at hc
  cases hc

theorem not_stops_run (hne : digits ≠ []) (hdigits : ∀ c ∈ digits, c.isDigit = true) :
    ¬ Stops (digits ++ rest) := by
  obtain ⟨c, digits, rfl⟩ := List.exists_cons_of_ne_nil hne
  exact not_stops_cons (hdigits c List.mem_cons_self)

/-- Every text is a run of digits, maybe an empty one, and what stops it. -/
theorem exists_run (text : List Char) : ∃ digits rest, text = digits ++ rest ∧
    (∀ c ∈ digits, c.isDigit = true) ∧ Stops rest := by
  refine ⟨_, _, List.takeWhile_append_dropWhile.symm, fun c => List.mem_takeWhile_imp, ?_⟩
  intro c hc
  have hhead := List.head?_dropWhile_not Char.isDigit text
  rw [hc] at hhead
  simpa using hhead

/-- A text starts with one whole run of digits only. -/
theorem run_unique {digits' rest' : List Char} (h : digits ++ rest = digits' ++ rest')
    (hdigits : ∀ c ∈ digits, c.isDigit = true) (hdigits' : ∀ c ∈ digits', c.isDigit = true)
    (hstops : Stops rest) (hstops' : Stops rest') : digits = digits' ∧ rest = rest' := by
  have heq : digits = digits' := by
    rw [← takeWhile_run hdigits hstops, h, takeWhile_run hdigits' hstops']
  subst heq
  exact ⟨rfl, List.append_cancel_left h⟩

end Runs

section Fronts

theorem isFront_nil (text : List Char) : IsFront text [] [] :=
  ⟨Or.inl ⟨rfl, rfl⟩, List.nil_prefix, fun _ h => absurd rfl h⟩

theorem isFront_last (h : IsDecimal digits n) (hstops : Stops rest) :
    IsFront (digits ++ rest) digits [n] where
  numerals := Or.inr (.last (.plain h))
  front := List.prefix_append digits rest
  whole := by
    intro rest' _ heq
    rwa [← List.append_cancel_left heq]

theorem isFront_more (h : IsDecimal digits n) (hrow : row ≠ [])
    (hfront : IsFront rest row numbers) :
    IsFront (digits ++ '.' :: rest) (digits ++ '.' :: row) (n :: numbers) where
  numerals := by
    obtain ⟨hnil, -⟩ | hrest := hfront.numerals
    · exact absurd hnil hrow
    · exact Or.inr (.more (.plain h) hrest)
  front := by
    obtain ⟨tail, rfl⟩ := hfront.front
    exact ⟨tail, by simp⟩
  whole := by
    intro rest' _ heq
    apply hfront.whole rest' hrow
    simpa using heq

/-- A row at the front of a text is empty, or it starts with the whole run of digits there. It goes
on only if a dot and a row of the remaining text follow. -/
theorem IsFront.cases_run (h : IsFront (digits ++ rest) row numbers)
    (hdigits : ∀ c ∈ digits, c.isDigit = true) (hstops : Stops rest) :
    row = [] ∨ IsDecimal digits (numberOf digits) ∧ (row = digits ∨
      ∃ row' numbers' rest', rest = '.' :: rest' ∧ row = digits ++ '.' :: row' ∧ row' ≠ [] ∧
        IsFront rest' row' numbers') := by
  obtain ⟨hrow, ⟨tail, htail⟩, hwhole⟩ := h
  obtain ⟨rfl, -⟩ | hrow := hrow
  · exact Or.inl rfl
  right
  cases hrow with
  | last hnumeral =>
    obtain ⟨hne, hrun, rfl, hbound⟩ := hnumeral.isDecimal
    obtain ⟨rfl, -⟩ := run_unique htail hrun hdigits (hwhole tail hne htail.symm) hstops
    exact ⟨⟨hne, hrun, rfl, hbound⟩, Or.inl rfl⟩
  | @more run n row' numbers' hnumeral hrest =>
    obtain ⟨hne, hrun, rfl, hbound⟩ := hnumeral.isDecimal
    rw [List.append_assoc, List.cons_append] at htail
    obtain ⟨rfl, rfl⟩ := run_unique htail hrun hdigits (stops_dot _) hstops
    obtain ⟨c, others, hc, -⟩ := hrest.head
    have hrow' : row' ≠ [] := by
      rw [hc]
      exact List.cons_ne_nil c others
    refine ⟨⟨hne, hrun, rfl, hbound⟩, Or.inr ⟨row', numbers', row' ++ tail, rfl, rfl, hrow', ?_⟩⟩
    refine ⟨Or.inr hrest, List.prefix_append _ _, ?_⟩
    intro rest' _ heq
    apply hwhole rest'
    · simp
    · rw [heq, List.append_assoc, List.cons_append]

/-- A row that is not empty starts with a digit. -/
theorem IsFront.not_stops (h : IsFront text row numbers) (hrow : row ≠ []) : ¬ Stops text := by
  intro hstops
  rw [← List.nil_append text] at h
  obtain hnil | ⟨hdecimal, -⟩ := h.cases_run (by simp) hstops
  · exact hrow hnil
  · exact hdecimal.ne_nil rfl

end Fronts

section Splits

theorem not_overflows_nil (text : List Char) : ¬ Overflows text [] := fun h => h.1 rfl

/-- The dot between two numbers is not the one that is lost: a number that is too large stands
behind the whole row or behind none of it. -/
theorem overflows_more (hrow : row ≠ []) :
    Overflows (digits ++ '.' :: rest) (digits ++ '.' :: row) ↔ Overflows rest row := by
  simp [Overflows, hrow]

/-- Nothing is cut off if the run of digits in front is empty or too large. -/
theorem isSplit_nil (hdigits : ∀ c ∈ digits, c.isDigit = true) (hstops : Stops rest)
    (hnone : digits = [] ∨ partBound ≤ numberOf digits) :
    IsSplit (digits ++ rest) [] [] (digits ++ rest) where
  front := isFront_nil _
  longest := by
    intro other others h
    obtain rfl | ⟨hdecimal, -⟩ := h.cases_run hdigits hstops
    · exact le_rfl
    · obtain rfl | hlarge := hnone
      · exact absurd rfl hdecimal.ne_nil
      · exact absurd hdecimal.bounded (by omega)
  kept := fun _ => rfl
  lost := fun h => absurd h (not_overflows_nil _)

/-- A number is the whole row if no dot with a digit follows. -/
theorem isSplit_last (h : IsDecimal digits n) (hstops : Stops rest)
    (hlast : ∀ rest', rest = '.' :: rest' → Stops rest') :
    IsSplit (digits ++ rest) digits [n] rest where
  front := isFront_last h hstops
  longest := by
    intro other others hother
    obtain rfl | ⟨-, rfl | ⟨row', numbers', rest', hrest, rfl, hrow', hfront⟩⟩ :=
      hother.cases_run h.digit hstops
    · exact Nat.zero_le _
    · exact le_rfl
    · exact absurd (hlast rest' hrest) (hfront.not_stops hrow')
  kept := fun _ => rfl
  lost := by
    rintro ⟨-, run, rest', heq, hne, hrun, -, -⟩
    exact absurd (hlast _ (List.append_cancel_left heq)) (not_stops_run hne hrun)

/-- A number goes on with the row behind a dot. -/
theorem IsSplit.more (h : IsDecimal digits n) (hrow : row ≠ [])
    (hsplit : IsSplit rest row numbers qualifier) :
    IsSplit (digits ++ '.' :: rest) (digits ++ '.' :: row) (n :: numbers) qualifier where
  front := isFront_more h hrow hsplit.front
  longest := by
    intro other others hother
    obtain rfl | ⟨-, rfl | ⟨row', numbers', rest', hrest, rfl, -, hfront⟩⟩ :=
      hother.cases_run h.digit (stops_dot rest)
    · exact Nat.zero_le _
    · simp
    · cases hrest
      have hshorter := hsplit.longest row' numbers' hfront
      simpa using hshorter
  kept := by
    intro hfits
    rw [overflows_more hrow] at hfits
    rw [List.append_assoc, List.cons_append, ← hsplit.kept hfits]
  lost := by
    intro hover
    rw [overflows_more hrow] at hover
    rw [List.append_assoc, List.cons_append, ← hsplit.lost hover]

/-- If the number behind a dot is too large, then the row ends in front of the dot and the dot is
lost. -/
theorem isSplit_overflow {large : List Char} (h : IsDecimal digits n) (hne : large ≠ [])
    (hlarge : ∀ c ∈ large, c.isDigit = true) (hstops : Stops rest)
    (hbound : partBound ≤ numberOf large) :
    IsSplit (digits ++ '.' :: (large ++ rest)) digits [n] (large ++ rest) where
  front := isFront_last h (stops_dot _)
  longest := by
    intro other others hother
    obtain rfl | ⟨-, rfl | ⟨row', numbers', rest', hrest, rfl, hrow', hfront⟩⟩ :=
      hother.cases_run h.digit (stops_dot _)
    · exact Nat.zero_le _
    · exact le_rfl
    · cases hrest
      obtain rfl | ⟨hdecimal, -⟩ := hfront.cases_run hlarge hstops
      · exact absurd rfl hrow'
      · exact absurd hdecimal.bounded (by omega)
  kept := fun hfits => absurd ⟨h.ne_nil, large, rest, rfl, hne, hlarge, hstops, hbound⟩ hfits
  lost := fun _ => rfl

/-- If nothing can be cut off behind a dot and yet a digit stands there, then the number is too
large. -/
theorem IsSplit.overflow {c : Char} (h : IsDecimal digits n) (hc : c.isDigit = true)
    (hsplit : IsSplit (c :: rest) [] numbers qualifier) :
    IsSplit (digits ++ '.' :: c :: rest) digits (n :: numbers) qualifier := by
  have hnumbers : numbers = [] := by
    obtain ⟨-, hnil⟩ | hrow := hsplit.front.numerals
    · exact hnil
    · obtain ⟨c, others, hnil, -⟩ := hrow.head
      cases hnil
  have hqualifier : c :: rest = qualifier := hsplit.kept (not_overflows_nil _)
  subst hnumbers hqualifier
  obtain ⟨large, behind, hrun, hlarge, hstops⟩ := exists_run (c :: rest)
  have hne : large ≠ [] := by
    rintro rfl
    rw [← List.nil_append behind, ← hrun] at hstops
    exact not_stops_cons hc hstops
  have hbound : partBound ≤ numberOf large := by
    by_contra hfits
    -- The number would be a longer row than the empty one.
    have hfront := isFront_last ⟨hne, hlarge, rfl, not_le.mp hfits⟩ hstops
    rw [← hrun] at hfront
    exact hne (List.eq_nil_of_length_eq_zero (Nat.le_zero.mp (hsplit.longest large _ hfront)))
  rw [hrun]
  exact isSplit_overflow h hne hlarge hstops hbound

end Splits

section Parsing

/-- With fuel for the whole text, the parts and the qualifier are those of its split. -/
theorem exists_isSplit (hfuel : text.length < fuel) :
    ∃ row, IsSplit text row (splitParts fuel text).1 (splitParts fuel text).2 := by
  induction fuel generalizing text with
  | zero => exact absurd hfuel (Nat.not_lt_zero _)
  | succ fuel ih =>
    obtain ⟨digits, rest, rfl, hdigits, hstops⟩ := exists_run text
    by_cases hnone : digits = [] ∨ partBound ≤ numberOf digits
    · rw [splitParts_nil hdigits hstops hnone]
      exact ⟨[], isSplit_nil hdigits hstops hnone⟩
    obtain ⟨hne, hbound⟩ := not_or.mp hnone
    have hdecimal : IsDecimal digits (numberOf digits) := ⟨hne, hdigits, rfl, not_le.mp hbound⟩
    by_cases hlast : ∀ rest', rest = '.' :: rest' → Stops rest'
    · rw [splitParts_last hdecimal hstops hlast]
      exact ⟨digits, isSplit_last hdecimal hstops hlast⟩
    -- A digit behind the dot: the row goes on, or the number there is too large.
    simp only [Stops, not_forall, Bool.not_eq_false] at hlast
    obtain ⟨_, rfl, c, hhead, hc⟩ := hlast
    obtain ⟨rest, rfl⟩ := List.head?_eq_some_iff.mp hhead
    rw [splitParts_more hdecimal hc]
    have hshorter : (c :: rest).length < fuel := by
      simp only [List.length_append, List.length_cons] at hfuel ⊢
      omega
    obtain ⟨row, hsplit⟩ := ih hshorter
    by_cases hrow : row = []
    · subst hrow
      exact ⟨digits, hsplit.overflow hdecimal hc⟩
    · exact ⟨_, hsplit.more hdecimal hrow⟩

/-- Every text is split at the longest row of numbers in front of it, and the parts are the values
in this row. The rest is the qualifier if and only if no dot with a number that is too large
follows; such a dot is lost. -/
theorem parse_splits_behind_longest_row (text : String) :
    ∃ row, IsFront text.toList row (parse text).parts ∧
      (∀ other numbers, IsFront text.toList other numbers → other.length ≤ row.length) ∧
      (text.toList = row ++ (parse text).qualifier.toList ↔ ¬ Overflows text.toList row) ∧
      (Overflows text.toList row → text.toList = row ++ '.' :: (parse text).qualifier.toList) ∧
      (parse text).text = text := by
  obtain ⟨row, hfront, hlongest, hkept, hlost⟩ :=
    exists_isSplit (Nat.lt_succ_self text.toList.length)
  have hparse : parse text = ⟨text, (splitParts (text.toList.length + 1) text.toList).1,
    String.ofList (splitParts (text.toList.length + 1) text.toList).2⟩ := rfl
  rw [hparse]
  simp only [String.toList_ofList]
  refine ⟨row, hfront, hlongest, ⟨?_, hkept⟩, hlost, trivial⟩
  intro hkeeps hover
  have hlength := congrArg List.length (hkeeps.symm.trans (hlost hover))
  simp at hlength

/-- The dot in front of a number that is too large belongs neither to the row nor to the
qualifier. -/
theorem parse_loses_dot :
    parse "1.18446744073709551616" = ⟨"1.18446744073709551616", [1], "18446744073709551616"⟩ ∧
      ¬ ∃ row numbers, IsFront "1.18446744073709551616".toList row numbers ∧
        "1.18446744073709551616".toList =
          row ++ (parse "1.18446744073709551616").qualifier.toList := by
  have hparse : parse "1.18446744073709551616" = ⟨"1.18446744073709551616", [1],
      "18446744073709551616"⟩ := by
    decide +kernel
  refine ⟨hparse, ?_⟩
  rintro ⟨row, numbers, hfront, htext⟩
  -- The row would have to be `1.`, with a digit behind it.
  rw [hparse] at htext
  have hrow : row ≠ [] := by
    rintro rfl
    exact absurd htext (by decide)
  have hdigit := hfront.whole _ hrow htext '1' rfl
  exact absurd hdigit (by decide)

end Parsing

end BuildScript.Version
