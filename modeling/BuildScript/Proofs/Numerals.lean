import BuildScript.Proofs.Cutting
import BuildScript.Version.Selector

/-!
# Rows of numbers

Versions and selectors hold numbers with dots between them. A version is read as its numbers only if
they are plain digits. A selector takes a plus sign in front of a number, too.
-/

namespace BuildScript.Version

structure IsDecimal (text : List Char) (n : Nat) : Prop where
  ne_nil : text ≠ []
  digit : ∀ c ∈ text, c.isDigit = true
  value : numberOf text = n
  bounded : n < partBound

/-- A number as it is written. If signs are allowed, a plus sign may stand in front of it. -/
inductive IsNumeral (signs : Bool) : List Char → Nat → Prop
  | plain {text n} : IsDecimal text n → IsNumeral signs text n
  | signed {text n} : signs = true → IsDecimal text n → IsNumeral signs ('+' :: text) n

inductive IsRow (signs : Bool) : List Char → List Nat → Prop
  | last {text n} : IsNumeral signs text n → IsRow signs text [n]
  | more {text n rest numbers} : IsNumeral signs text n → IsRow signs rest numbers →
      IsRow signs (text ++ '.' :: rest) (n :: numbers)

structure Row (signs : Bool) where
  text : List Char
  numbers : List Nat
  isRow : IsRow signs text numbers

variable {signs signs' : Bool} {text : List Char} {n : Nat} {numbers : List Nat}

theorem IsNumeral.symbol (h : IsNumeral signs text n) :
    ∀ c ∈ text, c.isDigit = true ∨ signs = true ∧ c = '+' := by
  cases h with
  | plain h => exact fun c hc => Or.inl (h.digit c hc)
  | signed hsigns h =>
    rw [List.forall_mem_cons]
    exact ⟨Or.inr ⟨hsigns, rfl⟩, fun c hc => Or.inl (h.digit c hc)⟩

theorem IsNumeral.head (h : IsNumeral signs text n) :
    ∃ c rest, text = c :: rest ∧ (c.isDigit = true ∨ c = '+') := by
  cases h with
  | plain h =>
    obtain ⟨c, rest, rfl⟩ := List.exists_cons_of_ne_nil h.ne_nil
    exact ⟨c, rest, rfl, Or.inl (h.digit c List.mem_cons_self)⟩
  | signed _ h => exact ⟨'+', _, rfl, Or.inr rfl⟩

theorem IsDecimal.last (h : IsDecimal text n) :
    ∃ front c, text = front ++ [c] ∧ c.isDigit = true := by
  refine ⟨text.dropLast, text.getLast h.ne_nil, (List.dropLast_concat_getLast h.ne_nil).symm, ?_⟩
  exact h.digit _ (List.getLast_mem h.ne_nil)

theorem IsNumeral.last (h : IsNumeral signs text n) :
    ∃ front c, text = front ++ [c] ∧ c.isDigit = true := by
  cases h with
  | plain h => exact h.last
  | signed _ h =>
    obtain ⟨front, c, rfl, hc⟩ := h.last
    exact ⟨'+' :: front, c, rfl, hc⟩

theorem IsNumeral.isDecimal (h : IsNumeral false text n) : IsDecimal text n := by
  cases h with
  | plain h => exact h
  | signed hsigns => cases hsigns

theorem IsNumeral.bounded (h : IsNumeral signs text n) : n < partBound := by
  cases h with
  | plain h => exact h.bounded
  | signed _ h => exact h.bounded

theorem IsNumeral.dot_not_mem (h : IsNumeral signs text n) : '.' ∉ text := by
  intro hdot
  obtain hdigit | ⟨-, hplus⟩ := h.symbol _ hdot
  · exact absurd hdigit (by decide)
  · exact absurd hplus (by decide)

namespace IsRow

theorem symbol (h : IsRow signs text numbers) :
    ∀ c ∈ text, c.isDigit = true ∨ c = '.' ∨ signs = true ∧ c = '+' := by
  induction h with
  | last h =>
    intro c hc
    obtain hdigit | hplus := h.symbol c hc
    · exact Or.inl hdigit
    · exact Or.inr (Or.inr hplus)
  | more h _ ih =>
    rw [List.forall_mem_append, List.forall_mem_cons]
    refine ⟨fun c hc => ?_, Or.inr (Or.inl rfl), ih⟩
    obtain hdigit | hplus := h.symbol c hc
    · exact Or.inl hdigit
    · exact Or.inr (Or.inr hplus)

theorem not_mem (h : IsRow signs text numbers) {c : Char} (hdigit : c.isDigit = false)
    (hdot : c ≠ '.') (hplus : c ≠ '+') : c ∉ text := by
  intro hc
  obtain hc | hc | ⟨-, hc⟩ := h.symbol c hc
  · rw [hdigit] at hc
    cases hc
  · exact hdot hc
  · exact hplus hc

theorem plus_not_mem (h : IsRow false text numbers) : '+' ∉ text := by
  intro hplus
  obtain hc | hc | ⟨hc, -⟩ := h.symbol _ hplus
  · exact absurd hc (by decide)
  · exact absurd hc (by decide)
  · cases hc

theorem head (h : IsRow signs text numbers) :
    ∃ c rest, text = c :: rest ∧ (c.isDigit = true ∨ c = '+') := by
  cases h with
  | last h => exact h.head
  | more h _ =>
    obtain ⟨c, rest, rfl, hc⟩ := h.head
    exact ⟨c, _, rfl, hc⟩

theorem getLast (h : IsRow signs text numbers) :
    ∃ front c, text = front ++ [c] ∧ c.isDigit = true := by
  induction h with
  | last h => exact h.last
  | @more text _ _ _ _ _ ih =>
    obtain ⟨front, c, rfl, hc⟩ := ih
    exact ⟨text ++ '.' :: front, c, by simp, hc⟩

theorem ne_nil (h : IsRow signs text numbers) : numbers ≠ [] := by
  cases h <;> exact List.cons_ne_nil _ _

theorem bounded (h : IsRow signs text numbers) : ∀ n ∈ numbers, n < partBound := by
  induction h with
  | last h => exact List.forall_mem_singleton.mpr h.bounded
  | more h _ ih => exact List.forall_mem_cons.mpr ⟨h.bounded, ih⟩

/-- Without a plus sign in it, a row is one whether or not signs are allowed. -/
theorem congr_signs (h : IsRow signs text numbers) (hplus : '+' ∉ text) :
    IsRow signs' text numbers := by
  have hnumeral : ∀ {text n}, IsNumeral signs text n → '+' ∉ text → IsNumeral signs' text n := by
    intro text n h hplus
    cases h with
    | plain h => exact .plain h
    | signed => exact absurd List.mem_cons_self hplus
  induction h with
  | last h => exact .last (hnumeral h hplus)
  | more h _ ih =>
    rw [List.mem_append, List.mem_cons, not_or, not_or] at hplus
    exact .more (hnumeral h hplus.1) (ih hplus.2.2)

end IsRow

section Selectors

open Selection

theorem isDecimal_iff : IsDecimal text n ↔
    (text.isEmpty || !text.all Char.isDigit || decide (numberOf text ≥ partBound)) = false ∧
      numberOf text = n := by
  simp only [Bool.or_eq_false_iff, Bool.not_eq_false', List.isEmpty_eq_false_iff, List.all_eq_true,
    decide_eq_false_iff_not, ge_iff_le, not_le]
  constructor
  · rintro ⟨hne, hdigit, rfl, hbound⟩
    exact ⟨⟨⟨hne, hdigit⟩, hbound⟩, rfl⟩
  · rintro ⟨⟨⟨hne, hdigit⟩, hbound⟩, rfl⟩
    exact ⟨hne, hdigit, rfl, hbound⟩

theorem number?_eq_some : number? text = some n ↔ IsNumeral true text n := by
  have hread : ∀ digits : List Char,
      (if digits.isEmpty || !digits.all Char.isDigit || numberOf digits ≥ partBound then none
        else some (numberOf digits)) = some n ↔ IsDecimal digits n := by
    intro digits
    rw [isDecimal_iff]
    split_ifs with hbad
    · simp [hbad]
    · simp [eq_false_of_ne_true hbad]
  unfold number?
  simp only [hread]
  constructor
  · intro h
    split at h
    · exact .signed rfl h
    · exact .plain h
  · intro h
    cases h with
    | plain h =>
      split
      · exact absurd (h.digit '+' List.mem_cons_self) (by decide)
      · exact h
    | signed _ h => exact h

theorem numbers?_of_dot_not_mem (h : '.' ∉ text) :
    numbers? text = (number? text).map fun n => [n] := by
  rw [numbers?, Text.fields_of_not_mem h]
  cases hnumber : number? text <;> simp [hnumber]

theorem numbers?_append (h : '.' ∉ text) (rest : List Char) :
    numbers? (text ++ '.' :: rest) = (number? text).bind fun n => (numbers? rest).map (n :: ·) := by
  rw [numbers?, Text.fields_append h, List.mapM_cons, numbers?]
  cases number? text with
  | none => rfl
  | some n => cases (Text.fields '.' rest).mapM number? <;> rfl

/-- Numbers are read exactly from the rows in which signs are allowed. -/
theorem numbers?_eq_some : numbers? text = some numbers ↔ IsRow true text numbers := by
  constructor
  · intro h
    -- by the number of dots: the first one ends a number and leaves a shorter row
    induction hlength : text.length using Nat.strong_induction_on generalizing text numbers with
    | _ length ih =>
      by_cases hdot : '.' ∈ text
      · obtain ⟨front, rest, rfl, hfront⟩ := List.eq_append_cons_of_mem hdot
        rw [numbers?_append hfront, Option.bind_eq_some_iff] at h
        obtain ⟨n, hn, h⟩ := h
        obtain ⟨others, hothers, rfl⟩ := Option.map_eq_some_iff.mp h
        have hshorter : rest.length < length := by
          rw [← hlength, List.length_append, List.length_cons]
          omega
        exact .more (number?_eq_some.mp hn) (ih rest.length hshorter hothers rfl)
      · rw [numbers?_of_dot_not_mem hdot] at h
        obtain ⟨n, hn, rfl⟩ := Option.map_eq_some_iff.mp h
        exact .last (number?_eq_some.mp hn)
  · intro h
    induction h with
    | last h => rw [numbers?_of_dot_not_mem h.dot_not_mem, number?_eq_some.mpr h, Option.map_some]
    | more h _ ih =>
      rw [numbers?_append h.dot_not_mem, number?_eq_some.mpr h, ih]
      rfl

end Selectors

section Splitting

variable {digits rest : List Char} {fuel : Nat}

def Stops (text : List Char) : Prop := ∀ c, text.head? = some c → c.isDigit = false

theorem stops_dot (rest : List Char) : Stops ('.' :: rest) := by
  rintro c ⟨⟩
  decide

theorem takeWhile_run (hdigits : ∀ c ∈ digits, c.isDigit = true) (hstops : Stops rest) :
    (digits ++ rest).takeWhile Char.isDigit = digits := by
  have hnone : rest.takeWhile Char.isDigit = [] := by
    cases rest with
    | nil => rfl
    | cons c rest => exact List.takeWhile_cons_of_neg (by simp [hstops c rfl])
  rw [List.takeWhile_append_of_pos hdigits, hnone, List.append_nil]

theorem splitParts_nil (hdigits : ∀ c ∈ digits, c.isDigit = true) (hstops : Stops rest)
    (hnone : digits = [] ∨ partBound ≤ numberOf digits) :
    splitParts (fuel + 1) (digits ++ rest) = ([], digits ++ rest) := by
  simp [splitParts, takeWhile_run hdigits hstops, hnone]

theorem splitParts_more {c : Char} (h : IsDecimal digits n) (hc : c.isDigit = true) :
    splitParts (fuel + 1) (digits ++ '.' :: c :: rest) =
      (n :: (splitParts fuel (c :: rest)).1, (splitParts fuel (c :: rest)).2) := by
  obtain ⟨hne, hdigits, rfl, hbound⟩ := h
  simp [splitParts, takeWhile_run hdigits (stops_dot _), hne, not_le.mpr hbound, hc]

theorem splitParts_last (h : IsDecimal digits n) (hstops : Stops rest)
    (hlast : ∀ rest', rest = '.' :: rest' → Stops rest') :
    splitParts (fuel + 1) (digits ++ rest) = ([n], rest) := by
  obtain ⟨hne, hdigits, rfl, hbound⟩ := h
  simp only [splitParts, takeWhile_run hdigits hstops, List.drop_left]
  rw [if_neg (by simp [hne, not_le.mpr hbound])]
  split
  · rename_i c rest'
    rw [if_neg]
    simp [hlast _ rfl c rfl]
  · rfl

theorem splitParts_of_isRow (h : IsRow false text numbers) (hfuel : text.length < fuel) :
    splitParts fuel text = (numbers, []) := by
  induction h generalizing fuel with
  | @last text n h =>
    obtain ⟨fuel, rfl⟩ : ∃ k, fuel = k + 1 := ⟨fuel - 1, by omega⟩
    have hsplit := @splitParts_last n text [] fuel h.isDecimal (by simp [Stops]) (by simp)
    rwa [List.append_nil] at hsplit
  | @more text n rest numbers h hrest ih =>
    obtain ⟨fuel, rfl⟩ : ∃ k, fuel = k + 1 := ⟨fuel - 1, by omega⟩
    have hplus := hrest.plus_not_mem
    obtain ⟨c, others, rfl, hc | rfl⟩ := hrest.head
    · have hshorter : (c :: others).length < fuel := by
        simp only [List.length_append, List.length_cons] at hfuel ⊢
        omega
      rw [splitParts_more h.isDecimal hc, ih hshorter]
    · exact absurd List.mem_cons_self hplus

end Splitting

/-- A row of plain digits is a version without a qualifier. -/
theorem parse_row (p : Row false) :
    parse (String.ofList p.text) = ⟨String.ofList p.text, p.numbers, ""⟩ := by
  have hsplit := splitParts_of_isRow p.isRow (Nat.lt_succ_self p.text.length)
  simp only [parse, String.toList_ofList, hsplit]

end BuildScript.Version
