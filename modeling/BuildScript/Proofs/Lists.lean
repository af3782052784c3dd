import Mathlib.Data.List.TakeWhile

/-!
# Lists

Facts on lists that are used for texts, rows of statements and directories alike.
-/

namespace BuildScript

variable {α β ε : Type} {a : α} {p : α → Bool}

/-- A member of a row that was appended to another is in the one or in the other. -/
theorem exists_of_append_eq {old news before after : List α}
    (h : before ++ a :: after = old ++ news) :
    (∃ rest, old = before ++ a :: rest ∧ after = rest ++ news) ∨
      ∃ first, before = old ++ first ∧ news = first ++ a :: after := by
  rcases List.append_eq_append_iff.mp h with ⟨more, rfl, hmore⟩ | ⟨more, rfl, hmore⟩
  · cases more with
    | nil => exact .inr ⟨[], by simp, by simpa using hmore.symm⟩
    | cons c more =>
      obtain ⟨rfl, rfl⟩ := List.cons.inj hmore
      exact .inl ⟨more, rfl, rfl⟩
  · exact .inr ⟨more, rfl, hmore⟩

theorem flatMap_filter_ne_nil [DecidableEq β] (f : α → List β) (l : List α) :
    (l.filter fun a => f a ≠ []).flatMap f = l.flatMap f := by
  induction l with
  | nil => rfl
  | cons a l ih =>
    by_cases ha : f a = []
    · rw [List.filter_cons_of_neg (by simpa using ha), ih, List.flatMap_cons, ha, List.nil_append]
    · rw [List.filter_cons_of_pos (by simpa using ha), List.flatMap_cons, ih, List.flatMap_cons]

theorem mem_dropWhile {l : List α} (hmem : a ∈ l) (ha : p a = false) : a ∈ l.dropWhile p := by
  rw [← List.takeWhile_append_dropWhile (p := p) (l := l), List.mem_append] at hmem
  refine hmem.resolve_left fun htake => ?_
  rw [List.mem_takeWhile_imp htake] at ha
  cases ha

theorem length_takeWhile_le (p : α → Bool) (l : List α) : (l.takeWhile p).length ≤ l.length :=
  (List.takeWhile_sublist p).length_le

/-- If less than the front is taken, then it does not matter what stands behind. -/
theorem length_takeWhile_append {front back : List α}
    (h : ((front ++ back).takeWhile p).length < front.length) (other : List α) :
    ((front ++ other).takeWhile p).length = ((front ++ back).takeWhile p).length := by
  induction front with
  | nil => simp at h
  | cons c front ih =>
    cases hc : p c with
    | true =>
      simp only [List.cons_append, List.takeWhile_cons, hc, if_true, List.length_cons] at h ⊢
      rw [ih (by omega)]
    | false => simp [hc]

theorem getD_take (l : List α) (n i : Nat) (a : α) :
    (l.take n).getD i a = if i < n then l.getD i a else a := by
  rw [List.getD_eq_getElem?_getD, List.getD_eq_getElem?_getD, List.getElem?_take]
  split_ifs <;> rfl

/-- If going through a list fails, then one of the steps did. -/
theorem exists_of_foldlM_error {step : β → α → Except ε β} {l : List α} {b : β} {error : ε}
    (h : l.foldlM step b = .error error) : ∃ a ∈ l, ∃ b', step b' a = .error error := by
  induction l generalizing b with
  | nil => cases h
  | cons a l ih =>
    rw [List.foldlM_cons] at h
    cases hstep : step b a with
    | error error' =>
      obtain rfl : error' = error := by simpa [hstep, bind, Except.bind] using h
      exact ⟨a, List.mem_cons_self, b, hstep⟩
    | ok middle =>
      have hrest : l.foldlM step middle = .error error := by
        simpa [hstep, bind, Except.bind] using h
      obtain ⟨later, hlater, hfails⟩ := ih hrest
      exact ⟨later, List.mem_cons_of_mem a hlater, hfails⟩

end BuildScript
