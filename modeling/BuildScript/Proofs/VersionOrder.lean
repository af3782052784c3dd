import BuildScript.Proofs.Numerals
import Mathlib.Data.Prod.Lex
import Mathlib.Data.String.Basic
import Mathlib.Order.PiLex

/-!
# Versions in their order

Two versions compare as their keys do. A key holds the numbers with zeros behind them, whether the
version is a release, its qualifier and its text, and keys are ordered by the first of these that
differs.
-/

namespace BuildScript.Version

section Padded

variable {a b : Nat} {as bs : List Nat}

/-- Sequences of numbers in lexicographic order: the first number that differs decides. -/
def Places : Type := Lex (ℕ → ℕ)

noncomputable instance : LinearOrder Places := inferInstanceAs (LinearOrder (Lex (ℕ → ℕ)))

def padded (parts : List Nat) : Places := toLex fun i => parts.getD i 0

theorem padded_lt_iff : padded as < padded bs ↔
    ∃ i, (∀ j < i, as.getD j 0 = bs.getD j 0) ∧ as.getD i 0 < bs.getD i 0 :=
  Iff.rfl

theorem padded_eq_iff : padded as = padded bs ↔ ∀ i, as.getD i 0 = bs.getD i 0 := by
  have hinj : padded as = padded bs ↔ (fun i => as.getD i 0) = fun i => bs.getD i 0 := toLex_inj
  rw [hinj, funext_iff]

theorem padded_zero : padded [0] = padded [] := by
  rw [padded_eq_iff]
  intro i
  cases i <;> simp

theorem padded_cons_eq : padded (a :: as) = padded (b :: bs) ↔ a = b ∧ padded as = padded bs := by
  simp only [padded_eq_iff]
  constructor
  · intro h
    exact ⟨h 0, fun i => h (i + 1)⟩
  · rintro ⟨hfirst, hrest⟩ (_ | i)
    · exact hfirst
    · exact hrest i

theorem padded_cons_lt :
    padded (a :: as) < padded (b :: bs) ↔ a < b ∨ a = b ∧ padded as < padded bs := by
  simp only [padded_lt_iff]
  constructor
  · rintro ⟨_ | i, hbefore, hlt⟩
    · exact Or.inl hlt
    · refine Or.inr ⟨hbefore 0 (Nat.succ_pos i), i, fun j hj => ?_, hlt⟩
      exact hbefore (j + 1) (Nat.succ_lt_succ hj)
  · rintro (hlt | ⟨hfirst, i, hbefore, hlt⟩)
    · exact ⟨0, fun j hj => absurd hj (Nat.not_lt_zero j), hlt⟩
    · refine ⟨i + 1, ?_, hlt⟩
      rintro (_ | j) hj
      · exact hfirst
      · exact hbefore j (Nat.lt_of_succ_lt_succ hj)

theorem compares_cons {o : Ordering} (h : o.Compares (padded as) (padded bs)) :
    ((compare a b).then o).Compares (padded (a :: as)) (padded (b :: bs)) := by
  cases hfirst : compare a b with
  | lt => exact padded_cons_lt.mpr (Or.inl (compare_lt_iff_lt.mp hfirst))
  | gt => exact padded_cons_lt.mpr (Or.inl (compare_gt_iff_gt.mp hfirst))
  | eq =>
    have heq : a = b := compare_eq_iff_eq.mp hfirst
    cases o with
    | lt => exact padded_cons_lt.mpr (Or.inr ⟨heq, h⟩)
    | eq => exact padded_cons_eq.mpr ⟨heq, h⟩
    | gt => exact padded_cons_lt.mpr (Or.inr ⟨heq.symm, h⟩)

end Padded

theorem compareParts_compares (left right : List Nat) :
    (compareParts left right).Compares (padded left) (padded right) := by
  fun_induction compareParts left right with
  | case1 => rfl
  | case2 b bs ih =>
    rw [← padded_zero]
    exact compares_cons ih
  | case3 a as ih =>
    rw [← padded_zero]
    exact compares_cons ih
  | case4 a as b bs ih => exact compares_cons ih

theorem compares_then {α β : Type} [LT α] [LT β] {a b : α} {c d : β} {o p : Ordering}
    (h : o.Compares a b) (h' : p.Compares c d) :
    (o.then p).Compares (toLex (a, c)) (toLex (b, d)) := by
  cases o with
  | lt => exact Prod.Lex.toLex_lt_toLex.mpr (Or.inl h)
  | gt => exact Prod.Lex.toLex_lt_toLex.mpr (Or.inl h)
  | eq =>
    cases h
    cases p with
    | lt => exact Prod.Lex.toLex_lt_toLex.mpr (Or.inr ⟨rfl, h'⟩)
    | eq => exact congrArg (fun e => toLex (a, e)) h'
    | gt => exact Prod.Lex.toLex_lt_toLex.mpr (Or.inr ⟨rfl, h'⟩)

theorem compareRelease_compares (left right : Bool) :
    (compareRelease left right).Compares (!left) (!right) := by
  cases left <;> cases right <;> simp [compareRelease]

theorem compareText_compares (left right : String) :
    (compareText left right).Compares left right := by
  have hcompare : compare left right = compareText left right :=
    LinearOrder.compare_eq_compareOfLessAndEq left right
  exact (compare_iff left right).mp hcompare

/-- What decides the order of versions, in this sequence. -/
def key (v : Version) : Places ×ₗ Bool ×ₗ String ×ₗ String :=
  toLex (padded v.parts, toLex (!v.isPreRelease, toLex (v.qualifier, v.text)))

variable {v w : Version}

theorem cmp_compares (v w : Version) : (cmp v w).Compares v.key w.key :=
  compares_then (compareParts_compares v.parts w.parts) <|
    compares_then (compareRelease_compares v.isPreRelease w.isPreRelease) <|
      compares_then (compareText_compares v.qualifier w.qualifier)
        (compareText_compares v.text w.text)

theorem isLE_cmp_iff : (cmp v w).isLE = true ↔ v.key ≤ w.key := by
  rw [← (cmp_compares v w).ne_gt]
  cases cmp v w <;> simp

theorem text_eq_of_key (h : v.key = w.key) : v.text = w.text :=
  congrArg (fun k => (ofLex (ofLex (ofLex k).2).2).2) h

theorem eq_of_key_parse {s t : String} (h : (parse s).key = (parse t).key) :
    s = t := text_eq_of_key h

theorem key_row_lt_iff (p q : Row false) :
    (parse (String.ofList p.text)).key < (parse (String.ofList q.text)).key ↔
    padded p.numbers < padded q.numbers ∨
      padded p.numbers = padded q.numbers ∧ String.ofList p.text < String.ofList q.text := by
  rw [parse_row, parse_row]
  unfold key
  simp [Prod.Lex.toLex_lt_toLex, isPreRelease]

/-- Comparing texts as versions orders all texts, without ties. Rows of digits are ordered by their
numbers, and by the texts if all numbers agree. -/
theorem cmp_parse_is_linear :
    IsLinearOrder String (fun s t => (cmp (parse s) (parse t)).isLE = true) ∧
      (∀ s t, cmp (parse s) (parse t) = .eq ↔ s = t) ∧
      (∀ s t, cmp (parse t) (parse s) = (cmp (parse s) (parse t)).swap) ∧
      ∀ p q : Row false,
        (cmp (parse (String.ofList p.text)) (parse (String.ofList q.text)) = .lt ↔
          padded p.numbers < padded q.numbers ∨
            padded p.numbers = padded q.numbers ∧ String.ofList p.text < String.ofList q.text) ∧
        (cmp (parse (String.ofList p.text)) (parse (String.ofList q.text)) = .gt ↔
          padded q.numbers < padded p.numbers ∨
            padded q.numbers = padded p.numbers ∧ String.ofList q.text < String.ofList p.text) := by
  refine ⟨?_, ?_, ?_, ?_⟩
  · simp only [isLE_cmp_iff]
    exact {
      refl := fun s => le_rfl
      trans := fun s t u hst htu => hst.trans htu
      antisymm := fun s t hst hts => eq_of_key_parse (hst.antisymm hts)
      total := fun s t => le_total _ _ }
  · intro s t
    rw [(cmp_compares (parse s) (parse t)).eq_eq]
    constructor
    · exact eq_of_key_parse
    · rintro rfl
      rfl
  · intro s t
    exact (cmp_compares (parse t) (parse s)).inj (cmp_compares (parse s) (parse t)).swap
  · intro p q
    rw [(cmp_compares _ _).eq_lt, (cmp_compares _ _).eq_gt]
    exact ⟨key_row_lt_iff p q, key_row_lt_iff q p⟩

end BuildScript.Version
