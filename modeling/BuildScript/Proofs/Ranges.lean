import BuildScript.Proofs.SelectorGrammar
import BuildScript.Proofs.VersionOrder

/-!
# Ranges of versions

The shorthands for ranges are kept as two ends, of which the upper one is a row of numbers with the
last increased by one. Below it are exactly the versions whose first numbers do not exceed the row.
So each shorthand allows the versions that agree with its leading numbers or lie between its rows.
-/

namespace BuildScript

namespace Version

variable {as bs : List Nat} {n : Nat}

theorem padded_cons_le {a b : Nat} :
    padded (a :: as) ≤ padded (b :: bs) ↔ a < b ∨ a = b ∧ padded as ≤ padded bs := by
  rw [le_iff_lt_or_eq, padded_cons_lt, padded_cons_eq, le_iff_lt_or_eq]
  tauto

theorem padded_take_le (parts : List Nat) (n : Nat) : padded (parts.take n) ≤ padded parts := by
  rw [← not_lt, padded_lt_iff]
  rintro ⟨i, -, hlt⟩
  rw [getD_take] at hlt
  split_ifs at hlt <;> omega

theorem padded_take_mono (h : padded as ≤ padded bs) (n : Nat) :
    padded (as.take n) ≤ padded (bs.take n) := by
  rw [← not_lt, padded_lt_iff] at h ⊢
  rintro ⟨i, hbefore, hlt⟩
  have hi : i < n := by
    by_contra hi
    rw [getD_take, getD_take, if_neg hi, if_neg hi] at hlt
    omega
  refine h ⟨i, fun j hj => ?_, ?_⟩
  · have heq := hbefore j hj
    rwa [getD_take, getD_take, if_pos (hj.trans hi), if_pos (hj.trans hi)] at heq
  · rwa [getD_take, getD_take, if_pos hi, if_pos hi] at hlt

theorem padded_take_eq_iff :
    padded (as.take n) = padded (bs.take n) ↔ ∀ i < n, as.getD i 0 = bs.getD i 0 := by
  rw [padded_eq_iff]
  constructor
  · intro h i hi
    have heq := h i
    rwa [getD_take, getD_take, if_pos hi, if_pos hi] at heq
  · intro h i
    rw [getD_take, getD_take]
    split_ifs with hi
    · exact h i hi
    · rfl

theorem padded_nil_le (parts : List Nat) : padded [] ≤ padded parts := padded_take_le parts 0

/-- An empty row is as good as a zero. -/
theorem exists_cons_padded (parts : List Nat) :
    ∃ a rest, padded parts = padded (a :: rest) ∧ ∀ n,
      padded (parts.take (n + 1)) = padded (a :: rest.take n) := by
  cases parts with
  | nil =>
    exact ⟨0, [], padded_zero.symm, fun n => by rw [List.take_nil, List.take_nil, padded_zero]⟩
  | cons a rest => exact ⟨a, rest, rfl, fun n => rfl⟩

/-- To stay below a row whose last number was increased is not to exceed the row with its first
numbers. -/
theorem padded_lt_bumped (parts front : List Nat) (n : Nat) :
    padded parts < padded (front ++ [n + 1]) ↔
      padded (parts.take (front.length + 1)) ≤ padded (front ++ [n]) := by
  induction front generalizing parts with
  | nil =>
    obtain ⟨a, rest, hparts, htake⟩ := exists_cons_padded parts
    have hrest : ¬ padded rest < padded [] := not_lt.mpr (padded_nil_le rest)
    have hself : padded (rest.take 0) ≤ padded [] := le_rfl
    rw [List.length_nil, hparts, htake, List.nil_append, List.nil_append, padded_cons_lt,
      padded_cons_le]
    simp only [hrest, hself, and_false, and_true, or_false]
    omega
  | cons b front ih =>
    obtain ⟨a, rest, hparts, htake⟩ := exists_cons_padded parts
    rw [List.length_cons, hparts, htake, List.cons_append, List.cons_append, padded_cons_lt,
      padded_cons_le, ih]

/-- A version from `p` on agrees with the first numbers of `p` if these do not exceed them. -/
theorem between_iff_agrees {p parts : List Nat} (k : Nat) :
    padded p ≤ padded parts ∧ padded (parts.take k) ≤ padded (p.take k) ↔
      padded p ≤ padded parts ∧ ∀ i < k, parts.getD i 0 = p.getD i 0 := by
  rw [← padded_take_eq_iff]
  constructor
  · rintro ⟨hlower, hupper⟩
    exact ⟨hlower, hupper.antisymm (padded_take_mono hlower k)⟩
  · rintro ⟨hlower, heq⟩
    exact ⟨hlower, heq.le⟩

/-- A number stands at or in front of the first that is not zero if there are only zeros in front of
it. -/
theorem le_findIdx_iff {numbers : List Nat} {i : Nat} (hi : i < numbers.length) :
    i ≤ numbers.findIdx (· ≠ 0) ↔ ∀ j < i, numbers.getD j 0 = 0 := by
  constructor
  · intro hindex j hj
    have hzero := List.not_of_lt_findIdx (hj.trans_le hindex)
    simpa [List.getElem?_eq_getElem (hj.trans hi)] using hzero
  · intro hzeros
    refine List.le_findIdx_of_not hi fun j hj => ?_
    have hzero := hzeros j hj
    simpa [List.getElem?_eq_getElem (hj.trans hi)] using hzero

end Version

namespace Selection

open Version

theorem above_iff {parts lower : List Nat} :
    above parts (some ⟨lower, true⟩) = true ↔ padded lower ≤ padded parts := by
  rw [← (compareParts_compares parts lower).ne_lt]
  cases h : compareParts parts lower <;> simp [above, h]

theorem below_iff {parts upper : List Nat} :
    below parts (some ⟨upper, false⟩) = true ↔ padded parts < padded upper := by
  rw [← (compareParts_compares parts upper).eq_lt]
  cases h : compareParts parts upper <;> simp [below, h]

namespace Shorthand

variable {signs : Bool}

/-- The number that is increased for the upper end. -/
def incremented (f : Shorthand signs) : Nat := f.limit.getLast f.limit_ne_nil

theorem incremented_lt (f : Shorthand signs) : f.incremented < partBound := by
  have hmem : f.incremented ∈ f.limit := List.getLast_mem f.limit_ne_nil
  cases f with
  | wildcard p => exact p.isRow.bounded _ hmem
  | tilde p => exact p.isRow.bounded _ (List.mem_of_mem_take hmem)
  | caret p => exact p.isRow.bounded _ (List.mem_of_mem_take hmem)
  | hyphen _ high => exact high.isRow.bounded _ hmem

/-- The versions that a shorthand means, by their numbers. Missing numbers are zero. -/
def Contains : Shorthand signs → List Nat → Prop
  | wildcard p _ _, parts => ∀ i < p.numbers.length, parts.getD i 0 = p.numbers.getD i 0
  | tilde p, parts =>
    padded p.numbers ≤ padded parts ∧ ∀ i < min 2 p.numbers.length,
      parts.getD i 0 = p.numbers.getD i 0
  | caret p, parts =>
    padded p.numbers ≤ padded parts ∧
      ∀ i < p.numbers.length, (∀ j < i, p.numbers.getD j 0 = 0) →
        parts.getD i 0 = p.numbers.getD i 0
  | hyphen low high _ _ _ _, parts =>
    padded low.numbers ≤ padded parts ∧ padded (parts.take high.numbers.length) ≤
      padded high.numbers

theorem contains_iff (f : Shorthand signs) (parts : List Nat) :
    f.Contains parts ↔
      padded f.lower ≤ padded parts ∧ padded (parts.take f.limit.length) ≤ padded f.limit := by
  cases f with
  | wildcard p mark hmark =>
    have hwhole : p.numbers.take p.numbers.length = p.numbers := List.take_length
    have hagrees := @between_iff_agrees p.numbers parts p.numbers.length
    rw [hwhole] at hagrees
    rw [Contains, lower, limit, hagrees, iff_and_self]
    -- agreeing with all numbers of the row is enough, since it goes on with zeros
    intro heq
    rw [← padded_take_eq_iff, hwhole] at heq
    exact heq.symm.trans_le (padded_take_le parts p.numbers.length)
  | tilde p =>
    have htake : p.numbers.take 2 = p.numbers.take (min 2 p.numbers.length) := by
      rw [List.take_eq_take_iff]
      omega
    rw [Contains, lower, limit, List.length_take, htake, between_iff_agrees]
  | caret p =>
    have htake : p.numbers.take (p.numbers.findIdx (· ≠ 0) + 1) =
        p.numbers.take (min (p.numbers.findIdx (· ≠ 0) + 1) p.numbers.length) := by
      rw [List.take_eq_take_iff]
      omega
    rw [Contains, lower, limit, List.length_take, htake, between_iff_agrees]
    refine and_congr_right fun _ => forall_congr' fun i => ?_
    constructor
    · intro h hi
      have hlength : i < p.numbers.length := hi.trans_le (Nat.min_le_right _ _)
      have hindex : i ≤ p.numbers.findIdx (· ≠ 0) :=
        Nat.le_of_lt_succ (hi.trans_le (Nat.min_le_left _ _))
      exact h hlength ((le_findIdx_iff hlength).mp hindex)
    · intro h hlength hzeros
      exact h (lt_min (Nat.lt_succ_of_le ((le_findIdx_iff hlength).mpr hzeros)) hlength)
  | hyphen => exact Iff.rfl

theorem limit_eq (f : Shorthand signs) : f.limit = f.limit.dropLast ++ [f.incremented] :=
  (List.dropLast_concat_getLast f.limit_ne_nil).symm

theorem within_iff_contains (f : Shorthand signs) (parts : List Nat) :
    above parts (some ⟨f.lower, true⟩) = true ∧
      below parts (some ⟨f.limit.dropLast ++ [f.incremented + 1], false⟩) = true ↔
        f.Contains parts := by
  have hlength : f.limit.dropLast.length + 1 = f.limit.length := by
    have hlast := congrArg List.length f.limit_eq
    rw [List.length_append, List.length_singleton] at hlast
    exact hlast.symm
  rw [above_iff, below_iff, padded_lt_bumped, hlength, ← limit_eq, contains_iff]

theorem parse_text (f : Shorthand signs) : VersionSelector.parse (String.ofList f.text) none =
    if f.incremented + 1 < partBound then
      .ok ⟨String.ofList f.text,
        range (some ⟨f.lower, true⟩) (some ⟨f.limit.dropLast ++ [f.incremented + 1], false⟩), none⟩
    else .error (.invalidVersionSelector (String.ofList f.text) .partOutOfRange) := by
  have htrim : Text.trimChars (String.ofList f.text).toList = f.text := by
    rw [String.toList_ofList, f.isTight.trimChars]
  have hshown : Text.trim (String.ofList f.text) = String.ofList f.text := by
    rw [Text.trim, htrim]
  rw [VersionSelector.parse_none, htrim, hshown, parse_shorthand, limit_eq,
    rangeUpTo_append, ← limit_eq]
  split_ifs <;> rfl

/-- A shorthand allows exactly the versions that it means, which have numbers and no qualifier. If
the number to increase is the greatest there is, the shorthand is refused. -/
theorem selects_what_it_means (f : Shorthand signs) :
    (f.incremented + 1 ≠ partBound →
      ∃ s, VersionSelector.parse (String.ofList f.text) none = .ok s ∧
        ∀ v : Version, s.allows v = true ↔ v.parts ≠ [] ∧ v.qualifier = "" ∧ f.Contains v.parts) ∧
      (f.incremented + 1 = partBound → VersionSelector.parse (String.ofList f.text) none =
        .error (.invalidVersionSelector (String.ofList f.text) .partOutOfRange)) := by
  rw [parse_text]
  constructor
  · intro hbound
    have hlt := f.incremented_lt
    rw [if_pos (by omega)]
    refine ⟨_, rfl, fun v => ?_⟩
    simp only [VersionSelector.allows, VersionSelector.qualifierMatches, Bool.and_eq_true,
      Bool.not_eq_true',
      List.isEmpty_eq_false_iff, String.isEmpty_iff, and_assoc, within_iff_contains, ne_eq]
  · intro hbound
    rw [if_neg (by omega)]

theorem selects_what_it_means_below_next_minor :
    (∃ f : Shorthand false, f.text = "^0.2.3".toList ∧ f.incremented + 1 ≠ partBound ∧
        ∃ s, VersionSelector.parse (String.ofList f.text) none = .ok s ∧
          s.allows ⟨"0.2.9", [0, 2, 9], ""⟩ = true ∧ ¬ s.allows ⟨"0.3", [0, 3], ""⟩ = true) ∧
      ∃ f : Shorthand false, f.text = "~1.18446744073709551615".toList ∧
        f.incremented + 1 = partBound ∧
        VersionSelector.parse (String.ofList f.text) none =
          .error (.invalidVersionSelector (String.ofList f.text) .partOutOfRange) := by
  have hrow : IsRow false "0.2.3".toList [0, 2, 3] :=
    (numbers?_eq_some.mp (by decide +kernel)).congr_signs (by decide +kernel)
  have hgreatest : IsRow false "1.18446744073709551615".toList [1, 18446744073709551615] :=
    (numbers?_eq_some.mp (by decide +kernel)).congr_signs (by decide +kernel)
  constructor
  · have hbound : (caret ⟨_, _, hrow⟩).incremented + 1 ≠ partBound :=
      (by decide +kernel : 2 + 1 ≠ partBound)
    obtain ⟨s, hparse, hallows⟩ := (selects_what_it_means (caret ⟨_, _, hrow⟩)).1 hbound
    refine ⟨caret ⟨_, _, hrow⟩, rfl, hbound, s, hparse, (hallows _).mpr ?_, fun hnext => ?_⟩
    · have hlower : padded [0, 2, 3] ≤ padded [0, 2, 9] := by simp [padded_cons_le]
      have hagrees : ∀ i < 3, (∀ j < i, [0, 2, 3].getD j 0 = 0) →
          [0, 2, 9].getD i 0 = [0, 2, 3].getD i 0 := by decide
      exact ⟨by decide, rfl, hlower, hagrees⟩
    · obtain ⟨-, -, -, hagrees⟩ := (hallows _).mp hnext
      have hzero : ∀ j < 1, [0, 2, 3].getD j 0 = 0 := by decide
      exact absurd (hagrees 1 (Nat.lt_of_sub_eq_succ rfl) hzero) (by decide : 3 ≠ 2)
  · have hbound : (tilde ⟨_, _, hgreatest⟩).incremented + 1 = partBound :=
      (by decide +kernel : 18446744073709551615 + 1 = partBound)
    exact ⟨tilde ⟨_, _, hgreatest⟩, rfl, hbound,
      (selects_what_it_means (tilde ⟨_, _, hgreatest⟩)).2 hbound⟩

end Shorthand

end Selection

end BuildScript
