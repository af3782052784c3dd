import BuildScript.Text.Alphabetic
import BuildScript.Text.Cut
import Mathlib.Data.List.TakeWhile

/-!
# Blanks are neither letters nor numbers

Both classes come from tables, so this is a fact about the tables: going once through the runs of
characters of one category shows that no run of letters or of numbers has a blank in it.
-/

namespace BuildScript.Text

def wideBlanks : List Nat :=
  [0x85, 0xA0, 0x1680, 0x2000, 0x2001, 0x2002, 0x2003, 0x2004, 0x2005, 0x2006, 0x2007, 0x2008,
    0x2009, 0x200A, 0x2028, 0x2029, 0x202F, 0x205F, 0x3000]

namespace Category

variable {blanks : List Nat} {runs : List (Nat × Category)} {n : Nat}

/-- No run of letters or numbers has one of the characters in it. -/
def isClear : List Nat → List (Nat × Category) → Bool
  | [], _ => true
  | _, [] => true
  | n :: blanks, (stop, category) :: rest =>
    if stop ≤ n then isClear (n :: blanks) rest
    else !category.isLetter && !category.isNumber &&
      isClear ((n :: blanks).dropWhile (· < stop)) rest

/-- The run in which one of the characters is found is no run of letters or numbers. -/
theorem isClear_sound {run : Nat × Category} (hsorted : blanks.Pairwise (· ≤ ·))
    (hclear : isClear blanks runs = true) (hn : n ∈ blanks)
    (hfind : runs.find? (fun run => n < run.1) = some run) :
    run.2.isLetter = false ∧ run.2.isNumber = false := by
  induction runs generalizing blanks with
  | nil => cases hfind
  | cons first rest ih =>
    obtain ⟨stop, category⟩ := first
    cases blanks with
    | nil => cases hn
    | cons least blanks =>
      have hleast : least ≤ n := by
        rcases List.mem_cons.mp hn with rfl | hn
        · exact Nat.le_refl _
        · exact (List.pairwise_cons.mp hsorted).1 n hn
      rw [isClear] at hclear
      by_cases hstop : stop ≤ n
      · rw [List.find?_cons_of_neg (by simpa using hstop)] at hfind
        split_ifs at hclear with hbefore
        · exact ih hsorted hclear hn hfind
        · rw [Bool.and_eq_true] at hclear
          refine ih (hsorted.sublist (List.dropWhile_sublist _)) hclear.2 ?_ hfind
          have hmem : n ∈ (least :: blanks).takeWhile (· < stop) ++
              (least :: blanks).dropWhile (· < stop) := by
            rwa [List.takeWhile_append_dropWhile]
          refine (List.mem_append.mp hmem).resolve_left fun htake => ?_
          have hlt : n < stop := by simpa using List.mem_takeWhile_imp htake
          omega
      · rw [List.find?_cons_of_pos (by simpa using hstop)] at hfind
        cases hfind
        rw [if_neg (by omega), Bool.and_eq_true, Bool.and_eq_true, Bool.not_eq_true',
          Bool.not_eq_true'] at hclear
        exact hclear.1

theorem flatMap_toList_cons {row chars : List Char} {rows : List String}
    (h : rows.flatMap String.toList = chars) :
    (String.ofList row :: rows).flatMap String.toList = row ++ chars := by
  rw [List.flatMap_cons, String.toList_ofList, h]

theorem runs_of_table {P : List (Nat × Category) → Prop} {chars : List Char}
    (htable : table.flatMap String.toList = chars) (h : P (runsOf chars)) : P Category.runs := by
  rw [Category.runs, htable]
  exact h

theorem isClear_runs : isClear wideBlanks Category.runs = true := by
  apply runs_of_table (P := fun runs => isClear wideBlanks runs = true)
  case htable =>
    -- Row by row, the texts become lists of characters that can be evaluated.
    unfold table
    repeat apply flatMap_toList_cons
    rfl
  case h => decide +kernel

theorem of_wideBlank {c : Char} (h : c.toNat ∈ wideBlanks) :
    (of c).isLetter = false ∧ (of c).isNumber = false := by
  have hsorted : wideBlanks.Pairwise (· ≤ ·) := by decide
  unfold of
  cases hfind : Category.runs.find? fun run => c.toNat < run.1 with
  | none => exact ⟨rfl, rfl⟩
  | some run => exact isClear_sound hsorted isClear_runs h hfind

end Category

theorem toNat_mem_wideBlanks {c : Char} (h : isBlank c = true) (hwide : 128 ≤ c.toNat) :
    c.toNat ∈ wideBlanks := by
  simp only [isBlank, Bool.or_eq_true, Bool.and_eq_true, decide_eq_true_eq] at h
  simp only [wideBlanks, List.mem_cons, List.not_mem_nil, or_false]
  omega

theorem isAlphanum_range {c : Char} (h : c.isAlphanum = true) :
    48 ≤ c.toNat ∧ c.toNat ≤ 57 ∨ 65 ≤ c.toNat ∧ c.toNat ≤ 90 ∨ 97 ≤ c.toNat ∧ c.toNat ≤ 122 := by
  obtain hletter | hdigit := Bool.or_eq_true_iff.mp h
  · obtain hupper | hlower := Bool.or_eq_true_iff.mp hletter
    · exact Or.inr (Or.inl (of_decide_eq_true hupper))
    · exact Or.inr
        (Or.inr ((Bool.and_eq_true_iff.mp hlower).imp of_decide_eq_true of_decide_eq_true))
  · exact Or.inl ((Bool.and_eq_true_iff.mp hdigit).imp of_decide_eq_true of_decide_eq_true)

theorem isAlphanumeric_of_isBlank {c : Char} (h : isBlank c = true) : isAlphanumeric c = false := by
  by_cases hwide : c.toNat < 128
  · rw [isAlphanumeric, if_pos hwide, Bool.eq_false_iff]
    intro halphanum
    have hrange := isAlphanum_range halphanum
    simp only [isBlank, Bool.or_eq_true, Bool.and_eq_true, decide_eq_true_eq] at h
    omega
  · have hmem := toNat_mem_wideBlanks h (Nat.le_of_not_lt hwide)
    obtain ⟨hletter, hnumber⟩ := Category.of_wideBlank hmem
    have hother : ∀ n ∈ wideBlanks,
        (otherAlphabetic.any fun range => range.1 ≤ n && n ≤ range.2) = false := by
      decide +kernel
    have hNl : Category.of c ≠ .Nl := by
      intro heq
      rw [heq] at hnumber
      cases hnumber
    rw [isAlphanumeric, if_neg hwide, isAlphabetic, if_neg hwide]
    simp only [hletter, hnumber, hNl, decide_false, Bool.or_false, Bool.false_or]
    exact hother _ hmem

end BuildScript.Text
