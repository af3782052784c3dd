import BuildScript.Regex.Basic
import Mathlib.Computability.Language

/-!
# What an expression matches

The matcher moves sets of positions. An expression relates the positions where a match starts to
those where it ends, and the matcher finds exactly the related positions, although it repeats a part
only as often as the text is long. Where an expression looks only at the characters it takes, the
relation is a language.
-/

namespace BuildScript.Regex

variable {p q : Nat}

def Iterates (R : Nat → Nat → Prop) : Nat → Nat → Nat → Prop
  | 0, p, q => p = q
  | n + 1, p, q => ∃ m, R p m ∧ Iterates R n m q

section Iterates

variable {R : Nat → Nat → Prop} {m n : Nat}

theorem iterates_add {r : Nat} :
    Iterates R (m + n) p r ↔ ∃ q, Iterates R m p q ∧ Iterates R n q r := by
  induction m generalizing p with
  | zero => simp [Iterates]
  | succ m ih =>
    rw [Nat.succ_add]
    constructor
    · rintro ⟨x, hx, h⟩
      obtain ⟨q, hq, h⟩ := ih.mp h
      exact ⟨q, ⟨x, hx, hq⟩, h⟩
    · rintro ⟨q, ⟨x, hx, hq⟩, h⟩
      exact ⟨x, hx, ih.mpr ⟨q, hq, h⟩⟩

theorem exists_iterates_le_succ :
    (∃ m ≤ n + 1, Iterates R m p q) ↔ ∃ x, (p = x ∨ R p x) ∧ ∃ m ≤ n, Iterates R m x q := by
  constructor
  · rintro ⟨_ | m, hm, h⟩
    · exact ⟨p, Or.inl rfl, 0, Nat.zero_le n, h⟩
    · obtain ⟨x, hx, h⟩ := h
      exact ⟨x, Or.inr hx, m, Nat.le_of_succ_le_succ hm, h⟩
  · rintro ⟨x, rfl | hx, m, hm, h⟩
    · exact ⟨m, hm.trans (Nat.le_succ n), h⟩
    · exact ⟨m + 1, Nat.succ_le_succ hm, x, hx, h⟩

structure IsForward (R : Nat → Nat → Prop) (size : Nat) : Prop where
  le {p q : Nat} : R p q → p ≤ q
  le_size {p q : Nat} : R p q → p ≤ size → q ≤ size

variable {size : Nat}

theorem IsForward.iterates (hR : IsForward R size) (n : Nat) : IsForward (Iterates R n) size := by
  induction n with
  | zero => exact ⟨fun h => Nat.le_of_eq h, fun h hp => h ▸ hp⟩
  | succ n ih =>
    exact ⟨fun ⟨_, hx, h⟩ => (hR.le hx).trans (ih.le h),
      fun ⟨_, hx, h⟩ hp => ih.le_size h (hR.le_size hx hp)⟩

/-- Steps that stay where they are can be left out, and of the others there are no more than the
characters between the ends. -/
theorem IsForward.exists_le (hR : IsForward R size) (h : Iterates R n p q) :
    ∃ m ≤ n, m ≤ q - p ∧ Iterates R m p q := by
  induction n generalizing p with
  | zero => exact ⟨0, le_rfl, Nat.zero_le _, h⟩
  | succ n ih =>
    obtain ⟨x, hx, h⟩ := h
    obtain ⟨m, hmn, hm, hmany⟩ := ih h
    rcases (hR.le hx).eq_or_lt with rfl | hlt
    · exact ⟨m, hmn.trans (Nat.le_succ n), hm, hmany⟩
    · have hle := (hR.iterates m).le hmany
      exact ⟨m + 1, Nat.succ_le_succ hmn, by omega, x, hx, hmany⟩

def extraSteps (size least : Nat) : Option Nat → Nat
  | some n => min (n - least) (size + 1)
  | none => size + 1

/-- The bound on the repetitions hides no match: behind the least number of them, as many as there
are characters reach everything that more of them reach. -/
theorem IsForward.exists_iterates_iff (hR : IsForward R size) {least : Nat} {most : Option Nat}
    (hp : p ≤ size) :
    (∃ n, least ≤ n ∧ (∀ m ∈ most, n ≤ max least m) ∧ Iterates R n p q) ↔
      ∃ x, Iterates R least p x ∧ ∃ m ≤ extraSteps size least most, Iterates R m x q := by
  constructor
  · rintro ⟨n, hleast, hmost, h⟩
    have hq : q ≤ size := (hR.iterates n).le_size h hp
    obtain ⟨extra, rfl⟩ := Nat.exists_eq_add_of_le hleast
    obtain ⟨x, hx, h⟩ := iterates_add.mp h
    obtain ⟨m, hm, hmq, h⟩ := hR.exists_le h
    refine ⟨x, hx, m, ?_, h⟩
    cases most with
    | none => exact hmq.trans ((Nat.sub_le q x).trans (hq.trans (Nat.le_succ size)))
    | some most =>
      have := hmost most rfl
      exact le_min (by omega) (by omega)
  · rintro ⟨x, hx, m, hm, h⟩
    refine ⟨least + m, Nat.le_add_right _ _, fun most hmost => ?_, iterates_add.mpr ⟨x, hx, h⟩⟩
    cases hmost
    have := le_min_iff.mp hm
    omega

end Iterates

section Realizes

/-- The step takes positions of a text to exactly those that `R` relates to one of them. -/
def Realizes (step : List Nat → List Nat) (size : Nat) (R : Nat → Nat → Prop) : Prop :=
  ∀ positions, (∀ p ∈ positions, p ≤ size) → ∀ q, q ∈ step positions ↔ ∃ p ∈ positions, R p q

variable {f g step : List Nat → List Nat} {size : Nat} {R S : Nat → Nat → Prop}

theorem realizes_id : Realizes id size Eq := fun positions _ q => by simp

theorem Realizes.congr (hf : Realizes f size R) (h : ∀ p q, p ≤ size → (R p q ↔ S p q)) :
    Realizes f size S := by
  intro positions hpositions q
  rw [hf positions hpositions]
  exact exists_congr fun p => and_congr_right fun hp => h p q (hpositions p hp)

theorem Realizes.comp (hf : Realizes f size R) (hg : Realizes g size S) (hR : IsForward R size) :
    Realizes (fun positions => g (f positions)) size fun p q => ∃ m, R p m ∧ S m q := by
  intro positions hpositions q
  have hmiddle : ∀ m ∈ f positions, m ≤ size := by
    intro m hm
    obtain ⟨p, hp, hpm⟩ := (hf positions hpositions m).mp hm
    exact hR.le_size hpm (hpositions p hp)
  rw [hg _ hmiddle]
  constructor
  · rintro ⟨m, hm, hmq⟩
    obtain ⟨p, hp, hpm⟩ := (hf positions hpositions m).mp hm
    exact ⟨p, hp, m, hpm, hmq⟩
  · rintro ⟨p, hp, m, hpm, hmq⟩
    exact ⟨m, (hf positions hpositions m).mpr ⟨p, hp, hpm⟩, hmq⟩

theorem mem_merge {a b : List Nat} : q ∈ merge a b ↔ q ∈ a ∨ q ∈ b := by
  rw [merge, List.mem_append, List.mem_filter]
  by_cases h : q ∈ a <;> simp [h]

theorem Realizes.merge (hf : Realizes f size R) (hg : Realizes g size S) :
    Realizes (fun positions => merge (f positions) (g positions)) size fun p q =>
      R p q ∨ S p q := by
  intro positions hpositions q
  rw [mem_merge, hf positions hpositions, hg positions hpositions, ← exists_or]
  exact exists_congr fun p => and_or_left.symm

theorem Realizes.times (h : Realizes step size R) (hR : IsForward R size) (n : Nat) :
    Realizes (times step n) size (Iterates R n) := by
  induction n with
  | zero => exact realizes_id
  | succ n ih => exact h.comp ih hR

theorem Realizes.upTo (h : Realizes step size R) (hR : IsForward R size) (n : Nat) :
    Realizes (upTo step n) size fun p q => ∃ m ≤ n, Iterates R m p q := by
  induction n with
  | zero => exact realizes_id.congr fun p q _ => by simp [Iterates]
  | succ n ih =>
    have hforward : IsForward (fun p q => p = q ∨ R p q) size :=
      ⟨fun h => h.elim Nat.le_of_eq hR.le, fun h hp => h.elim (· ▸ hp) (hR.le_size · hp)⟩
    exact ((realizes_id.merge h).comp ih hforward).congr fun p q _ => exists_iterates_le_succ.symm

end Realizes

section Matches

variable {text : Array Char}

/-- The expression matches the text from `p` to `q`. A repetition is never cut below its least
number. -/
def Matches (text : Array Char) : Regex → Nat → Nat → Prop
  | empty, p, q => p = q
  | one set, p, q => (∃ c, text[p]? = some c ∧ set.mem c = true) ∧ p + 1 = q
  | anchor a words, p, q =>
    a.holds words (if p = 0 then none else text[p - 1]?) text[p]? = true ∧ p = q
  | seq a b, p, q => ∃ m, Matches text a p m ∧ Matches text b m q
  | alt a b, p, q => Matches text a p q ∨ Matches text b p q
  | loop r least most, p, q =>
    ∃ n, least ≤ n ∧ (∀ m ∈ most, n ≤ max least m) ∧ Iterates (Matches text r) n p q

theorem isForward_matches (text : Array Char) (r : Regex) :
    IsForward (r.Matches text) text.size := by
  induction r with
  | empty => exact ⟨fun h => Nat.le_of_eq h, fun h hp => h ▸ hp⟩
  | one set =>
    refine ⟨fun h => h.2 ▸ Nat.le_succ _, ?_⟩
    rintro p q ⟨⟨c, hc, -⟩, rfl⟩ -
    exact (Array.getElem?_eq_some_iff.mp hc).1
  | anchor a words => exact ⟨fun h => Nat.le_of_eq h.2, fun h hp => h.2 ▸ hp⟩
  | seq a b iha ihb =>
    exact ⟨fun ⟨_, ha, hb⟩ => (iha.le ha).trans (ihb.le hb),
      fun ⟨_, ha, hb⟩ hp => ihb.le_size hb (iha.le_size ha hp)⟩
  | alt a b iha ihb =>
    exact ⟨fun h => h.elim iha.le ihb.le, fun h hp => h.elim (iha.le_size · hp) (ihb.le_size · hp)⟩
  | loop r least most ih =>
    exact ⟨fun ⟨n, _, _, h⟩ => (ih.iterates n).le h,
      fun ⟨n, _, _, h⟩ hp => (ih.iterates n).le_size h hp⟩

/-- The matcher finds the ends of all matches and nothing else. -/
theorem realizes_ends (text : Array Char) (r : Regex) :
    Realizes (r.ends text) text.size (r.Matches text) := by
  induction r with
  | empty => exact realizes_id
  | one set =>
    intro positions _ q
    simp only [ends, Matches, List.mem_filterMap]
    refine exists_congr fun p => and_congr_right fun _ => ?_
    cases text[p]? with
    | none => simp
    | some c => simp
  | anchor a words =>
    intro positions _ q
    simp only [ends, Matches, List.mem_filter]
    exact ⟨fun ⟨hq, hholds⟩ => ⟨q, hq, hholds, rfl⟩,
      fun ⟨p, hp, hholds, heq⟩ => heq ▸ ⟨hp, hholds⟩⟩
  | seq a b iha ihb => exact iha.comp ihb (isForward_matches text a)
  | alt a b iha ihb => exact iha.merge ihb
  | loop r least most ih =>
    have hr := isForward_matches text r
    have hends : (r.loop least most).ends text = fun positions =>
        upTo (r.ends text) (extraSteps text.size least most)
          (times (r.ends text) least positions) := by
      funext positions
      cases most <;> rfl
    rw [hends]
    exact ((ih.times hr least).comp (ih.upTo hr _) (hr.iterates least)).congr
      fun p q hp => (hr.exists_iterates_iff hp).symm

theorem isMatch_iff {r : Regex} {text : String} :
    r.isMatch text = true ↔
      ∃ p ≤ text.toList.toArray.size, ∃ q, r.Matches text.toList.toArray p q := by
  have hpositions : ∀ p ∈ List.range (text.toList.toArray.size + 1), p ≤ text.toList.toArray.size :=
    fun p hp => Nat.le_of_lt_succ (List.mem_range.mp hp)
  have hends := realizes_ends text.toList.toArray r _ hpositions
  simp only [isMatch, Bool.not_eq_true', List.isEmpty_eq_false_iff_exists_mem, hends,
    List.mem_range, Nat.lt_succ_iff]
  exact ⟨fun ⟨q, p, hp, h⟩ => ⟨p, hp, q, h⟩, fun ⟨p, hp, q, h⟩ => ⟨q, p, hp, h⟩⟩

theorem matches_foldr {parts : List Regex} {tail : Regex} :
    (parts.foldr seq tail).Matches text p q ↔
      ∃ m, (parts.foldr seq empty).Matches text p m ∧ tail.Matches text m q := by
  induction parts generalizing p with
  | nil => simp [Matches]
  | cons part parts ih =>
    simp only [List.foldr_cons, Matches, ih]
    exact ⟨fun ⟨x, hx, m, hm, h⟩ => ⟨m, ⟨x, hx, hm⟩, h⟩,
      fun ⟨m, ⟨x, hx, hm⟩, h⟩ => ⟨x, hx, m, hm, h⟩⟩

end Matches

section Accepts

open Computability

/-- Wherever the expression is tried, it takes exactly the words of the language. -/
def Accepts (r : Regex) (L : Language Char) : Prop :=
  ∀ (text : Array Char) (p q : Nat), p ≤ text.size → (r.Matches text p q ↔
    ∃ word ∈ L, word <+: text.toList.drop p ∧ p + word.length = q)

variable {a b r : Regex} {L M : Language Char} {text : Array Char}

theorem Accepts.congr (h : Accepts r L) (hLM : ∀ word, word ∈ L ↔ word ∈ M) : Accepts r M := by
  intro text p q hp
  simp only [h text p q hp, hLM]

theorem append_prefix_drop {front back : List Char} :
    front ++ back <+: text.toList.drop p ↔
      front <+: text.toList.drop p ∧ back <+: text.toList.drop (p + front.length) := by
  rw [← List.drop_drop]
  constructor
  · rintro ⟨rest, h⟩
    rw [← h, List.append_assoc, List.drop_left]
    exact ⟨List.prefix_append _ _, List.prefix_append _ _⟩
  · rintro ⟨⟨rest, h⟩, hback⟩
    rw [← h, List.drop_left] at hback
    rw [← h]
    exact (List.prefix_append_right_inj front).mpr hback

/-- Two relations in a row take the words of two languages in a row. -/
theorem exists_middle_iff {R S : Nat → Nat → Prop}
    (hR : ∀ m, R p m ↔ ∃ word ∈ L, word <+: text.toList.drop p ∧ p + word.length = m)
    (hS : ∀ m, R p m → (S m q ↔ ∃ word ∈ M, word <+: text.toList.drop m ∧ m + word.length = q)) :
    (∃ m, R p m ∧ S m q) ↔ ∃ word ∈ L * M, word <+: text.toList.drop p ∧ p + word.length = q := by
  constructor
  · rintro ⟨m, hm, hq⟩
    obtain ⟨back, hback, hbackAt, rfl⟩ := (hS m hm).mp hq
    obtain ⟨front, hfront, hfrontAt, rfl⟩ := (hR m).mp hm
    refine ⟨front ++ back, Language.append_mem_mul hfront hback,
      append_prefix_drop.mpr ⟨hfrontAt, hbackAt⟩, ?_⟩
    rw [List.length_append, Nat.add_assoc]
  · rintro ⟨word, hword, hat, rfl⟩
    obtain ⟨front, hfront, back, hback, rfl⟩ := Language.mem_mul.mp hword
    rw [append_prefix_drop] at hat
    have hm := (hR _).mpr ⟨front, hfront, hat.1, rfl⟩
    refine ⟨p + front.length, hm, (hS _ hm).mpr ⟨back, hback, hat.2, ?_⟩⟩
    rw [List.length_append, Nat.add_assoc]

theorem accepts_empty : Accepts .empty 1 := by
  intro text p q _
  simp [Matches, Language.mem_one]

theorem getElem?_eq_some_iff_prefix {c : Char} :
    text[p]? = some c ↔ [c] <+: text.toList.drop p := by
  rw [← Array.getElem?_toList, ← List.head?_drop]
  cases text.toList.drop p with
  | nil => simp
  | cons d rest => simp [eq_comm]

theorem accepts_one {set : CharSet} (h : ∀ word, word ∈ L ↔ ∃ c, set.mem c = true ∧ [c] = word) :
    Accepts (.one set) L := by
  intro text p q _
  simp only [h]
  constructor
  · rintro ⟨⟨c, hc, hset⟩, rfl⟩
    exact ⟨[c], ⟨c, hset, rfl⟩, getElem?_eq_some_iff_prefix.mp hc, rfl⟩
  · rintro ⟨_, ⟨c, hset, rfl⟩, hc, rfl⟩
    exact ⟨⟨c, getElem?_eq_some_iff_prefix.mpr hc, hset⟩, rfl⟩

theorem Accepts.seq (ha : Accepts a L) (hb : Accepts b M) : Accepts (.seq a b) (L * M) := by
  intro text p q hp
  exact exists_middle_iff (fun m => ha text p m hp) fun m hm =>
    hb text m q ((isForward_matches text a).le_size hm hp)

theorem Accepts.foldr {parts : List Regex} (h : Accepts (parts.foldr Regex.seq .empty) L)
    (hr : Accepts r M) : Accepts (parts.foldr Regex.seq r) (L * M) :=
  fun text p q hp => matches_foldr.trans (h.seq hr text p q hp)

theorem Accepts.iterates (h : Accepts r L) (n : Nat) (hp : p ≤ text.size) :
    Iterates (r.Matches text) n p q ↔
      ∃ word ∈ L ^ n, word <+: text.toList.drop p ∧ p + word.length = q := by
  induction n generalizing p with
  | zero => simp [Iterates, Language.mem_one]
  | succ n ih =>
    rw [pow_succ']
    exact exists_middle_iff (fun m => h text p m hp) fun m hm =>
      ih ((isForward_matches text r).le_size hm hp)

theorem mem_pow_mul_kstar {least : Nat} {word : List Char} :
    word ∈ L ^ least * L∗ ↔ ∃ n, least ≤ n ∧ word ∈ L ^ n := by
  rw [Language.kstar_eq_iSup_pow, Language.mul_iSup, Language.mem_iSup]
  simp only [← pow_add]
  constructor
  · rintro ⟨k, h⟩
    exact ⟨least + k, Nat.le_add_right least k, h⟩
  · rintro ⟨n, hn, h⟩
    exact ⟨n - least, by rwa [Nat.add_sub_cancel' hn]⟩

theorem Accepts.loop (h : Accepts r L) (least : Nat) :
    Accepts (.loop r least none) (L ^ least * L∗) := by
  intro text p q hp
  simp only [Matches, Option.not_mem_none, IsEmpty.forall_iff, implies_true, true_and,
    h.iterates _ hp, mem_pow_mul_kstar]
  exact ⟨fun ⟨n, hn, word, hword, h⟩ => ⟨word, ⟨n, hn, hword⟩, h⟩,
    fun ⟨word, ⟨n, hn, hword⟩, h⟩ => ⟨n, hn, word, hword, h⟩⟩

end Accepts

end BuildScript.Regex
