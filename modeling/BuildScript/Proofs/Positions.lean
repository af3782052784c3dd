import BuildScript.Proofs.Splicing

/-!
# Where the lexemes of a script stand

The lexemes of a script and the gaps between them divide it: each text and each gap is the part of
the script between two positions, and these positions follow each other from the start of the script
to its end. They count characters. Of the lexical rules this needs no more than that the stretches
make up the script and none of them is empty.
-/

namespace BuildScript

namespace Lexeme

variable {row : List Stretch} {ls before after : List Lexeme} {l : Lexeme}
    {script tail : String} {at' : Nat}

def gapStart (ls : List Lexeme) : Nat → Nat
  | 0 => 0
  | i + 1 => (ls[i]?.map stop).getD 0

structure IsPartition (script : String) (ls : List Lexeme) (tail : String) : Prop where
  text_ne : ∀ l ∈ ls, l.text ≠ ""
  text_eq : ∀ l ∈ ls, l.text = Text.slice script l.start l.stop
  ordered : ∀ i l, ls[i]? = some l → gapStart ls i ≤ l.start ∧ l.stop ≤ script.length
  lead_eq : ∀ i l, ls[i]? = some l → l.lead = Text.slice script (gapStart ls i) l.start
  tail_eq : tail = Text.slice script (gapStart ls ls.length) script.length
  /-- Something stands between lexemes that have no lexical rule. -/
  apart : ls.IsChain fun l m => l.kind = .other → m.kind = .other → m.lead ≠ ""

/-- Behind the position `at'`, each lexeme starts where its gap ends and stops where its text
does. -/
def Placed (at' : Nat) : List Lexeme → Prop
  | [] => True
  | l :: ls => l.start = at' + l.lead.length ∧ l.stop = l.start + l.text.length ∧ Placed l.stop ls

theorem placed_ofStretches (at' : Nat) (lead : List Char) (row : List Stretch) :
    Placed at' (ofStretches (at' + lead.length) lead row).1 := by
  induction row generalizing at' lead with
  | nil => trivial
  | cons s row ih =>
    rcases s with ⟨_ | kind, chars⟩
    · have hrest := ih at' (lead ++ chars)
      rwa [List.length_append, ← Nat.add_assoc] at hrest
    · exact ⟨by simp, by simp, ih (at' + lead.length + chars.length) []⟩

/-- A lexeme starts behind all that is written in front of it. -/
theorem Placed.places (h : Placed at' (before ++ l :: after)) :
    l.start = at' + (writtenAll before).length + l.lead.length ∧
      l.stop = l.start + l.text.length := by
  induction before generalizing at' with
  | nil => exact ⟨by simpa using h.1, h.2.1⟩
  | cons m before ih =>
    obtain ⟨hstart, hstop⟩ := ih h.2.2
    refine ⟨?_, hstop⟩
    rw [hstart, h.2.1, h.1, writtenAll_cons, String.length_append, String.length_append]
    omega

theorem Placed.gapStart_eq (h : Placed 0 (before ++ after)) :
    gapStart (before ++ after) before.length = (writtenAll before).length := by
  cases before using List.reverseRecOn with
  | nil => rfl
  | append_singleton before l =>
    rw [List.append_assoc] at h ⊢
    obtain ⟨hstart, hstop⟩ := h.places
    simp only [List.length_append, List.length_singleton, gapStart,
      List.getElem?_append_right (Nat.le_refl _),
      Nat.sub_self, List.singleton_append, List.getElem?_cons_zero, Option.map_some,
        Option.getD_some, hstop, hstart,
      writtenAll_append, writtenAll_cons, writtenAll_nil, String.length_append]
    simp [Nat.add_assoc]

/-- Lexemes in their places divide the text that they make up with the tail. -/
theorem Placed.isPartition (h : Placed 0 ls) (hwritten : writtenAll ls ++ tail = script)
    (hne : ∀ l ∈ ls, l.text ≠ "")
    (hapart : ls.IsChain fun l m => l.kind = .other → m.kind = .other → m.lead ≠ "") :
    IsPartition script ls tail := by
  -- What is in front of a lexeme and behind it, with its own positions in these terms.
  have hsplit : ∀ i l, ls[i]? = some l →
      ∃ front behind, script = front ++ (l.lead ++ (l.text ++ behind)) ∧
      gapStart ls i = front.length ∧ l.start = front.length + l.lead.length ∧
      l.stop = l.start + l.text.length := by
    intro i l hl
    obtain ⟨hi, rfl⟩ := List.getElem?_eq_some_iff.mp hl
    have hrow : ls = ls.take i ++ ls[i] :: ls.drop (i + 1) := by simp
    have hlength : (ls.take i).length = i := by simp [Nat.le_of_lt hi]
    generalize ls.take i = before, ls[i] = l, ls.drop (i + 1) = after at hrow hlength
    subst hrow hlength hwritten
    refine ⟨writtenAll before, writtenAll after ++ tail, ?_, h.gapStart_eq, by simpa using h.places⟩
    simp [String.append_assoc]
  refine ⟨hne, ?_, ?_, ?_, ?_, hapart⟩
  · intro l hl
    obtain ⟨i, hi⟩ := List.getElem?_of_mem hl
    obtain ⟨front, behind, rfl, -, hstart, hstop⟩ := hsplit i l hi
    have hslice := Text.slice_append (front ++ l.lead) l.text behind
    rwa [String.append_assoc, String.length_append, ← hstart, ← hstop, eq_comm] at hslice
  · intro i l hi
    obtain ⟨front, behind, rfl, hgap, hstart, hstop⟩ := hsplit i l hi
    simp only [hgap, hstop, hstart, String.length_append]
    omega
  · intro i l hi
    obtain ⟨front, behind, rfl, hgap, hstart, -⟩ := hsplit i l hi
    rw [hgap, hstart, Text.slice_append]
  · have hgap : gapStart ls ls.length = (writtenAll ls).length := by
      have hgap := @Placed.gapStart_eq ls [] (by rwa [List.append_nil])
      rwa [List.append_nil] at hgap
    have hslice := Text.slice_append (writtenAll ls) tail ""
    rw [String.append_empty, ← String.length_append, hwritten] at hslice
    rw [hgap, hslice]

theorem text_ne_ofStretches (hne : ∀ s ∈ row, s.chars ≠ []) (start : Nat) (lead : List Char) :
    ∀ l ∈ (ofStretches start lead row).1, l.text ≠ "" := by
  induction row generalizing start lead with
  | nil => simp [ofStretches]
  | cons s row ih =>
    rw [List.forall_mem_cons] at hne
    rcases s with ⟨_ | kind, chars⟩
    · exact ih hne.2 _ _
    · exact List.forall_mem_cons.mpr ⟨by simpa using hne.1, ih hne.2 _ _⟩

/-- With no stretches next to each other that lack a rule, lexemes without one have something
between them. -/
theorem apart_ofStretches {start : Nat} {lead tail : List Char} (hne : ∀ s ∈ row, s.chars ≠ [])
    (hapart : Apart row) (h : ofStretches start lead row = (ls, tail)) :
    ls.IsChain fun l m => l.kind = .other → m.kind = .other → m.lead ≠ "" := by
  induction ls generalizing start lead row with
  | nil => exact .nil
  | cons l ls ih =>
    obtain ⟨trivia, behind, rfl, -, -, -, -, hbehind⟩ := exists_first h
    rw [List.forall_mem_append, List.forall_mem_cons] at hne
    have hchain := ih hne.2.2 (@Apart.right [_] _ hapart.right) hbehind
    cases ls with
    | nil => exact .singleton l
    | cons m ls =>
      refine .cons_cons ?_ hchain
      intro hl hm hlead
      obtain ⟨trivia', behind', rfl, -, hlead', -, -, -⟩ := exists_first hbehind
      -- A gap without characters has no stretches, so the two lexemes come from neighbouring
      -- stretches.
      rw [hlead, List.nil_append, eq_comm, String.ofList_eq_empty_iff] at hlead'
      cases trivia' with
      | nil => exact (List.isChain_cons_cons.mp hapart.right).1 (by rw [hl]) (by rw [hm])
      | cons s trivia' =>
        rw [flat_cons, List.append_eq_nil_iff] at hlead'
        exact hne.2.2 s (by simp) hlead'.1

/-- Whatever non-empty stretches a script is cut into, its lexemes divide it. -/
theorem isPartition_ofStretches (hne : ∀ s ∈ row, s.chars ≠ []) :
    IsPartition (String.ofList (flat row)) (ofStretches 0 [] (joinOther row)).1
      (String.ofList (ofStretches 0 [] (joinOther row)).2) := by
  have hjoined := joinOther_ne_nil hne
  have hplaced : Placed 0 (ofStretches 0 [] (joinOther row)).1 := placed_ofStretches 0 [] _
  refine hplaced.isPartition ?_ (text_ne_ofStretches hjoined 0 [])
    (apart_ofStretches hjoined (apart_joinOther row) rfl)
  rw [written_ofStretches, List.nil_append, flat_joinOther]

/-- The lexemes of a script, the gaps in front of them and the tail behind them divide it. -/
theorem scan_partitions (script : String) : IsPartition script (scan script).1 (scan script).2 := by
  obtain ⟨hflat, hcut⟩ := @cut_stretches script.toList.length script.toList (Nat.le_refl _)
  have hpartition := isPartition_ofStretches hcut.ne_nil
  rw [hflat, String.ofList_toList] at hpartition
  rw [scan_eq]
  exact hpartition

end Lexeme

end BuildScript
