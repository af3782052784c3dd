import BuildScript.Proofs.Extents
import BuildScript.Proofs.Scanning
import Mathlib.Logic.Function.Iterate

/-!
# The rules come to an end

The rules of the parser are one step, iterated to a depth at which they are cut off. A step asks
only for less than it was asked, so after some steps nothing is left of the answers that were put in
at the bottom, and with a depth that `fuelFor` gives no rule is ever cut off.
-/

namespace BuildScript.Node

namespace Query

def row : Query → List Lexeme
  | statementOrVerbatim _ l rest | statement l rest | delegated l rest => l :: rest
  | statements _ ls | callOrIdentifier _ _ _ ls | callRest ls | parenthesized
    ls | parenthesizedItems ls
  | commandItems ls | argument ls | expression ls | closureBody ls => ls

/-- Among rules with the same lexemes, one calls only those of a lower rank. -/
def rank : Query → Nat
  | closureBody _ | parenthesized _ | delegated _ _ => 1
  | expression _ | callRest _ | statement _ _ => 2
  | argument _ | statementOrVerbatim _ _ _ => 3
  | parenthesizedItems _ | commandItems _ | statements _ _ => 4
  | callOrIdentifier _ _ _ _ => 5

/-- There is less to read, or no more of it for a rule of a lower rank. -/
def Smaller (q' q : Query) : Prop :=
  q'.row.length < q.row.length ∨ q'.row.length ≤ q.row.length ∧ q'.rank < q.rank

def need (q : Query) : Nat := 8 * q.row.length + q.rank

theorem rank_pos (q : Query) : 0 < q.rank := by
  cases q <;> simp [rank]

theorem rank_le (q : Query) : q.rank ≤ 5 := by
  cases q <;> simp [rank]

theorem Smaller.need_lt {q' q : Query} (h : Smaller q' q) : q'.need < q.need := by
  have hrank := rank_le q'
  unfold need
  obtain h | h := h <;> omega

theorem need_le_fuelFor (q : Query) : q.need ≤ fuelFor q.row := by
  have hrank := rank_le q
  unfold need fuelFor
  omega

variable {ask : (q : Query) → q.Answer} {fuel : Nat}

/-- The answers to a question rest on the answers to smaller ones. -/
theorem step_congr (q : Query) (h : ∀ q', Smaller q' q → ask q' = answer fuel q') :
    step ask q = step (answer fuel) q := by
  have ht := taking fuel
  have hless : ∀ q' : Query, q'.row.length < q.row.length → ask q' = answer fuel q' :=
    fun q' hrow => h q' (Or.inl hrow)
  have hlower : ∀ q' : Query, q'.row.length ≤ q.row.length → q'.rank < q.rank →
      ask q' = answer fuel q' :=
    fun q' hrow hrank => h q' (Or.inr ⟨hrow, hrank⟩)
  cases q with
  | statementOrVerbatim inClosure l rest =>
    simp only [step, hlower (statement l rest) (Nat.le_refl _) (by simp [rank])]
  | statements inClosure ls =>
    cases ls with
    | nil => rfl
    | cons l rest =>
      have hfirst := (ht.statementOrVerbatim_suffix inClosure l rest).length_le
      simp only [step]
      rw [hlower (statementOrVerbatim inClosure l rest) (Nat.le_refl _) (by simp [rank]),
        hless (statements inClosure (answer fuel (statementOrVerbatim inClosure l rest)).2)
          (Nat.lt_succ_of_le hfirst)]
  | statement l rest =>
    have hname := (dottedName_takes l.text rest).suffix.length_le
    simp only [step, hlower (delegated l rest) (Nat.le_refl _) (by simp [rank])]
    generalize dottedName l.text rest = reading at hname
    obtain ⟨name, left⟩ := reading
    have hcall := hless (callOrIdentifier (headOf l) name true left) (Nat.lt_succ_of_le hname)
    cases left with
    | nil => simp only [hcall]
    | cons operator left' =>
      have hvalue := hless (expression left') (Nat.lt_succ_of_lt hname)
      simp only [hcall, hvalue]
  | delegated keyword rest =>
    rcases rest with _ | ⟨property, _ | ⟨by', _ | ⟨callee, rest⟩⟩⟩
    · rfl
    · rfl
    · rfl
    · have hname := (dottedName_takes callee.text rest).suffix.length_le
      simp only [step]
      generalize dottedName callee.text rest = reading at hname
      rw [hless (callOrIdentifier (headOf callee) reading.1 false reading.2)
        (by simp only [row, List.length_cons]; omega)]
  | callOrIdentifier head name command ls =>
    cases htypes : typeArguments ls with
    | none =>
      simp only [step, htypes, hlower (callRest ls) (Nat.le_refl _) (by simp [rank]),
        hlower (commandItems ls) (Nat.le_refl _) (by simp [rank])]
    | some types =>
      have hleft := (typeArguments_takes htypes).suffix.length_le
      simp only [step, htypes, hlower (callRest types.2) hleft (by simp [rank])]
  | callRest ls =>
    have hclosure : ∀ left, left.length ≤ ls.length →
        ask (closureBody left) = answer fuel (closureBody left) :=
      fun left hleft => hlower _ hleft (by simp [rank])
    simp only [step, hlower (parenthesized ls) (Nat.le_refl _) (by simp [rank])]
    split
    · cases harguments : answer fuel (parenthesized ls) with
      | none => rfl
      | some arguments =>
        have hleft := (ht.parenthesized ls _ _ harguments).length_lt
        simp only [Option.bind_eq_bind, Option.bind_some, hclosure _ (Nat.le_of_lt hleft)]
    · simp only [Option.bind_eq_bind, Option.bind_some, hclosure ls (Nat.le_refl _)]
  | parenthesized ls =>
    rcases ls with _ | ⟨opening, _ | ⟨next, rest⟩⟩
    · rfl
    · rfl
    · simp only [step, hless (parenthesizedItems (next :: rest)) (Nat.lt_succ_self _)]
  | parenthesizedItems ls =>
    simp only [step, hlower (argument ls) (Nat.le_refl _) (by simp [rank])]
    cases hargument : answer fuel (argument ls) with
    | none => rfl
    | some first =>
      obtain ⟨node, left⟩ := first
      have hleft := (ht.argument ls node left hargument).length_lt
      cases left with
      | nil => rfl
      | cons separator left =>
        simp only [Option.bind_eq_bind, Option.bind_some,
          hless (parenthesizedItems left) (Nat.lt_of_succ_lt hleft)]
  | commandItems ls =>
    simp only [step, hlower (argument ls) (Nat.le_refl _) (by simp [rank])]
    cases hargument : answer fuel (argument ls) with
    | none => rfl
    | some first =>
      obtain ⟨node, left⟩ := first
      have hleft := (ht.argument ls node left hargument).length_lt
      cases left with
      | nil => rfl
      | cons separator left =>
        simp only [Option.bind_eq_bind, Option.bind_some,
          hless (commandItems left) (Nat.lt_of_succ_lt hleft)]
  | argument ls =>
    have hexpression := hlower (expression ls) (Nat.le_refl _) (by simp [rank])
    rcases ls with _ | ⟨l, _ | ⟨colon, rest⟩⟩
    · exact hexpression
    · exact hexpression
    · simp only [step, hexpression,
        hless (expression rest) (Nat.lt_succ_of_lt (Nat.lt_succ_self _))]
  | expression ls =>
    cases ls with
    | nil => rfl
    | cons l rest =>
      have hname := (dottedName_takes l.text rest).suffix.length_le
      simp only [step, hlower (closureBody (l :: rest)) (Nat.le_refl _) (by simp [rank])]
      generalize dottedName l.text rest = reading at hname
      have hreference := (classReference_takes reading.1 reading.2).suffix.length_le
      generalize classReference reading.1 reading.2 = reference at hreference
      simp only [hless (callOrIdentifier (headOf l) reference.1 false reference.2)
        (Nat.lt_succ_of_le (Nat.le_trans hreference hname))]
  | closureBody ls =>
    cases ls with
    | nil => rfl
    | cons opening rest => simp only [step, hless (statements true rest) (Nat.lt_succ_self _)]

/-- After as many steps as a rule needs, nothing is left of the answers put in at the bottom. -/
theorem iterate_step (ask : (q : Query) → q.Answer) {n : Nat} {q : Query} (h : q.need ≤ n) :
    step^[n] ask q = answer n q := by
  induction n generalizing q with
  | zero =>
    have hrank := rank_pos q
    unfold need at h
    omega
  | succ n ih =>
    rw [Function.iterate_succ_apply', answer]
    exact step_congr q fun q' hq' => ih (Nat.le_of_lt_succ (Nat.lt_of_lt_of_le hq'.need_lt h))

theorem answer_add (fuel n : Nat) : answer (fuel + n) = step^[n] (answer fuel) := by
  induction n with
  | zero => rfl
  | succ n ih =>
    funext q
    rw [Function.iterate_succ_apply', ← ih]
    rfl

/-- More depth than a rule needs changes nothing. -/
theorem answer_eq {n m : Nat} {q : Query} (hn : q.need ≤ n) (hm : n ≤ m) :
    answer m q = answer n q := by
  obtain ⟨k, rfl⟩ := Nat.exists_eq_add_of_le' hm
  rw [answer_add, iterate_step _ hn]

end Query

def Ahead (ls : List Lexeme) (pos : Nat) (left : List Lexeme) : Prop :=
  ∃ next, pos < next ∧ next ≤ ls.length ∧ left = ls.drop next

theorem ahead_of_suffix {ls left : List Lexeme} {pos : Nat} (hpos : pos < ls.length)
    (h : left <:+ ls.drop (pos + 1)) : Ahead ls pos left := by
  have hlength := h.length_le
  rw [List.length_drop] at hlength
  refine ⟨ls.length - left.length, by omega, Nat.sub_le _ _, ?_⟩
  exact List.suffix_iff_eq_drop.mp (List.IsSuffix.trans h (List.drop_suffix _ ls))

/-- The statements of a script take all of its lexemes. -/
theorem statements_parseScript (script : String) :
    statements (fuelFor (Lexeme.scan script).1) false (Lexeme.scan script).1 =
      ((parseScript script).1, []) := by
  have hbehind := @statements_behind (fuelFor (Lexeme.scan script).1) _ (Lexeme.formed_scan script)
    (by unfold fuelFor; omega)
  exact Prod.ext rfl hbehind

/-- A statement always gets ahead in its row, and so does every rule that succeeds. All rules come
to an end, whatever the calls at a depth of `fuelFor` would answer; in particular those that read a
script to its last lexeme. -/
theorem rules_advance_and_end :
    (∀ (ls : List Lexeme) (pos : Nat) (hpos : pos < ls.length) (fuel : Nat),
      (∀ inClosure,
        Ahead ls pos (statementOrVerbatim fuel inClosure ls[pos] (ls.drop (pos + 1))).2) ∧
      (∀ node left, statement fuel ls[pos] (ls.drop (pos + 1)) = some (node, left) →
        Ahead ls pos left) ∧
      (∀ node left, expression fuel (ls.drop pos) = some (node, left) → Ahead ls pos left) ∧
      (∀ node left, argument fuel (ls.drop pos) = some (node, left) → Ahead ls pos left) ∧
      (∀ node left, closureBody fuel (ls.drop pos) = some (node, left) → Ahead ls pos left) ∧
      (∀ arguments left, parenthesized fuel (ls.drop pos) = some (arguments, left) →
        Ahead ls pos left) ∧
      (∀ items left, commandItems fuel (ls.drop pos) = some (items, left) → Ahead ls pos left) ∧
      (∀ node left, delegated fuel ls[pos] (ls.drop (pos + 1)) = some (node, left) →
        Ahead ls pos left)) ∧
    (∀ (ask : (q : Query) → q.Answer) (q : Query) (n : Nat), fuelFor q.row ≤ n →
      Query.step^[n] ask q = Query.answer (fuelFor q.row) q) ∧
    ∀ (script : String) (ask : (q : Query) → q.Answer) (n : Nat),
      fuelFor (Lexeme.scan script).1 ≤ n →
      Query.step^[n] ask (.statements false (Lexeme.scan script).1) =
        ((parseScript script).1, []) := by
  have hends : ∀ (ask : (q : Query) → q.Answer) (q : Query) (n : Nat), fuelFor q.row ≤ n →
      Query.step^[n] ask q = Query.answer (fuelFor q.row) q := by
    intro ask q n hn
    rw [Query.iterate_step ask (Nat.le_trans q.need_le_fuelFor hn),
      Query.answer_eq q.need_le_fuelFor hn]
  refine ⟨?_, hends, ?_⟩
  · intro ls pos hpos fuel
    have ht := taking fuel
    rw [List.drop_eq_getElem_cons hpos]
    refine ⟨?_, ?_, ?_, ?_, ?_, ?_, ?_, ?_⟩
    · exact fun inClosure => ahead_of_suffix hpos (ht.statementOrVerbatim_suffix inClosure _ _)
    · exact fun node left h => ahead_of_suffix hpos (ht.statement _ _ node left h).suffix
    · exact fun node left h => ahead_of_suffix hpos (ht.expression _ node left h).suffix
    · exact fun node left h => ahead_of_suffix hpos (ht.argument _ node left h).suffix
    · exact fun node left h => ahead_of_suffix hpos (ht.closureBody _ node left h).suffix
    · exact fun arguments left h =>
        ahead_of_suffix hpos (ht.parenthesized _ arguments left h).suffix
    · exact fun items left h => ahead_of_suffix hpos (ht.commandItems _ items left h).suffix
    · exact fun node left h => ahead_of_suffix hpos (ht.delegated _ _ node left h).suffix
  · intro script ask n hn
    rw [← statements_parseScript]
    exact hends ask (.statements false (Lexeme.scan script).1) n hn

/-- In `{ ) }` the stray bracket is a statement of its own, and the closure is read. -/
theorem rules_advance_and_end_at_stray_bracket :
    let row : List Lexeme := [⟨.braceOpen, "", "\x7b", 0, 1⟩, ⟨.parenClose, " ", ")", 2, 3⟩,
      ⟨.braceClose, " ", "\x7d", 4, 5⟩]
    Ahead row 1 (statementOrVerbatim 3 true ⟨.parenClose, " ", ")", 2,
      3⟩ [⟨.braceClose, " ", "\x7d", 4, 5⟩]).2 ∧
      (∃ node, closureBody 9 row = some (node, []) ∧ Ahead row 0 []) ∧
      ∀ ask, Query.step^[32] ask (.closureBody row) = closureBody 32 row := by
  intro row
  obtain ⟨hahead, hends, -⟩ := rules_advance_and_end
  have hread : closureBody 9 row = some (closure ⟨1, 0, ""⟩ [raw ⟨3, 0, " "⟩ ")"] " ", []) := rfl
  refine ⟨(hahead row 1 (by decide) 3).1 true,
    ⟨_, hread, (hahead row 0 (by decide) 9).2.2.2.2.1 _ _ hread⟩, ?_⟩
  exact fun ask => hends ask (.closureBody row) 32 (Nat.le_refl _)

end BuildScript.Node
