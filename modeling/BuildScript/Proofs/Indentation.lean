import BuildScript.Proofs.Rerun
import BuildScript.Proofs.Rescanning

/-!
# Indented statements

The indentation of a new statement is copied from the trivia of another one, so there may be
comments in it. As long as they are closed on the same line the statement is read as what it says.
The end of a comment that began on an earlier line is no trivia of its own, and spoils the statement
behind it.
-/

namespace BuildScript

namespace Lexeme

variable {row more : List Stretch} {s : Stretch}

/-- Blanks or a closed comment. A line comment would go on with what follows. -/
def Stretch.isClosed (s : Stretch) : Bool := s.kind = none && s.chars.take 2 ≠ ['/', '/']

def isTrivia (text : String) : Bool :=
  (stretches text.toList.length text.toList).all Stretch.isClosed

theorem Stretch.kind_of_isClosed (h : s.isClosed = true) : s.kind = none := by
  simp only [Stretch.isClosed, Bool.and_eq_true, decide_eq_true_eq] at h
  exact h.1

theorem stops_append (hcut : Cut row) (hrow : Stops isSpace (flat row))
    (hmore : Stops isSpace (flat more)) :
    Stops isSpace (flat (row ++ more)) := by
  cases row with
  | nil => exact hmore
  | cons s row =>
    obtain ⟨⟨c, body, hchars, -⟩, -⟩ := hcut
    intro d rest hd
    have hfirst := hrow c (body ++ flat row) (by simp [hchars])
    simp only [List.cons_append, flat_cons, hchars, List.cons.injEq] at hd
    rw [← hd.1]
    exact hfirst

/-- What makes up one closed comment is the same whatever follows. -/
theorem munch_comment {c : Char} {body text : List Char}
    (hmunch : munch c (body ++ text) = (none, body.length)) (hspace : isSpace c = false)
    (hline : (c :: body).take 2 ≠ ['/', '/']) (other : List Char) :
    munch c (body ++ other) = (none, body.length) := by
  have hrule : Rule c (body ++ text) none body.length := by
    have hrule := rule_munch c (body ++ text)
    rwa [hmunch] at hrule
  generalize hlen : body.length = n at hrule
  cases hrule with
  | space is => exact absurd is (by simp [hspace])
  | @line rest is behind =>
    cases body with
    | nil =>
      rw [List.length_nil] at hlen
      omega
    | cons e body =>
      simp only [List.cons_append, List.cons.injEq] at behind
      simp [is, behind.1] at hline
  | @comment rest n is behind closed =>
    cases body with
    | nil =>
      rw [List.length_nil] at hlen
      omega
    | cons e body =>
      simp only [List.cons_append, List.cons.injEq] at behind
      obtain ⟨rfl, rfl⟩ := behind
      rw [List.length_cons] at hlen
      have hfit : n ≤ body.length := by omega
      exact munch_of_rule (.comment is rfl (commentRest_append closed hfit other)) (by simp)

/-- Closed trivia may be followed by anything but further blanks. -/
theorem cut_closed_append (hcut : Cut row) (hclosed : ∀ s ∈ row, s.isClosed = true)
    (hstops : Stops isSpace (flat more)) (hmore : Cut more) : Cut (row ++ more) := by
  induction row with
  | nil => exact hmore
  | cons s row ih =>
    rw [List.forall_mem_cons] at hclosed
    have hbehind := ih hcut.2 hclosed.2
    obtain ⟨kind, chars⟩ := s
    obtain rfl : kind = none := Stretch.kind_of_isClosed hclosed.1
    by_cases hblank : Stops isSpace chars
    · obtain ⟨⟨c, body, rfl, hmunch⟩, -⟩ := hcut
      have hline : (c :: body).take 2 ≠ ['/', '/'] := by
        simp only [Stretch.isClosed, Bool.and_eq_true, decide_eq_true_eq] at hclosed
        exact hclosed.1.2
      exact ⟨⟨c, body, rfl, munch_comment hmunch (hblank c body rfl) hline _⟩, hbehind⟩
    · obtain ⟨hspaces, hnext⟩ := hcut.blanks hblank
      have hstops' := stops_append hcut.2 hnext hstops
      obtain ⟨⟨c, body, rfl, -⟩, -⟩ := hcut
      rw [List.forall_mem_cons] at hspaces
      exact cut_space hspaces.1 hspaces.2 hstops' hbehind

/-- A line break in front of closed trivia leaves them closed. -/
theorem exists_break (hcut : Cut row) (hclosed : ∀ s ∈ row, s.isClosed = true) :
    ∃ broken, flat broken = '\n' :: flat row ∧ Cut broken ∧ ∀ s ∈ broken, s.isClosed = true := by
  have hspace : isSpace '\n' = true := rfl
  by_cases hfirst : Stops isSpace (flat row)
  · refine ⟨⟨none, ['\n']⟩ :: row, rfl, cut_space hspace (by simp) hfirst hcut, ?_⟩
    exact List.forall_mem_cons.mpr ⟨by decide, hclosed⟩
  · -- The line break joins the blanks that are there.
    cases row with
    | nil => exact absurd (fun c rest h => by cases h) hfirst
    | cons s row =>
      rw [List.forall_mem_cons] at hclosed
      have hblank : ¬ Stops isSpace s.chars := by
        intro hstops
        obtain ⟨⟨c, body, hchars, -⟩, -⟩ := hcut
        refine hfirst fun d rest hd => hstops d body ?_
        simp only [flat_cons, hchars, List.cons_append, List.cons.injEq] at hd
        rw [hchars, hd.1]
      obtain ⟨hspaces, hnext⟩ := hcut.blanks hblank
      refine ⟨⟨none, '\n' :: s.chars⟩ :: row, rfl, cut_space hspace hspaces hnext hcut.2, ?_⟩
      exact List.forall_mem_cons.mpr ⟨by simp [Stretch.isClosed], hclosed.2⟩

end Lexeme

namespace Recipe

open Lexeme

variable {configuration text indent : String} {dependency : Dependency}

/-- A written statement with closed trivia in front of it is read as the declaration. -/
theorem Writes.indented (h : Writes configuration dependency text)
    (hindent : isTrivia indent = true) :
    ∃ d, Node.parseSnippet ("\n" ++ indent ++ text) = [d] ∧
      d.IsDeclaration ("\n" ++ indent) configuration dependency := by
  obtain ⟨hflat, hcut⟩ := @cut_stretches indent.toList.length indent.toList (Nat.le_refl _)
  have hclosed := List.all_eq_true.mp hindent
  obtain ⟨trivia, hbroken, hcutBroken, hclosedBroken⟩ := exists_break hcut hclosed
  have hkinds : ∀ s ∈ trivia, s.kind = none :=
    fun s hs => Stretch.kind_of_isClosed (hclosedBroken s hs)
  have hread := h.behind hkinds fun _ => cut_closed_append hcutBroken hclosedBroken
  have hlead : String.ofList (flat trivia) = "\n" ++ indent := by
    rw [hbroken, hflat, String.ext_iff, String.toList_ofList, String.toList_append]
    rfl
  rwa [hlead] at hread

/-- A statement that is appended to a block behind closed trivia is a call that declares the
dependency, whatever else stands in the block. -/
theorem appended_statement_declares {r : Recipe} {f : SourceFile} {version : Option String}
    {t : Target} {h ch : Head}
    {block : Call Node} {statements : List Node} {tail : String} (hmade : r.IsMade)
    (hplain : r.IsPlain f.graph?)
    (hversion : r.version f.graph? = .ok version) (hname : isIdentifier t.declared = true)
    (hblock : block.closure = some (.closure ch statements tail))
    (hindent : isTrivia (Insertion.statementIndent ((lineIndent? h.lead).getD "") statements) =
      true) :
    ∃ d new found, Insertion.append? (r.statementFor f version t) h block = some new ∧
      Grows d h block new ∧
      (∃ head call, d = .call head call) ∧ Declaration.ofStatement? d = some ⟨t.declared,
        ⟨r.coordinate, found⟩⟩ := by
  obtain ⟨dependency, hdependency, hwrites⟩ := writes_statementFor hmade hplain hversion
  obtain ⟨d, hparse, hdeclaration⟩ := (hwrites t hname).indented hindent
  have happend : Insertion.append? (r.statementFor f version t) h block =
      some (.call h.revised { block with
      closure := some (.closure ch.revised (statements ++ [d])
        (Insertion.brokenTail ((lineIndent? h.lead).getD "") tail)) }) := by
    simp only [Insertion.append?, hblock, hparse]
  have hcall : ∃ head call, d = .call head call := by
    obtain ⟨written, ⟨-, -⟩, -⟩ := hdeclaration
    exact ⟨_, _, rfl⟩
  refine ⟨d, _, dependency.version, happend, .mk hblock, hcall, ?_⟩
  rw [hdeclaration.ofStatement?, ← hdependency]

/-- The block stands behind a comment, which is repeated in front of the statement. -/
theorem appended_statement_declares_behind_comment :
    let h : Head := Head.new 1 "\n  /* own */ "
    let block : Call Node := .plain "dependencies" none (some (.closure (Head.new 2 " ") [] " "))
    let statement := sample.statementFor (buildFile "") none ⟨"implementation", .topLevel⟩
    (Insertion.append? statement h block).map Node.print =
        some "\n  /* own */ dependencies \x7b\n  /* own */     implementation \"g:a\"\n  /* own */ \x7d" ∧
      ∃ d new found, Insertion.append? statement h block = some new ∧ Grows d h block new ∧
        (∃ head call, d = .call head call) ∧
        Declaration.ofStatement? d = some ⟨"implementation", ⟨⟨"g", "a"⟩, found⟩⟩ := by
  intro h block statement
  refine ⟨by decide +kernel, ?_⟩
  exact appended_statement_declares isMade_sample (isPlain_sample (buildFile "").graph?) rfl
    (by decide +kernel) rfl (by decide +kernel)

def blockBehindComment : SourceFile := buildFile "/* a\n b */ dependencies \x7b \x7d"

/-- The end of the comment is taken for indentation. What is appended behind it is no call and
declares nothing. -/
theorem appended_statement_declares_nothing :
    blockBehindComment.IsRead ∧ sample.IsMade ∧ sample.IsPlain blockBehindComment.graph? ∧
      sample.version blockBehindComment.graph? = .ok none ∧
      ((blockBehindComment.statements.head?.bind fun
        | .call h block =>
          Insertion.append? (sample.statementFor blockBehindComment none ⟨"implementation",
            .topLevel⟩) h block
        | _ =>
          none).any fun new => new.call?.any fun grown => grown.statements.getLast?.any fun d =>
          d.call?.isNone && (Declaration.ofStatement? d).isNone) = true :=
  ⟨isRead_buildFile _, isMade_sample, isPlain_sample _, rfl, by decide +kernel⟩

end Recipe

end BuildScript
