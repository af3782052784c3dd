import BuildScript.Proofs.Lists
import BuildScript.Proofs.Pieces
import BuildScript.Proofs.Rerun

/-!
# What a visit leaves of the text

Each declaration that a visit writes is one insertion: at the end of a `dependencies` block, which
may have grown before, or in a block behind the last statement. Nothing else happens to the text of
a file.
-/

namespace BuildScript

section Step

variable {scope : Scope} {h head : Head} {block : Call Node} {d new a b n m m' : Node}
    {list : List Node} {tail : String}
variable {enclosing : Option (Call Node)} {room : Option String} {k l : Nat}

theorem brokenTail_brokenTail (indent tail : String) :
    Insertion.brokenTail indent (Insertion.brokenTail indent tail) =
      Insertion.brokenTail indent tail := by
  have hline : (Insertion.brokenTail indent tail).toList.contains '\n' = true := by
    unfold Insertion.brokenTail
    split
    · assumption
    · simp
  rw [Insertion.brokenTail, if_pos hline]

namespace Grown

theorem exists_closure (hgrown : Grown (.node room n) (.node room (.closure head list tail)) k) :
    ∃ h statements before statements' news i j, n = .closure h statements before ∧
      list = statements' ++ news ∧
      head.lead = h.lead ∧ Grown (.nodes statements) (.nodes statements') i ∧
      Ending (room.map Insertion.brokenTail) before news tail j ∧ k = i + j := by
  cases hgrown with
  | closure lead inside ending => exact ⟨_, _, _, _, _, _, _, rfl, rfl, lead, inside, ending, rfl⟩

/-- One more insertion below one of some statements. -/
theorem replace_nodes {before after : List Node}
    (hstep : ∀ n k, Grown (.node none n) (.node none a) k →
      Grown (.node none n) (.node none b) (k + 1))
    (hgrown : Grown (.nodes list) (.nodes (before ++ a :: after)) k) :
    Grown (.nodes list) (.nodes (before ++ b :: after)) (k + 1) := by
  induction before generalizing list k with
  | nil =>
    cases hgrown with
    | @cons _ _ _ _ i j first rest =>
      rw [Nat.add_right_comm]
      exact .cons (hstep _ _ first) rest
  | cons c before ih =>
    cases hgrown with
    | cons first rest =>
      rw [Nat.add_assoc]
      exact .cons first (ih rest)

theorem replace_items {items before after : List (Argument Node)} {trail : String}
    (hstep : ∀ n k, Grown (.node none n) (.node none a) k →
      Grown (.node none n) (.node none b) (k + 1))
    (hgrown : Grown (.items items) (.items (before ++ ⟨a, trail⟩ :: after)) k) :
    Grown (.items items) (.items (before ++ ⟨b, trail⟩ :: after)) (k + 1) := by
  induction before generalizing items k with
  | nil =>
    cases hgrown with
    | @item _ _ _ _ _ i j first rest =>
      rw [Nat.add_right_comm]
      exact .item (hstep _ _ first) rest
  | cons c before ih =>
    cases hgrown with
    | item first rest =>
      rw [Nat.add_assoc]
      exact .item first (ih rest)

/-- A block that has grown before grows again. -/
theorem grows (hgrown : Grown (.node room n) (.node room (.call h block)) k)
    (hblock : block.isBlock = true) (hgrows : Grows d h block new) :
    Grown (.node room n) (.node room new) (k + 1) := by
  cases hgrows with
  | @mk ch _ statements tail is =>
    cases hgrown with
    | @call _ h₀ _ name types given given' body body' delegate i j lead arguments inside =>
      obtain rfl : body' = some (.closure ch statements tail) := is
      cases inside with
      | @someBody _ c _ _ inside =>
        have hroom : Call.room h₀ ⟨name, types, given, some c,
            delegate⟩ = some ((lineIndent? h.lead).getD "") := by
          have hsame : Call.isBlock ⟨name, types, given, some c, delegate⟩ = true := hblock
          rw [Call.room, if_pos hsame, lead]
        rw [hroom] at inside
        obtain ⟨ch₀, list, before, statements', news, i', j', rfl, rfl, hlead, hinside,
          hending, rfl⟩ :=
          inside.exists_closure
        have hending' : Ending (Option.map Insertion.brokenTail (some _)) before
            (news ++ [d]) _ (j' + 1) :=
          hending.append (brokenTail_brokenTail _) [d]
        have hbody := Grown.closure (show ch.revised.lead = ch₀.lead from hlead) hinside hending'
        rw [← hroom, ← List.append_assoc] at hbody
        rw [Nat.add_assoc, Nat.add_assoc]
        exact .call lead arguments (.someBody hbody)

/-- One more insertion somewhere in a tree. -/
theorem replaces (hreplaces : scope.Replaces h block new enclosing m m')
    (hgrows : Grows d h block new) (hgrown : Grown (.node room n) (.node room m) k) :
    Grown (.node room n) (.node room m') (k + 1) := by
  induction hreplaces generalizing room n k with
  | here is inside => exact hgrown.grows is hgrows
  | @argument enclosing head c parenthesized lead tail trail before after a b skipped is earlier
    inside ih =>
    cases hgrown with
    | @call _ _ _ _ _ _ given' _ _ _ i j lead' arguments body =>
      obtain rfl : given' = some ⟨parenthesized, lead, before ++ ⟨a, trail⟩ :: after, tail⟩ := is
      cases arguments with
      | someArguments items =>
        rw [Nat.add_right_comm]
        exact .call lead' (.someArguments (replace_items (fun _ _ hnode => ih hnode) items)) body
  | @body enclosing head c a b skipped earlier is inside ih =>
    cases hgrown with
    | @call _ _ _ _ _ _ _ _ body' _ i j lead arguments body =>
      obtain rfl : body' = some a := is
      cases body with
      | someBody hnode =>
        rw [Nat.add_assoc]
        exact .call lead arguments (.someBody (ih hnode))
  | @statement enclosing head before after a b tail earlier inside ih =>
    obtain ⟨h₀, list, tail₀, statements', news, i, j, rfl, hlist, hlead, hnodes, hending, rfl⟩ :=
      hgrown.exists_closure
    rcases exists_of_append_eq hlist with ⟨rest, rfl, rfl⟩ | ⟨first, rfl, rfl⟩
    · have hclosure := Grown.closure (show head.revised.lead = h₀.lead from hlead)
        (replace_nodes (fun _ _ hnode => ih hnode) hnodes) hending
      rw [Nat.add_right_comm]
      simpa using hclosure
    · -- The insertion goes into one that was made before.
      have hclosure := Grown.closure (show head.revised.lead = h₀.lead from hlead) hnodes
        (hending.replace (by simp) (first ++ b :: after))
      rw [Nat.add_assoc]
      simpa using hclosure
  | named inside ih =>
    cases hgrown with
    | named lead value => exact .named lead (ih value)
  | target inside ih =>
    cases hgrown with
    | assignment lead target value =>
      rw [Nat.add_right_comm]
      exact .assignment lead (ih target) value
  | value earlier inside ih =>
    cases hgrown with
    | assignment lead target value =>
      rw [Nat.add_assoc]
      exact .assignment lead target (ih value)

end Grown

end Step

/-- A file does not end in a statement that was appended. -/
def SourceFile.finishTail (tail : String) : String := if tail.isEmpty then "\n" else tail

theorem SourceFile.finishTail_finishTail (tail : String) :
    finishTail (finishTail tail) = finishTail tail := by
  by_cases htail : tail.isEmpty = true
  · have hbreak : finishTail tail = "\n" := if_pos htail
    rw [hbreak]
    rfl
  · have hkept : finishTail tail = tail := if_neg htail
    rw [hkept, hkept]

namespace SourceFile

variable {f edited : SourceFile} {k : Nat}

def pieces (f : SourceFile) : List Piece := .text f.head.lead :: Node.piecesOf f.statements

/-- What a file may look like after a number of insertions. They are made in its pieces and behind
the last statement. If something stands there now and nothing stood behind it, the file ends in a
line break. -/
inductive Extended (f : SourceFile) : Nat → String → Prop
  | inside {k : Nat} {text : String} (become : Piece.Become f.pieces k text) :
      Extended f k (text ++ f.tail)
  | behind {k l : Nat} {text inserted : String} (become : Piece.Become f.pieces k text) :
      Extended f (k + (l + 1)) (text ++ inserted ++ if f.tail.isEmpty then "\n" else f.tail)

inductive Enlarged (f edited : SourceFile) : Nat → Prop
  | mk {statements news : List Node} {k l : Nat} (lead : edited.head.lead = f.head.lead)
      (is : edited.statements = statements ++ news)
      (inside : Grown (.nodes f.statements) (.nodes statements) k)
      (behind : Ending (some finishTail) f.tail news edited.tail l) :
      Enlarged f edited (k + l)

theorem Enlarged.refl (f : SourceFile) : Enlarged f f 0 :=
  .mk rfl (List.append_nil _).symm (Grown.refl_nodes fun n _ => Grown.refl none n) .same

theorem Enlarged.extended (h : Enlarged f edited k) : f.Extended k edited.print := by
  cases h with
  | @mk statements news k l lead is inside behind =>
    have hbecome := inside.become.text_cons f.head.lead
    have hprint : edited.print =
        f.head.lead ++ Node.printAll statements ++ Node.printAll news ++ edited.tail := by
      rw [print, lead, is, Node.printAll_append, String.append_assoc, String.append_assoc,
        String.append_assoc, String.append_assoc]
    rw [hprint]
    generalize edited.tail = tail at behind
    cases behind with
    | same =>
      rw [Node.printAll, String.append_empty]
      exact .inside hbecome
    | grown is =>
      cases is
      exact .behind hbecome

theorem printAll_pieces (f : SourceFile) : Piece.printAll f.pieces ++ f.tail = f.print := by
  have hbecome : Piece.Become f.pieces 0 (f.head.lead ++ Node.printAll f.statements) :=
    (Grown.refl_nodes fun n _ => Grown.refl none n).become.text_cons f.head.lead
  rw [print, ← hbecome.eq_printAll rfl]

/-- One more insertion into a block of the file. -/
theorem Enlarged.replaces {scope : Scope} {h : Head} {block : Call Node} {d new a m : Node}
    {before after : List Node} (henlarged : Enlarged f edited k) (hgrows : Grows d h block new)
    (his : edited.statements = before ++ a :: after)
    (hreplaces : scope.Replaces h block new none a m) :
    Enlarged f (edited.withStatements (before ++ m :: after)) (k + 1) := by
  cases henlarged with
  | @mk statements news k l lead is inside behind =>
    rw [his] at is
    rcases exists_of_append_eq is with ⟨rest, rfl, rfl⟩ | ⟨first, rfl, rfl⟩
    · have hinside :=
        Grown.replace_nodes (fun _ _ hnode => Grown.replaces hreplaces hgrows hnode) inside
      rw [Nat.add_right_comm]
      exact .mk lead (by simp [withStatements]) hinside behind
    · rw [Nat.add_assoc]
      exact .mk lead (by simp [withStatements]) inside
        (behind.replace (by simp) (first ++ m :: after))

theorem Enlarged.appendBlock (h : Enlarged f edited k) (statement : String) :
    Enlarged f (edited.appendBlock statement) (k + 1) := by
  cases h with
  | @mk statements news k l lead is inside behind =>
    have his : ∃ blocks, (edited.appendBlock statement).statements = edited.statements ++ blocks :=
      ⟨_, rfl⟩
    obtain ⟨blocks, his⟩ := his
    rw [is, List.append_assoc] at his
    rw [Nat.add_assoc]
    exact .mk lead his inside (behind.append finishTail_finishTail blocks)

end SourceFile

theorem exists_grows {i : Insertion} {h : Head} {block : Call Node} {new : Node}
    (hinto : i.intoBlock? h block = some new) : ∃ d, Grows d h block new := by
  obtain ⟨-, happend⟩ := Insertion.intoBlock?_eq_some_iff.mp hinto
  unfold Insertion.append? at happend
  split at happend
  · rename_i ch statements tail is
    simp only at happend
    split at happend
    · rename_i d others hparse
      obtain rfl := Option.some.inj happend
      exact ⟨d, .mk is⟩
    · cases happend
  · cases happend

namespace Recipe

variable {r : Recipe} {f edited : SourceFile} {k : Nat}

/-- Declaring for one target is one insertion at most. -/
theorem enlarged_declare (henlarged : f.Enlarged edited k) (text : String) (t : Target) :
    ∃ n ≤ k + 1, f.Enlarged (r.declare text edited t) n := by
  have houtcome :=
    Insertion.outcome_intoFile ⟨Target.scope t, r.coordinate, t.declared, text⟩ edited
  rw [declare_eq]
  generalize Insertion.intoFile ⟨Target.scope t, r.coordinate, t.declared,
    text⟩ edited = outcome at *
  generalize (Target.scope t).seekAll none edited.statements = found at *
  cases houtcome with
  | missing =>
    simp only
    split_ifs
    · exact ⟨k + 1, Nat.le_refl _, henlarged.appendBlock text⟩
    · exact ⟨k, Nat.le_succ k, henlarged⟩
  | kept is => exact ⟨k, Nat.le_succ k, henlarged⟩
  | changed is related =>
    obtain ⟨before, a, after, m, hlist, -, hreplaces, rfl⟩ := related
    obtain ⟨d, hgrows⟩ := exists_grows is
    exact ⟨k + 1, Nat.le_refl _, henlarged.replaces hgrows hlist hreplaces⟩

theorem enlarged_declareAll (text : Target → String) (targets : List Target)
    (henlarged : f.Enlarged edited k) :
    ∃ n ≤ k + targets.length, f.Enlarged (r.declareAll text targets edited) n := by
  induction targets generalizing edited k with
  | nil => exact ⟨k, Nat.le_refl _, henlarged⟩
  | cons t targets ih =>
    obtain ⟨i, hi, hfirst⟩ := @enlarged_declare r f edited k henlarged (text t) t
    obtain ⟨n, hn, hrest⟩ := ih hfirst
    refine ⟨n, ?_, hrest⟩
    rw [List.length_cons]
    omega

theorem enlarged_edit (r : Recipe) (s : Scanned) (f : SourceFile) :
    ∃ n ≤ (r.plan f s).targets.length, f.Enlarged (r.edit s f).1 n := by
  rw [edit_eq]
  cases r.version f.graph? with
  | ok version =>
    obtain ⟨n, hn, henlarged⟩ :=
      @enlarged_declareAll r f f 0 (r.statementFor f version) (r.plan f s).targets (.refl f)
    exact ⟨n, by omega, henlarged⟩
  | error e => exact ⟨0, Nat.zero_le _, .refl f⟩

/-- A visit makes no more insertions in the text of a file than there are targets, and does nothing
else to it than to put closing braces on lines of their own. -/
theorem visitFile_only_inserts (r : Recipe) (s : Scanned) (f : SourceFile) :
    Piece.printAll f.pieces ++ f.tail = f.print ∧
      ∃ n ≤ (r.plan f s).targets.length, f.Extended n (Run.visitFile r s f).1.print := by
  refine ⟨f.printAll_pieces, ?_⟩
  unfold Run.visitFile
  split_ifs
  · exact ⟨0, Nat.zero_le _, (SourceFile.Enlarged.refl f).extended⟩
  · obtain ⟨n, hn, henlarged⟩ := r.enlarged_edit s f
    exact ⟨n, hn, henlarged.extended⟩

example :
    let f := buildFile "dependencies \x7b /* own */ \x7d // end"
    (Run.visitFile sample (sample.scan [f]) f).1.print =
      "dependencies \x7b\n    implementation \"g:a\" /* own */\n\x7d // end" := by
  decide +kernel

end Recipe

end BuildScript
