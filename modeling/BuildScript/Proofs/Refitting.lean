import BuildScript.Proofs.Rescanning

/-!
# Spelling an edited tree

If some lexemes spell a tree in which a block grows, the grown tree is spelled by the same lexemes
with those of the new statement in front of the brace that closes the block. Positions of lexemes do
not matter for what they spell.
-/

namespace BuildScript

namespace Node

section Positions

open Lexeme (unplaced)

variable {l m : Lexeme} {ts us : List Lexeme}

theorem map_unplaced_cons (h : (l :: ts).map unplaced = us.map unplaced) :
    ∃ m vs, us = m :: vs ∧ l.unplaced = m.unplaced ∧ ts.map unplaced = vs.map unplaced := by
  obtain ⟨m, vs, rfl, hm, hvs⟩ := List.map_eq_cons_iff.mp h.symm
  exact ⟨m, vs, rfl, hm.symm, hvs.symm⟩

theorem map_unplaced_append {vs : List Lexeme} (h : (ts ++ vs).map unplaced = us.map unplaced) :
    ∃ us' vs', us = us' ++ vs' ∧ ts.map unplaced = us'.map unplaced ∧
      vs.map unplaced = vs'.map unplaced := by
  rw [List.map_append] at h
  obtain ⟨us', vs', rfl, hus, hvs⟩ := List.map_eq_append_iff.mp h.symm
  exact ⟨us', vs', rfl, hus.symm, hvs.symm⟩

theorem kind_of_unplaced (h : l.unplaced = m.unplaced) :
    m.kind = l.kind := (congrArg Lexeme.kind h).symm

theorem lead_of_unplaced (h : l.unplaced = m.unplaced) :
    m.lead = l.lead := (congrArg Lexeme.lead h).symm

theorem text_of_unplaced (h : l.unplaced = m.unplaced) :
    m.text = l.text := (congrArg Lexeme.text h).symm

theorem marks_of_unplaced {kind : LexemeKind} {text : String} (h : l.unplaced = m.unplaced)
    (mark : l.Marks kind text) :
    m.Marks kind text :=
  ⟨(kind_of_unplaced h).trans mark.1, (text_of_unplaced h).trans mark.2⟩

theorem startsLine_of_unplaced (h : l.unplaced = m.unplaced) : m.startsLine = l.startsLine := by
  rw [Lexeme.startsLine, Lexeme.startsLine, lead_of_unplaced h]

theorem constant?_of_unplaced {value : LiteralValue} {source : String} (h : l.unplaced = m.unplaced)
    (is : constant? l = some (.literal (headOf l) value source)) :
    constant? m = some (.literal (headOf m) value source) := by
  unfold constant? at is ⊢
  rw [kind_of_unplaced h, text_of_unplaced h]
  split at is
  · simp only [Option.some.injEq, literal.injEq, true_and] at is
    obtain ⟨rfl, rfl⟩ := is
    rfl
  · simp only [Option.some.injEq, literal.injEq, true_and] at is
    obtain ⟨rfl, rfl⟩ := is
    rfl
  · split_ifs at is ⊢ <;> simp_all
  · cases is

theorem isName_of_unplaced (h : l.unplaced = m.unplaced) (word : IsName l) : IsName m :=
  ⟨(kind_of_unplaced h).trans word.1, (text_of_unplaced h) ▸ word.2⟩

theorem terminated_of_unplaced (h : ts.map unplaced = us.map unplaced) :
    terminated us = terminated ts := by
  cases ts with
  | nil => rw [List.map_eq_nil_iff.mp h.symm]
  | cons l ts =>
    obtain ⟨m, vs, rfl, hm, -⟩ := map_unplaced_cons h
    simp only [terminated, startsLine_of_unplaced hm, kind_of_unplaced hm]

theorem startsCommand_of_unplaced (h : ts.map unplaced = us.map unplaced) :
    startsCommand us = startsCommand ts := by
  cases ts with
  | nil => rw [List.map_eq_nil_iff.mp h.symm]
  | cons l ts =>
    obtain ⟨m, vs, rfl, hm, -⟩ := map_unplaced_cons h
    simp only [startsCommand, startsLine_of_unplaced hm, kind_of_unplaced hm, Lexeme.adjoins,
      lead_of_unplaced hm]

theorem Segments.unplaced {start name : String} (h : Segments start ts name)
    (hus : ts.map Lexeme.unplaced = us.map Lexeme.unplaced) : Segments start us name := by
  induction h generalizing us with
  | nil name =>
    rw [List.map_eq_nil_iff.mp hus.symm]
    exact .nil name
  | cons mark first word second more ih =>
    obtain ⟨dot, vs, rfl, hdot, hvs⟩ := map_unplaced_cons hus
    obtain ⟨segment, ws, rfl, hsegment, hws⟩ := map_unplaced_cons hvs
    refine .cons (marks_of_unplaced hdot mark) ((lead_of_unplaced hdot).trans first)
      ((kind_of_unplaced hsegment).trans word) ((lead_of_unplaced hsegment).trans second) ?_
    rw [text_of_unplaced hsegment]
    exact ih hws

theorem Reference.unplaced {start name : String} (h : Reference start ts name)
    (hus : ts.map Lexeme.unplaced = us.map Lexeme.unplaced) : Reference start us name := by
  cases h with
  | plain segments => exact .plain (segments.unplaced hus)
  | member segments mark near mark' near' kind near'' =>
    obtain ⟨us', vs, rfl, hus', hvs⟩ := map_unplaced_append hus
    obtain ⟨first, vs, rfl, hfirst, hvs⟩ := map_unplaced_cons hvs
    obtain ⟨second, vs, rfl, hsecond, hvs⟩ := map_unplaced_cons hvs
    obtain ⟨word, vs, rfl, hword, hvs⟩ := map_unplaced_cons hvs
    rw [List.map_eq_nil_iff.mp hvs.symm, ← text_of_unplaced hword]
    exact .member (segments.unplaced hus') (marks_of_unplaced hfirst mark)
      ((lead_of_unplaced hfirst).trans near)
      (marks_of_unplaced hsecond mark') ((lead_of_unplaced hsecond).trans near')
      ((kind_of_unplaced hword).trans kind) ((lead_of_unplaced hword).trans near'')

theorem writtenAll_of_unplaced (h : ts.map unplaced = us.map unplaced) :
    Lexeme.writtenAll us = Lexeme.writtenAll ts := by
  induction ts generalizing us with
  | nil => rw [List.map_eq_nil_iff.mp h.symm]
  | cons l ts ih =>
    obtain ⟨m, vs, rfl, hm, hvs⟩ := map_unplaced_cons h
    rw [Lexeme.writtenAll_cons, Lexeme.writtenAll_cons, ih hvs, lead_of_unplaced hm,
      text_of_unplaced hm]

theorem Types.unplaced {text : String} (h : Types text ts)
    (hus : ts.map Lexeme.unplaced = us.map Lexeme.unplaced) :
    Types text us := by
  cases h with
  | @mk opening first close inner mark near inside mark' =>
    simp only [List.cons_append] at hus
    obtain ⟨opening', vs, rfl, hopening, hvs⟩ := map_unplaced_cons hus
    have hwritten := writtenAll_of_unplaced hvs
    obtain ⟨first', vs, rfl, hfirst, hvs⟩ := map_unplaced_cons hvs
    obtain ⟨inner', vs, rfl, hinner, hvs⟩ := map_unplaced_append hvs
    obtain ⟨close', vs, rfl, hclose, hvs⟩ := map_unplaced_cons hvs
    obtain rfl := List.map_eq_nil_iff.mp hvs.symm
    rw [List.cons_append, ← hwritten]
    refine .mk (marks_of_unplaced hopening mark) ((lead_of_unplaced hopening).trans near) ?_
      (marks_of_unplaced hclose mark')
    intro l hl
    have hmem : l.unplaced ∈ (first :: inner).map Lexeme.unplaced := by
      rw [List.map_cons, hfirst, hinner, ← List.map_cons]
      exact List.mem_map_of_mem hl
    obtain ⟨k, hk, heq⟩ := List.mem_map.mp hmem
    have hkind := kind_of_unplaced heq
    unfold InTypes
    rw [hkind]
    exact inside k hk

/-- The same lexemes at other positions spell the same. -/
theorem Spelled.unplaced {phrase : Phrase} (h : Spelled phrase ts)
    (hus : ts.map Lexeme.unplaced = us.map Lexeme.unplaced) : Spelled phrase us := by
  induction h generalizing us with
  | constant is lead =>
    obtain ⟨m, vs, rfl, hm, hvs⟩ := map_unplaced_cons hus
    rw [List.map_eq_nil_iff.mp hvs.symm]
    exact .constant (constant?_of_unplaced hm is) (lead.trans (lead_of_unplaced hm).symm)
  | identifier word lead reference =>
    obtain ⟨m, vs, rfl, hm, hvs⟩ := map_unplaced_cons hus
    rw [← text_of_unplaced hm] at reference
    exact .identifier (isName_of_unplaced hm word) (lead.trans (lead_of_unplaced hm).symm)
      (reference.unplaced hvs)
  | call word lead reference tail ih =>
    rw [List.cons_append] at hus
    obtain ⟨m, vs, rfl, hm, hvs⟩ := map_unplaced_cons hus
    obtain ⟨ts', us', rfl, hts, hus⟩ := map_unplaced_append hvs
    rw [← text_of_unplaced hm] at reference
    exact .call (isName_of_unplaced hm word) (lead.trans (lead_of_unplaced hm).symm)
      (reference.unplaced hts) (ih hus)
  | closure block ih => exact .closure (ih hus)
  | block mark lead inside mark' ih =>
    rw [List.cons_append] at hus
    obtain ⟨opening, vs, rfl, hopening, hvs⟩ := map_unplaced_cons hus
    obtain ⟨ts', vs, rfl, hts, hvs⟩ := map_unplaced_append hvs
    obtain ⟨close, vs, rfl, hclose, hvs⟩ := map_unplaced_cons hvs
    rw [List.map_eq_nil_iff.mp hvs.symm, ← lead_of_unplaced hclose]
    exact .block (marks_of_unplaced hopening mark)
      (lead.trans (lead_of_unplaced hopening).symm) (ih hts)
      (marks_of_unplaced hclose mark')
  | named word lead mark is ih =>
    obtain ⟨m, vs, rfl, hm, hvs⟩ := map_unplaced_cons hus
    obtain ⟨colon, vs, rfl, hcolon, hvs⟩ := map_unplaced_cons hvs
    rw [← lead_of_unplaced hcolon, ← text_of_unplaced hm]
    exact .named ((kind_of_unplaced hm).trans word) (lead.trans (lead_of_unplaced hm).symm)
      (marks_of_unplaced hcolon mark) (ih hvs)
  | unnamed is ih => exact .unnamed (ih hus)
  | last is mark ih =>
    obtain ⟨ts', vs, rfl, hts, hvs⟩ := map_unplaced_append hus
    obtain ⟨close, vs, rfl, hclose, hvs⟩ := map_unplaced_cons hvs
    rw [List.map_eq_nil_iff.mp hvs.symm, ← lead_of_unplaced hclose]
    exact .last (ih hts) (marks_of_unplaced hclose mark)
  | item is mark more ih ih' =>
    obtain ⟨ts', vs, rfl, hts, hvs⟩ := map_unplaced_append hus
    obtain ⟨comma, vs, rfl, hcomma, hvs⟩ := map_unplaced_cons hvs
    rw [← lead_of_unplaced hcomma]
    exact .item (ih hts) (marks_of_unplaced hcomma mark) (ih' hvs)
  | lastCommand is ih => exact .lastCommand (ih hus)
  | command is mark more ih ih' =>
    obtain ⟨ts', vs, rfl, hts, hvs⟩ := map_unplaced_append hus
    obtain ⟨comma, vs, rfl, hcomma, hvs⟩ := map_unplaced_cons hvs
    rw [← lead_of_unplaced hcomma]
    exact .command (ih hts) (marks_of_unplaced hcomma mark) (ih' hvs)
  | empty mark mark' =>
    obtain ⟨opening, vs, rfl, hopening, hvs⟩ := map_unplaced_cons hus
    obtain ⟨close, vs, rfl, hclose, hvs⟩ := map_unplaced_cons hvs
    rw [List.map_eq_nil_iff.mp hvs.symm, ← lead_of_unplaced hopening, ← lead_of_unplaced hclose]
    exact .empty (marks_of_unplaced hopening mark) (marks_of_unplaced hclose mark')
  | items mark inside ih =>
    obtain ⟨opening, vs, rfl, hopening, hvs⟩ := map_unplaced_cons hus
    rw [← lead_of_unplaced hopening]
    exact .items (marks_of_unplaced hopening mark) (ih hvs)
  | arguments is line ih =>
    have his := ih hus
    obtain ⟨opening, vs, rfl, hopening, -⟩ := map_unplaced_cons hus
    exact .arguments his ((startsLine_of_unplaced hopening).trans line)
  | body is line ih =>
    have his := ih hus
    obtain ⟨opening, vs, rfl, hopening, -⟩ := map_unplaced_cons hus
    exact .body his ((startsLine_of_unplaced hopening).trans line)
  | both is line is' line' ih ih' =>
    obtain ⟨vs, ws, rfl, hvs, hws⟩ := map_unplaced_append hus
    have his := ih hvs
    have his' := ih' hws
    obtain ⟨opening, vs, rfl, hopening, -⟩ := map_unplaced_cons hvs
    obtain ⟨opening', ws, rfl, hopening', -⟩ := map_unplaced_cons hws
    exact .both his ((startsLine_of_unplaced hopening).trans line) his'
      ((startsLine_of_unplaced hopening').trans line')
  | untyped is ih => exact .untyped (ih hus)
  | typed types is ih =>
    obtain ⟨vs, ws, rfl, hvs, hws⟩ := map_unplaced_append hus
    exact .typed (types.unplaced hvs) (ih hws)
  | constantStatement is lead =>
    obtain ⟨m, vs, rfl, hm, hvs⟩ := map_unplaced_cons hus
    rw [List.map_eq_nil_iff.mp hvs.symm]
    exact .constantStatement (constant?_of_unplaced hm is) (lead.trans (lead_of_unplaced hm).symm)
  | identifierStatement word lead segments =>
    obtain ⟨m, vs, rfl, hm, hvs⟩ := map_unplaced_cons hus
    rw [← text_of_unplaced hm] at segments
    exact .identifierStatement (isName_of_unplaced hm word) (lead.trans (lead_of_unplaced hm).symm)
      (segments.unplaced hvs)
  | callStatement word lead segments tail ih =>
    rw [List.cons_append] at hus
    obtain ⟨m, vs, rfl, hm, hvs⟩ := map_unplaced_cons hus
    obtain ⟨ts', us', rfl, hts, hus⟩ := map_unplaced_append hvs
    rw [← text_of_unplaced hm] at segments
    exact .callStatement (isName_of_unplaced hm word) (lead.trans (lead_of_unplaced hm).symm)
      (segments.unplaced hts)
      (ih hus)
  | commandStatement word lead segments starts inside ih =>
    rw [List.cons_append] at hus
    obtain ⟨m, vs, rfl, hm, hvs⟩ := map_unplaced_cons hus
    obtain ⟨ts', us', rfl, hts, hus⟩ := map_unplaced_append hvs
    rw [← text_of_unplaced hm] at segments
    exact .commandStatement (isName_of_unplaced hm word) (lead.trans (lead_of_unplaced hm).symm)
      (segments.unplaced hts) ((startsCommand_of_unplaced hus).trans starts) (ih hus)
  | delegated word is lead word' line mark line' word'' line'' segments tail ih =>
    simp only [List.cons_append] at hus
    obtain ⟨keyword, vs, rfl, hkeyword, hvs⟩ := map_unplaced_cons hus
    obtain ⟨property, vs, rfl, hproperty, hvs⟩ := map_unplaced_cons hvs
    obtain ⟨by', vs, rfl, hby, hvs⟩ := map_unplaced_cons hvs
    obtain ⟨callee, vs, rfl, hcallee, hvs⟩ := map_unplaced_cons hvs
    obtain ⟨ts', us', rfl, hts, hus⟩ := map_unplaced_append hvs
    rw [← text_of_unplaced hcallee] at segments
    rw [← text_of_unplaced hkeyword, ← lead_of_unplaced hproperty, ← text_of_unplaced hproperty,
      ← lead_of_unplaced hby, ← lead_of_unplaced hcallee]
    exact .delegated ((kind_of_unplaced hkeyword).trans word)
      ((text_of_unplaced hkeyword).symm ▸ is)
      (lead.trans (lead_of_unplaced hkeyword).symm) ((kind_of_unplaced hproperty).trans word')
      ((startsLine_of_unplaced hproperty).trans line) (marks_of_unplaced hby mark)
      ((startsLine_of_unplaced hby).trans line') ((kind_of_unplaced hcallee).trans word'')
      ((startsLine_of_unplaced hcallee).trans line'') (segments.unplaced hts) (ih hus)
  | assignment word lead lead' segments mark is ih =>
    rw [List.cons_append] at hus
    obtain ⟨m, vs, rfl, hm, hvs⟩ := map_unplaced_cons hus
    obtain ⟨ts', vs, rfl, hts, hvs⟩ := map_unplaced_append hvs
    obtain ⟨operator, vs, rfl, hoperator, hvs⟩ := map_unplaced_cons hvs
    rw [← text_of_unplaced hm] at segments
    rw [← lead_of_unplaced hoperator]
    exact .assignment (isName_of_unplaced hm word) (lead.trans (lead_of_unplaced hm).symm) lead'
      (segments.unplaced hts) (marks_of_unplaced hoperator mark) (ih hvs)
  | raw lead =>
    obtain ⟨m, vs, rfl, hm, hvs⟩ := map_unplaced_cons hus
    rw [← text_of_unplaced hm, ← writtenAll_of_unplaced hvs]
    exact .raw (lead.trans (lead_of_unplaced hm).symm)
  | nil =>
    rw [List.map_eq_nil_iff.mp hus.symm]
    exact .nil
  | cons first ends more ih ih' =>
    obtain ⟨vs, ws, rfl, hvs, hws⟩ := map_unplaced_append hus
    exact .cons (ih hvs) (ends.imp_right (terminated_of_unplaced hws).trans) (ih' hws)

end Positions

/-- The second row has some more lexemes and a line break in front of a closing brace. -/
inductive Spliced (new : List Lexeme) (indent : String) : List Lexeme → List Lexeme → Prop
  | mk {before after : List Lexeme} {close : Lexeme} (inside : before ≠ [])
      (mark : close.Marks .braceClose "\x7d") :
      Spliced new indent (before ++ close :: after)
        (before ++ new ++ { close with lead := Insertion.brokenTail indent close.lead } :: after)

/-- Whatever spells the first part of a tree spells the second after a splice. -/
def Refits (new : List Lexeme) (indent : String) (old fresh : Phrase) : Prop :=
  ∀ ts, Spelled old ts → ∃ us, Spliced new indent ts us ∧ Spelled fresh us

section Splicing

variable {new : List Lexeme} {indent : String} {ts us : List Lexeme} {h h' : Head} {name : String}
  {types : Option String} {a b : Node}

theorem Spliced.left (hspliced : Spliced new indent ts us) (before : List Lexeme) :
    Spliced new indent (before ++ ts) (before ++ us) := by
  cases hspliced with
  | @mk front after close inside mark =>
    have hmk := @Spliced.mk new indent (before ++ front) after close (by simp [inside]) mark
    simpa using hmk

theorem Spliced.cons (hspliced : Spliced new indent ts us) (l : Lexeme) :
    Spliced new indent (l :: ts) (l :: us) :=
  hspliced.left [l]

theorem Spliced.right (hspliced : Spliced new indent ts us) (after : List Lexeme) :
    Spliced new indent (ts ++ after) (us ++ after) := by
  cases hspliced with
  | @mk front behind close inside mark =>
    have hmk := @Spliced.mk new indent front (behind ++ after) close inside mark
    simpa using hmk

/-- The first lexeme stays. -/
theorem Spliced.first (hspliced : Spliced new indent ts us) :
    ∃ l ts' us', ts = l :: ts' ∧ us = l :: us' := by
  cases hspliced with
  | @mk front after close inside mark =>
    cases front with
    | nil => exact absurd rfl inside
    | cons l front => exact ⟨l, _, _, rfl, rfl⟩

theorem Spliced.terminated (hspliced : Spliced new indent ts us) :
    terminated us = terminated ts := by
  obtain ⟨l, ts', us', rfl, rfl⟩ := hspliced.first
  rfl

theorem Spelled.statements_append {nodes more : List Node} (hnodes : Spelled (.statements nodes) ts)
    (hmore : Spelled (.statements more) us) (hends : Node.terminated us = true) :
    Spelled (.statements (nodes ++ more)) (ts ++ us) := by
  generalize hphrase : Phrase.statements nodes = phrase at hnodes
  induction hnodes generalizing nodes with
  | nil =>
    cases hphrase
    exact hmore
  | @cons node rest vs ws first ends behind ih ih' =>
    cases hphrase
    rw [List.append_assoc]
    refine .cons first (ends.imp_right fun hterminated => ?_) (ih' rfl)
    cases ws with
    | nil => exact hends
    | cons w ws => exact hterminated
  | _ => cases hphrase

/-- A block grows by the lexemes of its new statement. -/
theorem refits_grown {nodes : List Node} {tail : String} {d : Node} (hlead : h'.lead = h.lead)
    (hd : Spelled (.statement d) new) (hends : Node.terminated new = true) :
    Refits new indent (.block (.closure h nodes tail))
      (.block (.closure h' (nodes ++ [d]) (Insertion.brokenTail indent tail))) := by
  intro ts hts
  cases hts with
  | @block opening close _ _ inner mark lead inside mark' =>
    have hstatements : Spelled (.statements (nodes ++ [d])) (inner ++ new) := by
      refine inside.statements_append ?_ hends
      simpa using Spelled.cons hd (Or.inr rfl) .nil
    have hblock := @Spelled.block opening
      { close with lead := Insertion.brokenTail indent close.lead } h' _ _ mark
      (hlead.trans lead) hstatements mark'
    refine ⟨_, .mk (List.cons_ne_nil opening inner) mark', ?_⟩
    simpa using hblock

/-- One of several statements is refitted. -/
theorem refits_statements {before after : List Node} (hraw : a.isRaw = false)
    (hrefits : Refits new indent (.statement a) (.statement b)) :
    Refits new indent (.statements (before ++ a :: after))
      (.statements (before ++ b :: after)) := by
  induction before with
  | nil =>
    intro ts hts
    cases hts with
    | cons first ends more =>
      obtain ⟨us, hspliced, hb⟩ := hrefits _ first
      refine ⟨_, hspliced.right _, .cons hb (Or.inr (ends.resolve_left (by simp [hraw]))) more⟩
  | cons s before ih =>
    intro ts hts
    cases hts with
    | cons first ends more =>
      obtain ⟨us, hspliced, hmore⟩ := ih _ more
      exact ⟨_, hspliced.left _, .cons first (ends.imp_right hspliced.terminated.trans) hmore⟩

theorem refits_closure {nodes others : List Node} {tail : String} (hlead : h'.lead = h.lead)
    (hrefits : Refits new indent (.statements nodes) (.statements others)) :
    Refits new indent (.block (.closure h nodes tail)) (.block (.closure h' others tail)) := by
  intro ts hts
  cases hts with
  | block mark lead inside mark' =>
    obtain ⟨us, hspliced, hothers⟩ := hrefits _ inside
    exact ⟨_, (hspliced.cons _).right _, .block mark (hlead.trans lead) hothers mark'⟩

theorem refits_items {before after : List (Argument Node)} {trail : String}
    (hrefits : Refits new indent (.argument a) (.argument b)) :
    Refits new indent (.items (before ++ ⟨a, trail⟩ :: after))
      (.items (before ++ ⟨b, trail⟩ :: after)) := by
  induction before with
  | nil =>
    intro ts hts
    cases hts with
    | last is mark =>
      obtain ⟨us, hspliced, hb⟩ := hrefits _ is
      exact ⟨_, hspliced.right _, .last hb mark⟩
    | item is mark more =>
      obtain ⟨us, hspliced, hb⟩ := hrefits _ is
      exact ⟨_, hspliced.right _, .item hb mark more⟩
  | cons item before ih =>
    intro ts hts
    simp only [List.cons_append] at hts ⊢
    generalize hitems : before ++ ⟨a, trail⟩ :: after = items at ih hts
    cases hts with
    | last is mark => simp at hitems
    | item is mark more =>
      obtain ⟨us, hspliced, hmore⟩ := ih _ more
      exact ⟨_, (hspliced.cons _).left _, .item is mark hmore⟩

theorem refits_command {before after : List (Argument Node)} {trail : String}
    (hrefits : Refits new indent (.argument a) (.argument b)) :
    Refits new indent (.command (before ++ ⟨a, trail⟩ :: after))
      (.command (before ++ ⟨b, trail⟩ :: after)) := by
  induction before with
  | nil =>
    intro ts hts
    cases hts with
    | lastCommand is =>
      obtain ⟨us, hspliced, hb⟩ := hrefits _ is
      exact ⟨us, hspliced, .lastCommand hb⟩
    | command is mark more =>
      obtain ⟨us, hspliced, hb⟩ := hrefits _ is
      exact ⟨_, hspliced.right _, .command hb mark more⟩
  | cons item before ih =>
    intro ts hts
    simp only [List.cons_append] at hts ⊢
    generalize hitems : before ++ ⟨a, trail⟩ :: after = items at ih hts
    cases hts with
    | lastCommand is => simp at hitems
    | command is mark more =>
      obtain ⟨us, hspliced, hmore⟩ := ih _ more
      exact ⟨_, (hspliced.cons _).left _, .command is mark hmore⟩

theorem refits_parenthesized {items others : List (Argument Node)} {parenthesized : Bool}
    {lead tail : String} (hne : items ≠ [])
    (hrefits : Refits new indent (.items items) (.items others)) :
    Refits new indent (.parenthesized ⟨parenthesized, lead, items, tail⟩)
      (.parenthesized ⟨parenthesized, lead, others, tail⟩) := by
  intro ts hts
  cases hts with
  | empty mark mark' => exact absurd rfl hne
  | items mark inside =>
    obtain ⟨us, hspliced, hothers⟩ := hrefits _ inside
    exact ⟨_, hspliced.cons _, .items mark hothers⟩

theorem refits_rest_arguments {arguments others : Arguments Node} {body : Option Node}
    (hrefits : Refits new indent (.parenthesized arguments) (.parenthesized others)) :
    Refits new indent (.rest (some arguments) body) (.rest (some others) body) := by
  intro ts hts
  cases hts with
  | arguments is line =>
    obtain ⟨us, hspliced, hothers⟩ := hrefits _ is
    obtain ⟨l, ts', us', ⟨rfl, rfl⟩, rfl⟩ := hspliced.first
    exact ⟨_, hspliced, .arguments hothers line⟩
  | both is line is' line' =>
    obtain ⟨us, hspliced, hothers⟩ := hrefits _ is
    obtain ⟨l, ts', us', ⟨rfl, rfl⟩, rfl⟩ := hspliced.first
    exact ⟨_, hspliced.right _, .both hothers line is' line'⟩

theorem refits_rest_closure {arguments : Option (Arguments Node)}
    (hrefits : Refits new indent (.block a) (.block b)) :
    Refits new indent (.rest arguments (some a)) (.rest arguments (some b)) := by
  intro ts hts
  cases hts with
  | body is line =>
    obtain ⟨us, hspliced, hb⟩ := hrefits _ is
    obtain ⟨l, ts', us', ⟨rfl, rfl⟩, rfl⟩ := hspliced.first
    exact ⟨_, hspliced, .body hb line⟩
  | both is line is' line' =>
    obtain ⟨us, hspliced, hb⟩ := hrefits _ is'
    obtain ⟨l, ts', us', ⟨rfl, rfl⟩, rfl⟩ := hspliced.first
    exact ⟨_, hspliced.left _, .both is line hb line'⟩

theorem refits_tail {arguments others : Option (Arguments Node)} {body fresh : Option Node}
    (hrefits : Refits new indent (.rest arguments body) (.rest others fresh)) :
    Refits new indent (.tail types arguments body) (.tail types others fresh) := by
  intro ts hts
  cases hts with
  | untyped is =>
    obtain ⟨us, hspliced, hothers⟩ := hrefits _ is
    exact ⟨us, hspliced, .untyped hothers⟩
  | typed types is =>
    obtain ⟨us, hspliced, hothers⟩ := hrefits _ is
    exact ⟨_, hspliced.left _, .typed types hothers⟩

theorem refits_call {arguments others : Option (Arguments Node)} {body fresh : Option Node}
    {delegate : Option Delegate} (hlead : h'.lead = h.lead)
    (hrefits : Refits new indent (.rest arguments body) (.rest others fresh)) :
    Refits new indent (.expression (.call h ⟨name, types, arguments, body, delegate⟩))
      (.expression (.call h' ⟨name, types, others, fresh, delegate⟩)) := by
  intro ts hts
  cases hts with
  | call word lead reference tail =>
    obtain ⟨us, hspliced, htail⟩ := refits_tail hrefits _ tail
    exact ⟨_, hspliced.left _, .call word (hlead.trans lead) reference htail⟩
  | closure block => cases block

theorem refits_callStatement {arguments others : Option (Arguments Node)} {body fresh : Option Node}
    {delegate : Option Delegate} (hlead : h'.lead = h.lead)
    (hrefits : Refits new indent (.rest arguments body) (.rest others fresh))
    (hcommand : ∀ items, arguments = some ⟨false, "", items, ""⟩ → body = none →
      ∃ items', others = some ⟨false, "", items', ""⟩ ∧ fresh = none ∧
        Refits new indent (.command items) (.command items')) :
    Refits new indent (.statement (.call h ⟨name, types, arguments, body, delegate⟩))
      (.statement (.call h' ⟨name, types, others, fresh, delegate⟩)) := by
  intro ts hts
  cases hts with
  | callStatement word lead segments tail =>
    obtain ⟨us, hspliced, htail⟩ := refits_tail hrefits _ tail
    exact ⟨_, hspliced.left _, .callStatement word (hlead.trans lead) segments htail⟩
  | commandStatement word lead segments starts inside =>
    obtain ⟨items', rfl, rfl, hitems⟩ := hcommand _ rfl rfl
    obtain ⟨us, hspliced, hothers⟩ := hitems _ inside
    obtain ⟨l, ts', us', rfl, rfl⟩ := hspliced.first
    exact ⟨_, hspliced.left _, .commandStatement word (hlead.trans lead) segments starts hothers⟩
  | delegated word is lead word' line mark line' word'' line'' segments tail =>
    obtain ⟨us, hspliced, htail⟩ := refits_tail hrefits _ tail
    exact ⟨_, hspliced.left _,
      .delegated word is (hlead.trans lead) word' line mark line' word'' line'' segments htail⟩

structure RefitsNode (new : List Lexeme) (indent : String) (a b : Node) : Prop where
  statement : Refits new indent (.statement a) (.statement b)
  expression : Refits new indent (.expression a) (.expression b)
  argument : Refits new indent (.argument a) (.argument b)
  block : Refits new indent (.block a) (.block b)

theorem refits_argument (hnamed : a.isNamed = false)
    (hrefits : Refits new indent (.expression a) (.expression b)) :
    Refits new indent (.argument a) (.argument b) := by
  intro ts hts
  cases hts with
  | named word lead mark is => cases hnamed
  | unnamed is =>
    obtain ⟨us, hspliced, hb⟩ := hrefits _ is
    exact ⟨us, hspliced, .unnamed hb⟩

theorem refitsNode_call {arguments others : Option (Arguments Node)} {body fresh : Option Node}
    {delegate : Option Delegate} (hlead : h'.lead = h.lead)
    (hrefits : Refits new indent (.rest arguments body) (.rest others fresh))
    (hcommand : ∀ items, arguments = some ⟨false, "", items, ""⟩ → body = none →
      ∃ items', others = some ⟨false, "", items', ""⟩ ∧ fresh = none ∧
        Refits new indent (.command items) (.command items')) :
    RefitsNode new indent (.call h ⟨name, types, arguments, body, delegate⟩)
      (.call h' ⟨name, types, others, fresh, delegate⟩) where
  statement := refits_callStatement hlead hrefits hcommand
  expression := refits_call hlead hrefits
  argument := refits_argument rfl (refits_call hlead hrefits)
  block := fun _ hts => (nomatch hts)

theorem refitsNode_closure {nodes others : List Node} {tail tail' : String}
    (hrefits : Refits new indent (.block (.closure h nodes tail))
      (.block (.closure h' others tail'))) :
    RefitsNode new indent (.closure h nodes tail) (.closure h' others tail') := by
  have hexpression : Refits new indent (.expression (.closure h nodes tail))
      (.expression (.closure h' others tail')) := by
    intro ts hts
    cases hts with
    | closure block =>
      obtain ⟨us, hspliced, hothers⟩ := hrefits _ block
      exact ⟨us, hspliced, .closure hothers⟩
  exact ⟨fun _ hts => (nomatch hts), hexpression, refits_argument rfl hexpression, hrefits⟩

theorem refitsNode_assignment {target value target' value' : Node}
    {operatorLead operatorLead' : String}
    (hrefits : Refits new indent (.statement (.assignment h target operatorLead value))
      (.statement (.assignment h' target' operatorLead' value'))) :
    RefitsNode new indent (.assignment h target operatorLead value)
      (.assignment h' target' operatorLead' value') := by
  refine ⟨hrefits, fun ts hts => ?_, fun ts hts => ?_, fun _ hts => (nomatch hts)⟩
  · cases hts with
    | closure block => cases block
  · cases hts with
    | unnamed is =>
      cases is with
      | closure block => cases block

end Splicing

end Node

namespace Scope

open Node

variable {scope : Scope} {enclosing : Option (Call Node)} {h : Head} {block : Call Node}
    {d fresh n m : Node}
  {new : List Lexeme}

theorem Replaces.isRaw (hreplaces : scope.Replaces h block fresh enclosing n m) :
    n.isRaw = false := by
  cases hreplaces <;> rfl

/-- A tree in which a block has grown is spelled by the old lexemes and those of the new
statement. -/
theorem Replaces.refits (hreplaces : scope.Replaces h block fresh enclosing n m)
    (hgrows : Grows d h block fresh) (hd : Spelled (.statement d) new)
    (hends : terminated new = true) :
    RefitsNode new ((lineIndent? h.lead).getD "") n m := by
  induction hreplaces with
  | here is inside =>
    cases hgrows with
    | @mk ch _ statements tail is' =>
      rcases block with ⟨name, types, arguments, closure, delegate⟩
      simp only at is'
      subst is'
      exact refitsNode_call rfl (refits_rest_closure (refits_grown rfl hd hends)) (by simp)
  | @argument _ head c parenthesized lead tail trail before after a b skipped is earlier
    inside ih =>
    rcases c with ⟨name, types, arguments, closure, delegate⟩
    simp only at is
    subst is
    refine refitsNode_call rfl
      (refits_rest_arguments (refits_parenthesized (by simp) (refits_items ih.argument))) ?_
    rintro items ⟨⟩ hclosure
    exact ⟨_, rfl, hclosure, refits_command ih.argument⟩
  | @body _ head c a b skipped earlier is inside ih =>
    rcases c with ⟨name, types, arguments, closure, delegate⟩
    simp only at is
    subst is
    exact refitsNode_call rfl (refits_rest_closure ih.block) (by simp)
  | statement earlier inside ih =>
    exact refitsNode_closure (refits_closure rfl (refits_statements inside.isRaw ih.statement))
  | named inside ih =>
    refine ⟨fun _ hts => (nomatch hts), fun ts hts => ?_, fun ts hts => ?_,
      fun _ hts => (nomatch hts)⟩
    · cases hts with
      | closure block => cases block
    · cases hts with
      | named word lead mark is =>
        obtain ⟨us, hspliced, hvalue⟩ := ih.expression _ is
        exact ⟨_, (hspliced.cons _).cons _, .named word lead mark hvalue⟩
      | unnamed is =>
        cases is with
        | closure block => cases block
  | target inside ih =>
    refine refitsNode_assignment fun ts hts => ?_
    -- Only identifiers are assigned to, and there is no block in them.
    cases hts with
    | assignment word lead lead' segments mark is => cases inside
  | value earlier inside ih =>
    refine refitsNode_assignment fun ts hts => ?_
    cases hts with
    | assignment word lead lead' segments mark is =>
      obtain ⟨us, hspliced, hvalue⟩ := ih.expression _ is
      exact ⟨_, (hspliced.cons _).left _, .assignment word lead lead' segments mark hvalue⟩

end Scope

end BuildScript
