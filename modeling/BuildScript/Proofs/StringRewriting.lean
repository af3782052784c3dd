import BuildScript.Proofs.QuoteStyle
import Mathlib.Data.List.Forall2

/-!
# Rewriting all strings

An edit of the leaves rebuilds a node if one of its children is not the same any more. Where all
strings of a file get one value, exactly the subtrees stay as they are in which all strings have the
value already.
-/

namespace BuildScript

namespace Node

section Edits

variable {v : Visitor Option} {f : Node → Option Node} {R : Node → Node → Prop} {n : Node}
    {above nodes : List Node}
  {items : List (Argument Node)}

/-- Stands where a child was. -/
def hole : Node := raw (Head.new 0 "") ""

/-- A node without its children and its revision. A string literal is left without its value and its
source too. -/
def trunk : Node → Node
  | call h c => call (Head.new h.id h.lead) (c.map fun _ => hole)
  | closure h statements tail => closure (Head.new h.id h.lead) (statements.map fun _ => hole) tail
  | literal h (.string _) _ => literal (Head.new h.id h.lead) (.string "") ""
  | literal h value source => literal (Head.new h.id h.lead) value source
  | identifier h name => identifier (Head.new h.id h.lead) name
  | named h name colonLead _ => named (Head.new h.id h.lead) name colonLead hole
  | assignment h _ operatorLead _ => assignment (Head.new h.id h.lead) hole operatorLead hole
  | raw h text => raw (Head.new h.id h.lead) text

theorem exists_visitAll (h : ∀ n ∈ nodes, ∃ n', visit v above n = some n' ∧ R n n') :
    ∃ nodes', visitAll v above nodes = some nodes' ∧ List.Forall₂ R nodes nodes' := by
  induction nodes with
  | nil => exact ⟨[], rfl, .nil⟩
  | cons n nodes ih =>
    rw [List.forall_mem_cons] at h
    obtain ⟨⟨n', hn', hR⟩, hnodes⟩ := h
    obtain ⟨nodes', hnodes', hall⟩ := ih hnodes
    exact ⟨n' :: nodes', by simp [visitAll, hn', hnodes'], .cons hR hall⟩

theorem exists_visitItems
    (h : ∀ n ∈ items.map Argument.node, ∃ n', visit v above n = some n' ∧ R n n') :
    ∃ items', visitItems v above items = some items' ∧
      items'.map (Argument.map fun _ => hole) = items.map (Argument.map fun _ => hole) ∧
      List.Forall₂ R (items.map Argument.node) (items'.map Argument.node) := by
  induction items with
  | nil => exact ⟨[], rfl, rfl, .nil⟩
  | cons item items ih =>
    rw [List.map_cons, List.forall_mem_cons] at h
    obtain ⟨⟨n', hn', hR⟩, hnodes⟩ := h
    obtain ⟨items', hitems', hholes, hall⟩ := ih hnodes
    refine ⟨⟨n', item.trail⟩ :: items', ?_, ?_, .cons hR hall⟩
    · simp [visitItems, hn', hitems']
    · rw [List.map_cons, List.map_cons, hholes]
      rfl

theorem exists_visitCall {c : Call Node}
    (h : ∀ n ∈ c.argumentNodes ++ c.closure.toList, ∃ n', visit v above n = some n' ∧ R n n') :
    ∃ c', visitCall v above c = some c' ∧ (c'.map fun _ => hole) = (c.map fun _ => hole) ∧
      List.Forall₂ R (c.argumentNodes ++ c.closure.toList)
        (c'.argumentNodes ++ c'.closure.toList) := by
  rw [List.forall_mem_append] at h
  obtain ⟨name, types, arguments, trailing, delegate⟩ := c
  obtain ⟨arguments', harguments, hholes, hall⟩ : ∃ arguments',
    visitArguments v above arguments = some arguments' ∧
      arguments'.map (Arguments.map fun _ => hole) = arguments.map (Arguments.map fun _ => hole) ∧
      List.Forall₂ R (Call.argumentNodes ⟨name, types, arguments, trailing, delegate⟩)
        (Call.argumentNodes ⟨name, types, arguments', trailing, delegate⟩) := by
    cases arguments with
    | none => exact ⟨none, rfl, rfl, .nil⟩
    | some arguments =>
      obtain ⟨items', hitems, hholes, hall⟩ := exists_visitItems h.1
      refine ⟨some { arguments with items := items' }, ?_, ?_, hall⟩
      · simp [visitArguments, hitems]
      · simp [Arguments.map, hholes]
  obtain ⟨trailing', htrailing, hholes', hall'⟩ : ∃ trailing',
    visitClosure v above trailing = some trailing' ∧
      (trailing'.map fun _ => hole) = (trailing.map fun _ => hole) ∧
      List.Forall₂ R trailing.toList trailing'.toList := by
    cases trailing with
    | none => exact ⟨none, rfl, rfl, .nil⟩
    | some body =>
      obtain ⟨body', hbody, hR⟩ := h.2 body (by simp)
      exact ⟨some body', by simp [visitClosure, hbody], rfl, .cons hR .nil⟩
  refine ⟨⟨name, types, arguments', trailing', delegate⟩, ?_, ?_, List.rel_append hall hall'⟩
  · simp [visitCall, harguments, htrailing]
  · simp only [Call.map, hholes, hholes']

structure Rebuilt (R : Node → Node → Prop) (n n' : Node) : Prop where
  head : n'.head = n.head.revised
  trunk : n'.trunk = n.trunk
  children : List.Forall₂ R n.children n'.children

@[simp] theorem head_withHead (h : Head) (n : Node) : (n.withHead h).head = h := by
  cases n <;> rfl

@[simp] theorem children_withHead (h : Head) (n : Node) : (n.withHead h).children = n.children := by
  cases n <;> rfl

theorem exists_rebuilt {visited : Node} (htrunk : (visited.withHead n.head.revised).trunk = n.trunk)
    (hchildren : List.Forall₂ R n.children visited.children)
    (hvisit : visit v above n = some (n.rebuild visited)) :
    ∃ n', Rebuilt R n n' ∧
      visit v above n = some (if sameAll n'.children n.children then n else n') := by
  refine ⟨visited.withHead n.head.revised, ⟨head_withHead _ _, htrunk, ?_⟩, ?_⟩
  · rwa [children_withHead]
  · rw [hvisit, children_withHead]
    rfl

/-- An edit applies to a leaf, and rebuilds another node unless all children are the same. -/
theorem leafEditor_cases
    (h : ∀ c ∈ n.children, ∃ c', visit (leafEditor f) (n :: above) c = some c' ∧ R c c') :
    (n.children = [] ∧ visit (leafEditor f) above n = f n) ∨
      n.string? = none ∧ ∃ n', Rebuilt R n n' ∧
        visit (leafEditor f) above n = some (if sameAll n'.children n.children then n else n') := by
  cases n with
  | literal | identifier | raw =>
    refine Or.inl ⟨rfl, ?_⟩
    rw [visit, ask, leafEditor]
    cases f _ <;> rfl
  | closure head statements tail =>
    obtain ⟨statements', hvisit, hall⟩ := exists_visitAll h
    refine Or.inr ⟨rfl, @exists_rebuilt _ _ _ _ (closure head statements' tail) ?_ hall ?_⟩
    · simp [trunk, withHead, ← hall.length_eq, children, Head.revised, Head.new, Node.head]
    · rw [children] at hvisit
      simp [visit, ask, leafEditor, hvisit]
  | named head name colonLead value =>
    obtain ⟨value', hvisit, hR⟩ := h value List.mem_cons_self
    refine Or.inr ⟨rfl,
      @exists_rebuilt _ _ _ _ (named head name colonLead value') rfl (.cons hR .nil) ?_⟩
    simp [visit, ask, leafEditor, hvisit]
  | assignment head target operatorLead value =>
    obtain ⟨target', htarget, hR⟩ := h target (by simp [children])
    obtain ⟨value', hvalue, hR'⟩ := h value (by simp [children])
    have hchildren : List.Forall₂ R [target, value] [target', value'] := .cons hR (.cons hR' .nil)
    refine Or.inr ⟨rfl,
      @exists_rebuilt _ _ _ _ (assignment head target' operatorLead value') rfl hchildren ?_⟩
    simp [visit, ask, leafEditor, htarget, hvalue]
  | call head c =>
    obtain ⟨c', hvisit, hholes, hall⟩ := exists_visitCall h
    refine Or.inr ⟨rfl, @exists_rebuilt _ _ _ _ (call head c') ?_ hall ?_⟩
    · simp [trunk, withHead, hholes, Head.revised, Head.new, Node.head]
    · simp [visit, ask, leafEditor, hvisit]

end Edits

section Strings

variable {value : String} {n n' : Node} {nodes nodes' : List Node}

def HasStrings (value : String) (n : Node) : Prop := n.All fun m => ∀ text ∈ m.string?, text = value

/-- Place by place, what is found before and after all strings got one value. A node is new if there
is a string below it, or at it, that had another value. -/
structure Rewritten (value : String) (before after : List Nat → Option Node) : Prop where
  shape : ∀ place, (after place).map trunk = (before place).map trunk
  strings : ∀ place m, after place = some m → ∀ text ∈ m.string?, text = value
  kept : ∀ place m, before place = some m → m.HasStrings value → after place = some m
  same_iff : ∀ place m m', before place = some m → after place = some m' →
    (m'.same m = true ↔ m.HasStrings value)

theorem Rewritten.refl (h : n.HasStrings value) : Rewritten value (n.get? ·) (n.get? ·) where
  shape _ := rfl
  strings := h
  kept _ _ hm _ := hm
  same_iff place m m' hm hm' := by
    obtain rfl := Option.some.inj (hm.symm.trans hm')
    exact iff_of_true (by simp [same]) (h.of_get? hm)

section Children

variable {R : Node → Node → Prop}

theorem getElem?_of_forall₂ (h : List.Forall₂ R nodes nodes') (i : Nat) :
    (nodes[i]? = none ∧ nodes'[i]? = none) ∨
      ∃ a b, nodes[i]? = some a ∧ nodes'[i]? = some b ∧ R a b := by
  induction h generalizing i with
  | nil => exact Or.inl ⟨rfl, rfl⟩
  | cons hR _ ih =>
    cases i with
    | zero => exact Or.inr ⟨_, _, rfl, rfl, hR⟩
    | succ i => exact ih i

/-- A place below the top is nowhere in both trees, or in two children that are related. -/
theorem get?_cons_of_forall₂ (h : List.Forall₂ R n.children n'.children) (i : Nat)
    (place : List Nat) :
    (n.get? (i :: place) = none ∧ n'.get? (i :: place) = none) ∨
      ∃ c c', n.get? (i :: place) = c.get? place ∧ n'.get? (i :: place) = c'.get? place ∧
        R c c' := by
  simp only [get?]
  obtain ⟨hc, hc'⟩ | ⟨c, c', hc, hc', hR⟩ := getElem?_of_forall₂ h i
  · exact Or.inl ⟨by rw [hc, Option.bind_none], by rw [hc', Option.bind_none]⟩
  · exact Or.inr ⟨c, c', by rw [hc, Option.bind_some], by rw [hc', Option.bind_some], hR⟩

end Children

/-- A tree is rewritten if its children are and its top is. -/
theorem Rewritten.of_children
    (hchildren : List.Forall₂
      (fun c c' => Rewritten value (get? · c) (get? · c')) n.children n'.children)
    (htrunk : n'.trunk = n.trunk) (hstring : ∀ text ∈ n'.string?, text = value)
    (hkept : n.HasStrings value → n' = n) (hsame : n'.same n = true ↔ n.HasStrings value) :
    Rewritten value (n.get? ·) (n'.get? ·) := by
  have hbelow := get?_cons_of_forall₂ hchildren
  refine ⟨?_, ?_, ?_, ?_⟩
  · rintro (_ | ⟨i, place⟩)
    · exact congrArg some htrunk
    · obtain ⟨h, h'⟩ | ⟨c, c', h, h', hc⟩ := hbelow i place
      · rw [h, h']
      · rw [h, h']
        exact hc.shape place
  · rintro (_ | ⟨i, place⟩) m hm
    · obtain rfl := Option.some.inj hm
      exact hstring
    · obtain ⟨h, h'⟩ | ⟨c, c', h, h', hc⟩ := hbelow i place
      · cases h'.symm.trans hm
      · exact hc.strings place m (h'.symm.trans hm)
  · rintro (_ | ⟨i, place⟩) m hm hvalue
    · obtain rfl := Option.some.inj hm
      exact congrArg some (hkept hvalue)
    · obtain ⟨h, h'⟩ | ⟨c, c', h, h', hc⟩ := hbelow i place
      · cases h.symm.trans hm
      · exact h'.trans (hc.kept place m (h.symm.trans hm) hvalue)
  · rintro (_ | ⟨i, place⟩) m m' hm hm'
    · obtain rfl := Option.some.inj hm
      obtain rfl := Option.some.inj hm'
      exact hsame
    · obtain ⟨h, h'⟩ | ⟨c, c', h, h', hc⟩ := hbelow i place
      · cases h.symm.trans hm
      · exact hc.same_iff place m m' (h.symm.trans hm) (h'.symm.trans hm')

theorem string?_trunk (n : Node) : n.trunk.string? = n.string?.map fun _ => "" := by
  fun_cases trunk n <;> simp_all [string?]

theorem hasStrings_iff (h : n.string? = none) :
    n.HasStrings value ↔ ∀ c ∈ n.children, c.HasStrings value := by
  refine all_iff.trans (and_iff_right ?_)
  rw [h]
  rintro text ⟨⟩

theorem sameAll_iff
    (h : List.Forall₂ (fun c c' => Rewritten value (get? · c) (get? · c')) nodes nodes') :
    sameAll nodes' nodes = true ↔ ∀ c ∈ nodes, c.HasStrings value := by
  induction h with
  | nil => simp [sameAll]
  | @cons c c' nodes nodes' hc _ ih =>
    rw [sameAll, Bool.and_eq_true, ih, hc.same_iff [] c c' rfl rfl, List.forall_mem_cons]

theorem Rebuilt.rewritten (h : Rebuilt (fun c c' => Rewritten value (get? · c) (get? · c')) n n')
    (hnone : n.string? = none) :
    Rewritten value (n.get? ·) ((if sameAll n'.children n.children then n else n').get? ·) := by
  have hsame : sameAll n'.children n.children = true ↔ n.HasStrings value :=
    (sameAll_iff h.children).trans (hasStrings_iff hnone).symm
  have hnone' : n'.string? = none := by
    have htrunk := congrArg string? h.trunk
    rw [string?_trunk, string?_trunk, hnone] at htrunk
    exact Option.map_eq_none_iff.mp htrunk
  split_ifs with hkept
  -- The children are compared by name and revision, which tell exactly whether a string below them
  -- changed.
  · exact Rewritten.refl (hsame.mp hkept)
  · have hnot : ¬ n.HasStrings value := fun hvalue => hkept (hsame.mpr hvalue)
    refine Rewritten.of_children h.children h.trunk ?_ (fun hvalue => absurd hvalue hnot) ?_
    · rw [hnone']
      rintro text ⟨⟩
    · exact iff_of_false (by rw [not_same_of_revised h.head]; exact Bool.false_ne_true) hnot

/-- Where a string has to change, its delimiter is found. -/
def Rewritable (value : String) (n : Node) : Prop :=
  ∀ h current source, n = literal h (.string current) source → current ≠ value →
    ∃ d, delimiter? current source = some d

theorem withString?_of_forall (h : ∀ text ∈ n.string?, text = value) :
    withString? value n = some n := by
  fun_cases withString? value n with
  | case1 => rfl
  | case2 head current source hne => exact absurd (h current rfl) hne
  | case3 => rfl

theorem eq_literal_of_string? {current : String} (h : n.string? = some current) :
    ∃ head source, n = literal head (.string current) source := by
  fun_cases string? n with
  | case1 head text source =>
    cases h
    exact ⟨head, source, rfl⟩
  | case2 => simp_all [string?]

theorem exists_withString? (hn : Rewritable value n) (hleaf : n.children = []) :
    ∃ n', withString? value n = some n' ∧ Rewritten value (n.get? ·) (n'.get? ·) := by
  have hself : n.HasStrings value ↔ ∀ text ∈ n.string?, text = value := by
    refine all_iff.trans (and_iff_left ?_)
    rw [hleaf]
    exact List.forall_mem_nil _
  by_cases hvalue : ∀ text ∈ n.string?, text = value
  · exact ⟨n, withString?_of_forall hvalue, Rewritten.refl (hself.mpr hvalue)⟩
  · have hnot : ¬ n.HasStrings value := fun h => hvalue (hself.mp h)
    push Not at hvalue
    obtain ⟨current, hcurrent, hne⟩ := hvalue
    obtain ⟨head, source, rfl⟩ := eq_literal_of_string? hcurrent
    obtain ⟨d, hd⟩ := hn head current source rfl hne
    refine ⟨literal head.revised (.string value) (d ++ value ++ d), ?_, ?_⟩
    · rw [withString?, if_neg hne, hd, Option.map_some]
    · refine Rewritten.of_children .nil rfl ?_ (fun h => absurd h hnot) ?_
      · rintro text ⟨⟩
        rfl
      · exact iff_of_false (by rw [not_same_of_revised rfl]; exact Bool.false_ne_true) hnot

/-- Every tree whose strings have delimiters is rewritten. -/
theorem exists_rewritten (hn : n.All (Rewritable value)) (above : List Node) :
    ∃ n', visit (leafEditor (withString? value)) above n = some n' ∧
      Rewritten value (n.get? ·) (n'.get? ·) := by
  induction n using induct_children generalizing above with
  | h n ih =>
    obtain ⟨hleaf, hvisit⟩ | ⟨hnone, n', hrebuilt, hvisit⟩ :=
      leafEditor_cases fun c hc => ih c hc (hn.child hc) (n :: above)
    · rw [hvisit]
      exact exists_withString? hn.self hleaf
    · exact ⟨_, hvisit, hrebuilt.rewritten hnone⟩

theorem rewritable_of_forall (h : ∀ text ∈ n.string?, text = value) : Rewritable value n := by
  rintro head current source rfl hne
  exact absurd (h current rfl) hne

/-- Strings of a script are quoted, so that a delimiter is found for each of them. -/
theorem ReadFrom.rewritable {script : String} (h : ReadFrom (Lexeme.scan script).1 n) :
    Rewritable value n := by
  intro head current source hliteral _
  obtain ⟨rfl, q, inner, hquoted⟩ := h.isQuoted hliteral
  exact exists_delimiter? hquoted

end Strings

end Node

namespace SourceFile

open Node (Rewritable)

variable {value : String} {f r : SourceFile}

def HasStrings (value : String) (f : SourceFile) : Prop :=
  f.All fun m => ∀ text ∈ m.string?, text = value

structure Rewritten (value : String) (f r : SourceFile) : Prop where
  nodes : Node.Rewritten value f.get? r.get?
  id : r.head.id = f.head.id
  lead : r.head.lead = f.head.lead
  path : r.path = f.path
  tail : r.tail = f.tail
  markers : r.markers = f.markers
  kept : f.HasStrings value → r = f
  same_iff : r.same f = true ↔ f.HasStrings value

def root (f : SourceFile) : Node := .closure f.head f.statements f.tail

theorem hasStrings_root : f.root.HasStrings value ↔ f.HasStrings value :=
  (Node.hasStrings_iff rfl).trans all_iff.symm

theorem nodes_of_root (h : Node.Rewritten value (f.root.get? ·) (r.root.get? ·)) :
    Node.Rewritten value f.get? r.get? := by
  -- The top of the closure stands for the file itself, which is at no place.
  refine ⟨?_, ?_, ?_, ?_⟩
  · rintro (_ | ⟨i, place⟩)
    · rfl
    · exact h.shape (i :: place)
  · rintro (_ | ⟨i, place⟩) m hm
    · cases hm
    · exact h.strings (i :: place) m hm
  · rintro (_ | ⟨i, place⟩) m hm
    · cases hm
    · exact h.kept (i :: place) m hm
  · rintro (_ | ⟨i, place⟩) m m' hm
    · cases hm
    · exact h.same_iff (i :: place) m m' hm

/-- The statements of a file are edited as those of a closure, and nothing else of the file
changes. -/
theorem exists_edited_root (hf : f.All (Rewritable value)) :
    ∃ r, f.withStrings? value = some r ∧ Node.Rewritten value (f.root.get? ·) (r.root.get? ·) ∧
      r.path = f.path ∧
      r.markers = f.markers := by
  obtain ⟨statements, hvisit, hall⟩ :=
    Node.exists_visitAll fun s hs => Node.exists_rewritten (all_iff.mp hf s hs) []
  have hrebuilt : Node.Rebuilt (fun c c' => Node.Rewritten value (c.get? ·) (c'.get? ·)) f.root
      (.closure f.head.revised statements f.tail) := by
    refine ⟨rfl, ?_, hall⟩
    simp [root, Node.trunk, ← hall.length_eq, Head.revised, Head.new]
  have hrewritten := hrebuilt.rewritten rfl
  refine ⟨_, by rw [withStrings?, editLeaves?, visit, hvisit]; rfl, ?_⟩
  have hchildren : (Node.closure f.head.revised statements f.tail).children = statements ∧
      f.root.children = f.statements := ⟨rfl, rfl⟩
  rw [hchildren.1, hchildren.2] at hrewritten
  split_ifs at hrewritten ⊢
  · exact ⟨hrewritten, rfl, rfl⟩
  · exact ⟨hrewritten, rfl, rfl⟩

theorem exists_withStrings? (hf : f.All (Rewritable value)) :
    ∃ r, f.withStrings? value = some r ∧ Rewritten value f r := by
  obtain ⟨r, hr, hn, hpath, hmarkers⟩ := exists_edited_root hf
  have htrunk := hn.shape []
  simp only [Node.get?, root, Node.trunk, Option.map_some, Option.some.injEq,
    Node.closure.injEq, Head.new, Head.mk.injEq] at htrunk
  refine ⟨r, hr, nodes_of_root hn, htrunk.1.1, htrunk.1.2.2, hpath, htrunk.2.2, hmarkers,
    fun hvalue => ?_, ?_⟩
  · have hkept := hn.kept [] f.root rfl (hasStrings_root.mpr hvalue)
    simp only [Node.get?, root, Option.some.injEq, Node.closure.injEq] at hkept
    obtain ⟨hhead, hstatements, htail⟩ := hkept
    cases f
    cases r
    simp_all
  · rw [← hasStrings_root]
    exact hn.same_iff [] f.root r.root rfl rfl

/-- Whatever value all strings of a parsed file get: nothing else changes but the revisions of the
nodes around a string that had another value, all other nodes are kept, and a second time the file
stays the same. -/
theorem strings_rewritten (path script value : String) :
    ∃ r, (parse path script).withStrings? value = some r ∧ Rewritten value (parse path script) r ∧
      r.withStrings? value = some r := by
  have hread : (parse path script).All (Rewritable value) :=
    fun place m hm => (all_readFrom path script place m hm).rewritable
  obtain ⟨r, hr, hrewritten⟩ := exists_withStrings? hread
  have hvalue : r.HasStrings value := hrewritten.nodes.strings
  have hdone : r.All (Rewritable value) :=
    fun place m hm => Node.rewritable_of_forall (hvalue place m hm)
  obtain ⟨r', hr', hagain⟩ := exists_withStrings? hdone
  refine ⟨r, hr, hrewritten, ?_⟩
  rw [hr', hagain.kept hvalue]

end SourceFile

end BuildScript
