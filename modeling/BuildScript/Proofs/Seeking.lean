import BuildScript.Proofs.Outline
import BuildScript.Proofs.Visiting
import BuildScript.Recipe.Insert

/-!
# The place of an insertion

An insertion goes to the first block in its scope. Searching for that block says what becomes of the
insertion, and the tree afterwards has another block in the place and is otherwise the same.
-/

namespace BuildScript

def Call.isBlock (c : Call Node) : Bool := c.simpleName = "dependencies" && c.closure.isSome

theorem Call.Alike.isBlock {c d : Call Node} (h : Call.Alike c d) : c.isBlock = d.isBlock := by
  rw [Call.isBlock, Call.isBlock, h.simpleName, h.closure]

namespace Scope

mutual

/-- The first block in scope at or below a node, with the nearest call around it. -/
def seek (scope : Scope) (enclosing : Option (Call Node)) : Node → Option (Head × Call Node)
  | .call h ⟨name, typeArguments, arguments, trailing, delegate⟩ =>
    let c : Call Node := ⟨name, typeArguments, arguments, trailing, delegate⟩
    if c.isBlock && scope.contains enclosing then some (h, c)
    else
      (match arguments with
        | none => none
        | some ⟨_, _, items, _⟩ => seekItem scope (some c) items).or
      (match trailing with
        | none => none
        | some body => seek scope (some c) body)
  | .closure _ statements _ => seekAll scope enclosing statements
  | .named _ _ _ value => seek scope enclosing value
  | .assignment _ target _ value => (seek scope enclosing target).or (seek scope enclosing value)
  | .literal _ _ _ => none
  | .identifier _ _ => none
  | .raw _ _ => none

def seekItem (scope : Scope) (enclosing : Option (Call Node)) :
    List (Argument Node) → Option (Head × Call Node)
  | [] => none
  | ⟨node, _⟩ :: rest => (seek scope enclosing node).or (seekItem scope enclosing rest)

def seekAll (scope : Scope) (enclosing : Option (Call Node)) : List Node → Option (Head × Call Node)
  | [] => none
  | node :: rest => (seek scope enclosing node).or (seekAll scope enclosing rest)

end

variable {scope : Scope} {enclosing other : Option (Call Node)}

@[simp] theorem seekItem_eq (items : List (Argument Node)) :
    seekItem scope enclosing items = seekAll scope enclosing (items.map Argument.node) := by
  induction items with
  | nil => rfl
  | cons item items ih => rw [seekItem, ih, List.map_cons, seekAll]

theorem seekAll_append (nodes more : List Node) :
    seekAll scope enclosing (nodes ++ more) =
      (seekAll scope enclosing nodes).or (seekAll scope enclosing more) := by
  induction nodes with
  | nil => rfl
  | cons node nodes ih => rw [List.cons_append, seekAll, seekAll, ih, Option.or_assoc]

theorem seek_call (h : Head) (c : Call Node) :
    seek scope enclosing (.call h c) =
      if c.isBlock && scope.contains enclosing then some (h, c)
      else (seekAll scope (some c) c.argumentNodes).or (c.closure.bind (seek scope (some c))) := by
  rcases c with ⟨name, types, _ | arguments, _ | body, delegate⟩ <;>
    simp [seek, Call.argumentNodes, seekAll]

/-- Only the nearest call around a node matters, and of it only whether it is the right one. -/
theorem seek_congr (hcontains : scope.contains enclosing = scope.contains other) (n : Node) :
    seek scope enclosing n = seek scope other n := by
  induction n using Node.induct with
  | call h c _ _ => rw [seek_call, seek_call, hcontains]
  | closure h statements tail ih =>
    simp only [seek]
    induction statements with
    | nil => rfl
    | cons s rest ihrest =>
      rw [List.forall_mem_cons] at ih
      rw [seekAll, seekAll, ih.1, ihrest ih.2]
  | named h name colonLead value ih => simp only [seek, ih]
  | assignment h target operatorLead value ihtarget ihvalue => simp only [seek, ihtarget, ihvalue]
  | literal h value source => rfl
  | identifier h name => rfl
  | raw h text => rfl

theorem seekAll_congr (hcontains : scope.contains enclosing = scope.contains other)
    (nodes : List Node) :
    seekAll scope enclosing nodes = seekAll scope other nodes := by
  induction nodes with
  | nil => rfl
  | cons node nodes ih => rw [seekAll, seekAll, seek_congr hcontains, ih]

def AlikeAround (enclosing other : Option (Call Node)) : Prop :=
  enclosing.map (Call.map Node.face) = other.map (Call.map Node.face)

theorem AlikeAround.contains (h : AlikeAround enclosing other) :
    scope.contains enclosing = scope.contains other := by
  rcases enclosing with _ | c <;> rcases other with _ | d
  · rfl
  · cases h
  · cases h
  · have halike : Call.Alike c d := Option.some.inj h
    cases scope with
    | topLevel => rfl
    | suite name => simp only [contains, halike.suiteName?]

/-- The tree with `new` in place of the first block in scope, which is `block` with the head `h`. -/
inductive Replaces (scope : Scope) (h : Head) (block : Call Node) (new : Node) :
    Option (Call Node) → Node → Node → Prop
  | here {enclosing : Option (Call Node)} (is : block.isBlock = true)
      (inside : scope.contains enclosing = true) :
      Replaces scope h block new enclosing (.call h block) new
  | argument {enclosing : Option (Call Node)} {head : Head} {c : Call Node} {parenthesized : Bool}
      {lead tail trail : String} {before after : List (Argument Node)} {a b : Node}
      (skipped : (c.isBlock && scope.contains enclosing) = false)
      (is : c.arguments = some ⟨parenthesized, lead, before ++ ⟨a, trail⟩ :: after, tail⟩)
      (earlier : scope.seekAll (some c) (before.map Argument.node) = none)
      (inside : Replaces scope h block new (some c) a b) :
      Replaces scope h block new enclosing (.call head c) (.call head.revised
        { c with arguments := some ⟨parenthesized, lead, before ++ ⟨b, trail⟩ :: after, tail⟩ })
  | body {enclosing : Option (Call Node)} {head : Head} {c : Call Node} {a b : Node}
      (skipped : (c.isBlock && scope.contains enclosing) = false)
      (earlier : scope.seekAll (some c) c.argumentNodes = none) (is : c.closure = some a)
      (inside : Replaces scope h block new (some c) a b) :
      Replaces scope h block new enclosing (.call head c)
        (.call head.revised { c with closure := some b })
  | statement {enclosing : Option (Call Node)} {head : Head} {before after : List Node} {a b : Node}
      {tail : String} (earlier : scope.seekAll enclosing before = none)
      (inside : Replaces scope h block new enclosing a b) :
      Replaces scope h block new enclosing (.closure head (before ++ a :: after) tail)
        (.closure head.revised (before ++ b :: after) tail)
  | named {enclosing : Option (Call Node)} {head : Head} {name colonLead : String} {a b : Node}
      (inside : Replaces scope h block new enclosing a b) :
      Replaces scope h block new enclosing (.named head name colonLead a)
        (.named head.revised name colonLead b)
  | target {enclosing : Option (Call Node)} {head : Head} {operatorLead : String} {a b value : Node}
      (inside : Replaces scope h block new enclosing a b) :
      Replaces scope h block new enclosing (.assignment head a operatorLead value)
        (.assignment head.revised b operatorLead value)
  | value {enclosing : Option (Call Node)} {head : Head} {operatorLead : String} {a b target : Node}
      (earlier : scope.seek enclosing target = none)
      (inside : Replaces scope h block new enclosing a b) :
      Replaces scope h block new enclosing (.assignment head target operatorLead a)
        (.assignment head.revised target operatorLead b)

theorem Replaces.head {h : Head} {block : Call Node} {new n m : Node}
    (hreplaces : scope.Replaces h block new enclosing n m) (hnew : new.head = h.revised) :
    m.head = n.head.revised := by
  cases hreplaces with
  | here => exact hnew
  | argument | body | statement | named | target | value => rfl

end Scope

namespace Insertion

variable {α β γ : Type} {i : Insertion} {above : List Node}

theorem isDeclared_iff {block : Call Node} :
    i.isDeclared block = true ↔ ∃ x ∈ Declaration.inBlock block,
      x.configuration = i.configuration ∧ x.dependency.toCoordinate = i.coordinate := by
  simp [isDeclared, Dependency.isOf]

theorem intoBlock?_eq_none_iff {h : Head} {block : Call Node} :
    i.intoBlock? h block = none ↔
      i.isDeclared block = true ∨ append? i.statement h block = none := by
  cases hdeclared : i.isDeclared block <;> simp [intoBlock?, hdeclared]

theorem intoBlock?_eq_some_iff {h : Head} {block : Call Node} {new : Node} :
    i.intoBlock? h block = some new ↔
      i.isDeclared block = false ∧ append? i.statement h block = some new := by
  cases hdeclared : i.isDeclared block <;> simp [intoBlock?, hdeclared]

theorem intoBlock?_head {h : Head} {block : Call Node} {new : Node}
    (hinto : i.intoBlock? h block = some new) :
    new.head = h.revised := by
  have happend := (intoBlock?_eq_some_iff.mp hinto).2
  unfold append? at happend
  split at happend
  · dsimp only at happend
    split at happend
    · cases happend
      rfl
    · cases happend
  · cases happend

/-- What finding a block or none says about an insertion into `a`. The outcome is related to the
block by `result` if the block has been replaced. -/
inductive Outcome (i : Insertion) (result : Head → Call Node → Node → α → Prop) (a : α) :
    Option (Head × Call Node) → α × Bool → Prop
  | missing : Outcome i result a none (a, false)
  | kept {h : Head} {block : Call Node} (is : i.intoBlock? h block = none) :
      Outcome i result a (some (h, block)) (a, true)
  | changed {h : Head} {block : Call Node} {new : Node} {b : α}
      (is : i.intoBlock? h block = some new) (related : result h block new b) :
      Outcome i result a (some (h, block)) (b, true)

/-- The outcome of a step that only turns the result into another one. -/
theorem Outcome.map {result : Head → Call Node → Node → α → Prop}
    {other : Head → Call Node → Node → β → Prop}
    {found : Option (Head × Call Node)} {a : α} {b : β} {x : StateM Bool α} {f : α → β}
    (h : Outcome i result a found (x.run false)) (hself : f a = b)
    (himp : ∀ h block new a, new.head = h.revised → result h block new a →
      other h block new (f a)) :
    Outcome i other b found ((do let a ← x; pure (f a) : StateM Bool β).run false) := by
  rcases hx : x.run false with ⟨a', s⟩
  rw [hx] at h
  rw [run_bind_of_run hx]
  cases h with
  | missing => exact hself ▸ .missing
  | kept is => exact hself ▸ .kept is
  | changed is related => exact .changed is (himp _ _ _ _ (intoBlock?_head is) related)

/-- The outcome of two steps, of which the second changes nothing if the first has found a block. -/
theorem Outcome.andThen {result : Head → Call Node → Node → α → Prop}
    {result' : Head → Call Node → Node → β → Prop}
    {other : Head → Call Node → Node → γ → Prop} {found found' : Option (Head × Call Node)} {a : α}
    {b : β} {c : γ}
    {x : StateM Bool α} {y : StateM Bool β} {f : α → β → γ}
    (h : Outcome i result a found (x.run false))
    (h' : found = none → Outcome i result' b found' (y.run false)) (hdone : y.run true = (b, true))
    (hself : f a b = c)
    (hfirst : ∀ h block new a, new.head = h.revised → result h block new a →
      other h block new (f a b))
    (hsecond : found = none → ∀ h block new b, new.head = h.revised → result' h block new b →
      other h block new (f a b)) :
    Outcome i other c (found.or found')
      ((do let a ← x; let b ← y; pure (f a b) : StateM Bool γ).run false) := by
  rcases hx : x.run false with ⟨a', s⟩
  rw [hx] at h
  rw [run_bind_of_run hx]
  cases h with
  | missing => exact (h' rfl).map hself (hsecond rfl)
  | kept is =>
    rw [run_bind_of_run hdone]
    exact hself ▸ .kept is
  | changed is related =>
    rw [run_bind_of_run hdone]
    exact .changed is (hfirst _ _ _ _ (intoBlock?_head is) related)

/-- Once a block has been found, nothing is replaced any more. -/
theorem visitor_reads : i.visitor.Reads (· = true) where
  same := by
    rintro above n s rfl other hother
    cases n with
    | call h c => exact (Option.some.inj hother).symm
    | _ => cases hother
  holds := by
    rintro above n s rfl
    cases n <;> rfl

theorem run_visit_of_found (n : Node) : (n.visit i.visitor above).run true = (n, true) := by
  obtain ⟨hrun, hfound⟩ := visitor_reads.leaves above n true rfl
  rw [hrun, hfound]

def Follows (i : Insertion) (above : List Node) (n : Node) : Prop :=
  Outcome i (fun h block new m => i.scope.Replaces h block new (above.findSome? Node.call?) n m) n
    (i.scope.seek (above.findSome? Node.call?) n) ((n.visit i.visitor above).run false)

/-- In a list, one member is replaced by another with `m` as its node. -/
def ReplacesIn (node : α → Node) (put : α → Node → α) (i : Insertion)
    (enclosing : Option (Call Node)) (list : List α) (h : Head) (block : Call Node) (new : Node)
    (outcome : List α) : Prop :=
  ∃ before a after m, list = before ++ a :: after ∧
    i.scope.seekAll enclosing (before.map node) = none ∧
    i.scope.Replaces h block new enclosing (node a) m ∧ outcome = before ++ put a m :: after

theorem outcome_cons {node : α → Node} {put : α → Node → α} {a : α} {list : List α}
    {rest : StateM Bool (List α)}
    (hput : put a (node a) = a) (hfirst : i.Follows above (node a))
    (hdone : rest.run true = (list, true))
    (hrest : Outcome i (ReplacesIn node put i (above.findSome? Node.call?) list) list
      (i.scope.seekAll (above.findSome? Node.call?) (list.map node)) (rest.run false)) :
    Outcome i (ReplacesIn node put i (above.findSome? Node.call?) (a :: list)) (a :: list)
      (i.scope.seekAll (above.findSome? Node.call?) ((a :: list).map node))
      ((do
        let m ← (node a).visit i.visitor above
        let rest ← rest
        pure (put a m :: rest)).run false) := by
  rw [List.map_cons, Scope.seekAll]
  refine hfirst.andThen (fun _ => hrest) hdone (by rw [hput]) ?_ ?_
  · exact fun h block new m _ hreplaces => ⟨[], a, list, m, rfl, rfl, hreplaces, rfl⟩
  · rintro hnone h block new _ - ⟨before, b, after, m, rfl, hbefore, hreplaces, rfl⟩
    refine ⟨a :: before, b, after, m, rfl, ?_, hreplaces, by rw [hput]; rfl⟩
    rw [List.map_cons, Scope.seekAll, hnone, hbefore, Option.or_none]

theorem outcome_visitAll {nodes : List Node} (h : ∀ n ∈ nodes, i.Follows above n) :
    Outcome i (ReplacesIn (fun n => n) (fun _ m => m) i (above.findSome? Node.call?) nodes) nodes
      (i.scope.seekAll (above.findSome? Node.call?) nodes)
        ((Node.visitAll i.visitor above nodes).run false) := by
  induction nodes with
  | nil => exact .missing
  | cons n nodes ih =>
    rw [List.forall_mem_cons] at h
    have hdone : (Node.visitAll i.visitor above nodes).run true = (nodes, true) := by
      obtain ⟨hrun, hfound⟩ :=
        Visitor.run_visitAll (fun n (_ : n ∈ nodes) => visitor_reads.leaves above n) rfl
      rw [hrun, hfound]
    have hcons := @outcome_cons Node i above (fun n => n) (fun _ m => m) n nodes _ rfl h.1 hdone
      (by simpa using ih h.2)
    rw [List.map_id'] at hcons
    exact hcons

theorem outcome_visitItems {items : List (Argument Node)}
    (h : ∀ a ∈ items, i.Follows above a.node) :
    Outcome i (ReplacesIn Argument.node (fun a m => ⟨m, a.trail⟩) i
      (above.findSome? Node.call?) items) items
      (i.scope.seekAll (above.findSome? Node.call?) (items.map Argument.node))
      ((Node.visitItems i.visitor above items).run false) := by
  induction items with
  | nil => exact .missing
  | cons a items ih =>
    rw [List.forall_mem_cons] at h
    have hdone : (Node.visitItems i.visitor above items).run true = (items, true) := by
      obtain ⟨hrun, hfound⟩ := Visitor.run_visitItems
        (fun n (_ : n ∈ items.map Argument.node) => visitor_reads.leaves above n) rfl
      rw [hrun, hfound]
    exact outcome_cons rfl h.1 hdone (ih h.2)

inductive ReplacesPart (i : Insertion) (enclosing : Option (Call Node)) (c : Call Node) (h : Head)
    (block : Call Node) (new : Node) : Call Node → Prop
  | argument {parenthesized : Bool} {lead tail trail : String} {before after : List (Argument Node)}
      {a b : Node}
      (is : c.arguments = some ⟨parenthesized, lead, before ++ ⟨a, trail⟩ :: after, tail⟩)
      (earlier : i.scope.seekAll enclosing (before.map Argument.node) = none)
      (inside : i.scope.Replaces h block new enclosing a b) :
      ReplacesPart i enclosing c h block new
        { c with arguments := some ⟨parenthesized, lead, before ++ ⟨b, trail⟩ :: after, tail⟩ }
  | body {a b : Node} (earlier : i.scope.seekAll enclosing c.argumentNodes = none)
      (is : c.closure = some a) (inside : i.scope.Replaces h block new enclosing a b) :
      ReplacesPart i enclosing c h block new { c with closure := some b }

theorem outcome_visitArguments {c : Call Node} (h : ∀ a ∈ c.argumentNodes, i.Follows above a) :
    Outcome i (fun h block new arguments =>
      ReplacesPart i (above.findSome? Node.call?) c h block new { c with arguments })
      c.arguments (i.scope.seekAll (above.findSome? Node.call?) c.argumentNodes)
      ((Node.visitArguments i.visitor above c.arguments).run false) := by
  rcases c with ⟨name, types, _ | ⟨parenthesized, lead, items, tail⟩, trailing, delegate⟩
  · exact .missing
  · refine (outcome_visitItems fun a ha => h a.node (List.mem_map_of_mem ha)).map rfl ?_
    rintro h' block new _ - ⟨before, ⟨a, trail⟩, after, m, rfl, hbefore, hreplaces, rfl⟩
    exact .argument rfl hbefore hreplaces

theorem outcome_visitClosure {c : Call Node} (h : ∀ b, c.closure = some b → i.Follows above b) :
    Outcome i (fun h block new closure => ∃ a b, c.closure = some a ∧
        i.scope.Replaces h block new (above.findSome? Node.call?) a b ∧ closure = some b)
      c.closure (c.closure.bind (i.scope.seek (above.findSome? Node.call?)))
      ((Node.visitClosure i.visitor above c.closure).run false) := by
  rcases c with ⟨name, types, arguments, _ | body, delegate⟩
  · exact .missing
  · exact (h body rfl).map rfl fun h' block new m _ hreplaces => ⟨body, m, rfl, hreplaces, rfl⟩

theorem outcome_visitCall {c : Call Node} (harguments : ∀ a ∈ c.argumentNodes, i.Follows above a)
    (hclosure : ∀ b, c.closure = some b → i.Follows above b) :
    Outcome i (ReplacesPart i (above.findSome? Node.call?) c) c
      ((i.scope.seekAll (above.findSome? Node.call?) c.argumentNodes).or
        (c.closure.bind (i.scope.seek (above.findSome? Node.call?))))
      ((Node.visitCall i.visitor above c).run false) := by
  have hdone : (Node.visitClosure i.visitor above c.closure).run true = (c.closure, true) := by
    obtain ⟨hrun, hfound⟩ := Visitor.run_visitClosure
      (fun n (_ : n ∈ c.closure.toList) => visitor_reads.leaves above n) rfl
    rw [hrun, hfound]
  have hfirst := outcome_visitArguments harguments
  have hsecond := outcome_visitClosure hclosure
  obtain ⟨name, types, arguments, trailing, delegate⟩ := c
  refine hfirst.andThen (fun _ => hsecond) hdone rfl ?_ ?_
  · exact fun h block new arguments _ hpart => hpart
  · rintro hnone h block new _ - ⟨a, b, is, hreplaces, rfl⟩
    exact .body hnone is hreplaces

end Insertion

namespace Node

theorem not_same_of_revised {n m : Node} (h : m.head = n.head.revised) : m.same n = false := by
  simp [same, h, Head.revised]

theorem sameAll_of_not_same {a b : Node} (h : b.same a = false) (before after : List Node) :
    sameAll (before ++ b :: after) (before ++ a :: after) = false := by
  induction before with
  | nil => simp [sameAll, h]
  | cons n before ih => simp [sameAll, ih]

theorem rebuild_of_not_same {n visited a b : Node} {before after : List Node}
    (his : n.children = before ++ a :: after) (hvisited : visited.children = before ++ b :: after)
    (h : b.head = a.head.revised) :
    n.rebuild visited = visited.withHead n.head.revised := by
  rw [rebuild, his, hvisited, sameAll_of_not_same (not_same_of_revised h),
    if_neg Bool.false_ne_true]

end Node

namespace Insertion

variable {i : Insertion} {above : List Node}

theorem ReplacesPart.rebuild {enclosing : Option (Call Node)} {head h : Head}
    {c c' block : Call Node} {new : Node} (hpart : ReplacesPart i (some c) c h block new c')
    (hnew : new.head = h.revised) (hskipped : (c.isBlock && i.scope.contains enclosing) = false) :
    i.scope.Replaces h block new enclosing (.call head c)
      ((Node.call head c).rebuild (.call head c')) := by
  cases hpart with
  | @argument parenthesized lead tail trail before after a b is earlier inside =>
    have his : (Node.call head c).children =
        before.map Argument.node ++ a :: (after.map Argument.node ++ c.closure.toList) := by
      simp [Node.children, Call.argumentNodes, is]
    rw [Node.rebuild_of_not_same his (by simp [Node.children, Call.argumentNodes])
      (inside.head hnew)]
    exact .argument hskipped is earlier inside
  | @body a b earlier is inside =>
    have his : (Node.call head c).children = c.argumentNodes ++ [a] := by simp [Node.children, is]
    rw [Node.rebuild_of_not_same his rfl (inside.head hnew)]
    exact .body hskipped earlier is inside

theorem run_visitor_call (h : Head) (c : Call Node) :
    (i.visitor above (.call h c)).run false =
      if i.takes (above.findSome? Node.call?) c then
        (some ((i.intoBlock? h c).getD (.call h c)), true)
      else (none, false) := by
  cases htakes : i.takes (above.findSome? Node.call?) c <;> simp [visitor, htakes] <;> rfl

theorem follows_call {h : Head} {c : Call Node}
    (hitems : ∀ a ∈ c.argumentNodes, i.Follows (.call h c :: above) a)
    (hbody : ∀ b, c.closure = some b → i.Follows (.call h c :: above) b) :
    i.Follows above (.call h c) := by
  unfold Follows
  rw [Node.visit, Node.run_ask, run_visitor_call, Scope.seek_call]
  by_cases htakes : (c.isBlock && i.scope.contains (above.findSome? Node.call?)) = true
  · have htakes' : i.takes (above.findSome? Node.call?) c = true := htakes
    rw [if_pos htakes, if_pos htakes']
    rw [Bool.and_eq_true] at htakes
    cases hblock : i.intoBlock? h c with
    | none => exact .kept hblock
    | some new => exact .changed hblock (.here htakes.1 htakes.2)
  · have htakes' : i.takes (above.findSome? Node.call?) c ≠ true := htakes
    rw [if_neg htakes, if_neg htakes']
    refine (outcome_visitCall hitems hbody).map (Node.rebuild_self _) ?_
    exact fun h' block new c' hnew hpart => hpart.rebuild hnew (Bool.eq_false_iff.mpr htakes)

/-- An insertion does what the search for a block says. -/
theorem follows (n : Node) (above : List Node) : i.Follows above n := by
  induction n using Node.induct generalizing above with
  | call h c hitems hbody => exact follows_call (fun a ha => hitems a ha _) fun b hb => hbody b hb _
  | closure h statements tail ih =>
    have hall := outcome_visitAll fun s hs => ih s hs (.closure h statements tail :: above)
    refine hall.map (f := fun statements' => Node.rebuild _ (.closure h statements' tail))
      (Node.rebuild_self _) ?_
    rintro h' block new _ hnew ⟨before, a, after, m, rfl, hbefore, hreplaces, rfl⟩
    rw [Node.rebuild_of_not_same rfl rfl (hreplaces.head hnew)]
    rw [List.map_id'] at hbefore
    exact .statement hbefore hreplaces
  | named h name colonLead value ih =>
    have hvalue := ih (.named h name colonLead value :: above)
    refine hvalue.map (f := fun value' => Node.rebuild _ (.named h name colonLead value'))
      (Node.rebuild_self _) ?_
    intro h' block new m hnew hreplaces
    rw [@Node.rebuild_of_not_same _ _ value m [] [] rfl rfl (hreplaces.head hnew)]
    exact .named hreplaces
  | assignment h target operatorLead value ihtarget ihvalue =>
    have htarget := ihtarget (.assignment h target operatorLead value :: above)
    have hvalue := ihvalue (.assignment h target operatorLead value :: above)
    refine htarget.andThen (f := fun target' value' =>
      Node.rebuild _ (.assignment h target' operatorLead value'))
      (fun _ => hvalue) (run_visit_of_found value) (Node.rebuild_self _) ?_ ?_
    · intro h' block new m hnew hreplaces
      rw [@Node.rebuild_of_not_same _ _ target m [] [value] rfl rfl (hreplaces.head hnew)]
      exact .target hreplaces
    · intro hnone h' block new m hnew hreplaces
      rw [@Node.rebuild_of_not_same _ _ value m [target] [] rfl rfl (hreplaces.head hnew)]
      exact .value hnone hreplaces
  | literal h value source => exact .missing
  | identifier h name => exact .missing
  | raw h text => exact .missing

/-- What becomes of the statements of a file. -/
theorem outcome_intoFile (i : Insertion) (f : SourceFile) :
    Outcome i (fun h block new edited => ∃ before a after m, f.statements = before ++ a :: after ∧
        i.scope.seekAll none before = none ∧ i.scope.Replaces h block new none a m ∧
        edited = f.withStatements (before ++ m :: after))
      f (i.scope.seekAll none f.statements) (i.intoFile f) := by
  refine (outcome_visitAll fun n _ => follows n []).map (by rw [Node.sameAll_self, if_pos rfl]) ?_
  rintro h block new _ hnew ⟨before, a, after, m, is, hbefore, hreplaces, rfl⟩
  rw [List.map_id'] at hbefore
  refine ⟨before, a, after, m, is, hbefore, hreplaces, ?_⟩
  rw [is, Node.sameAll_of_not_same (Node.not_same_of_revised (hreplaces.head hnew)),
    if_neg Bool.false_ne_true]

end Insertion

end BuildScript
