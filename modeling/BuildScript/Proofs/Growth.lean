import BuildScript.Proofs.Seeking

/-!
# What an insertion keeps

A block that takes a statement grows by it. Nothing that readers look at changes elsewhere: the
outlines of all other statements stay, every search for a block finds what it found before, and no
declaration is lost.
-/

namespace BuildScript

def Node.isClosure : Node → Bool
  | closure _ _ _ => true
  | _ => false

/-- A statement like `implementation "g:a:1"`: a call of one literal, without a closure. -/
inductive Node.IsLeaf : Node → Prop
  | mk {h h' : Head} {c : Call Node} {value : LiteralValue} {source : String}
      (plain : c.delegate = none) (untyped : c.typeArguments = none) (alone : c.closure = none)
      (one : c.argumentNodes = [.literal h' value source]) : IsLeaf (.call h c)

inductive Grows (d : Node) : Head → Call Node → Node → Prop
  | mk {h ch : Head} {block : Call Node} {statements : List Node} {tail : String}
      (is : block.closure = some (.closure ch statements tail)) :
      Grows d h block
        (.call h.revised { block with
          closure := some (.closure ch.revised (statements ++ [d])
            (Insertion.brokenTail ((lineIndent? h.lead).getD "") tail)) })

namespace Call

variable {c : Call Node} {a b : Node}

theorem alike_argument {parenthesized : Bool} {lead tail trail : String}
    {before after : List (Argument Node)}
    (is : c.arguments = some ⟨parenthesized, lead, before ++ ⟨a, trail⟩ :: after, tail⟩)
    (hface : b.face = a.face) :
    Alike { c with arguments := some ⟨parenthesized, lead, before ++ ⟨b, trail⟩ :: after,
      tail⟩ } c := by
  simp [Alike, Call.map, is, Arguments.map, Argument.map, hface]

theorem alike_closure (is : c.closure = some a) (hface : b.face = a.face) :
    Alike { c with closure := some b } c := by
  simp [Alike, Call.map, is, hface]

end Call

namespace Declaration

theorem inBlock_eq {c : Call Node} {ch : Head} {statements : List Node} {tail : String}
    (h : c.closure = some (.closure ch statements tail)) :
    inBlock c = statements.filterMap ofStatement? := by
  simp [inBlock, Call.statements, h, Node.closureStatements]

end Declaration

namespace Scope

variable {scope other : Scope} {h : Head} {block : Call Node} {d new n m : Node}
    {enclosing around : Option (Call Node)}

theorem seek_leaf (hd : d.IsLeaf) : scope.seek enclosing d = none := by
  cases hd with
  | mk plain untyped alone one => simp [seek_call, Call.isBlock, alone, one, seekAll, seek]

/-- A grown block is a call that readers cannot tell from the block. -/
theorem grows_alike (hgrows : Grows d h block new) :
    ∃ grown, new = .call h.revised grown ∧ grown.Alike block ∧
      Declaration.inBlock grown =
        Declaration.inBlock block ++ (Declaration.ofStatement? d).toList := by
  cases hgrows with
  | @mk ch _ statements tail is =>
    refine ⟨_, rfl, Call.alike_closure is rfl, ?_⟩
    rw [Declaration.inBlock_eq is, Declaration.inBlock_eq rfl]
    cases hdeclared : Declaration.ofStatement? d <;> simp [List.filterMap_append, hdeclared]

/-- A tree in which a block has grown looks the same to readers and starts in the same way. -/
structure Unchanged (n m : Node) : Prop where
  outline : m.outline = n.outline
  inside : m.closureStatements.map Node.outline = n.closureStatements.map Node.outline
  lead : m.lead = n.lead
  closure : m.isClosure = n.isClosure

theorem Replaces.unchanged (hreplaces : scope.Replaces h block new enclosing n m)
    (hgrows : Grows d h block new) :
    Unchanged n m := by
  induction hreplaces with
  | here is inside =>
    obtain ⟨grown, rfl, halike, -⟩ := grows_alike hgrows
    exact ⟨congrArg (Node.call _) halike, rfl, rfl, rfl⟩
  | argument skipped is earlier inside ih =>
    have halike := Call.alike_argument is (Node.face_of_outline ih.outline)
    exact ⟨congrArg (Node.call _) halike, rfl, rfl, rfl⟩
  | body skipped earlier is inside ih =>
    have halike := Call.alike_closure is (Node.face_of_outline ih.outline)
    exact ⟨congrArg (Node.call _) halike, rfl, rfl, rfl⟩
  | statement earlier inside ih =>
    refine ⟨rfl, ?_, rfl, rfl⟩
    simp [Node.closureStatements, ih.outline]
  | named inside ih =>
    refine ⟨?_, rfl, rfl, rfl⟩
    simp [Node.outline, Node.face, Node.face_of_outline ih.outline]
  | target inside ih => exact ⟨rfl, rfl, rfl, rfl⟩
  | value earlier inside ih => exact ⟨rfl, rfl, rfl, rfl⟩

/-- Two searches found nothing, or blocks of which the second declares what the first does. -/
inductive Keeps : Option (Head × Call Node) → Option (Head × Call Node) → Prop
  | none : Keeps none none
  | some {h h' : Head} {c c' : Call Node}
      (declared : ∀ x ∈ Declaration.inBlock c, x ∈ Declaration.inBlock c') :
      Keeps (some (h, c)) (some (h', c'))

theorem Keeps.refl (found : Option (Head × Call Node)) : Keeps found found := by
  rcases found with _ | ⟨h, c⟩
  · exact .none
  · exact .some fun x hx => hx

theorem Keeps.or {first first' second second' : Option (Head × Call Node)}
    (hfirst : Keeps first first') (hsecond : Keeps second second') :
    Keeps (first.or second) (first'.or second') := by
  cases hfirst with
  | none => exact hsecond
  | some declared => exact .some declared

theorem AlikeAround.some {c c' : Call Node} (halike : c'.Alike c) :
    AlikeAround (some c') (some c) :=
  congrArg Option.some halike

/-- A call whose parts keep what is found in them keeps it as well. -/
theorem keeps_call {head head' : Head} {c c' : Call Node} (halike : c'.Alike c)
    (haround : AlikeAround around enclosing)
    (hdeclared : ∀ x ∈ Declaration.inBlock c, x ∈ Declaration.inBlock c')
    (harguments : Keeps (other.seekAll (some c) c.argumentNodes)
      (other.seekAll (some c') c'.argumentNodes))
    (hclosure : Keeps (c.closure.bind (other.seek (some c)))
      (c'.closure.bind (other.seek (some c')))) :
    Keeps (other.seek enclosing (.call head c)) (other.seek around (.call head' c')) := by
  rw [seek_call, seek_call, halike.isBlock, haround.contains]
  split
  · exact .some hdeclared
  · exact harguments.or hclosure

/-- Every search finds after an insertion what it found before, or that block as it has grown. -/
theorem Replaces.keeps (hreplaces : scope.Replaces h block new enclosing n m)
    (hgrows : Grows d h block new) (hd : d.IsLeaf) (haround : AlikeAround around enclosing) :
    Keeps (other.seek enclosing n) (other.seek around m) := by
  induction hreplaces generalizing around with
  | here is inside =>
    cases hgrows with
    | @mk ch _ statements tail is' =>
      generalize Insertion.brokenTail ((lineIndent? h.lead).getD "") tail = tail'
      have halike : Call.Alike
          { block with closure := some (.closure ch.revised (statements ++ [d]) tail') } block :=
        Call.alike_closure is' rfl
      have hcontains : other.contains (some _) = other.contains (some block) :=
        (AlikeAround.some halike).contains
      refine keeps_call halike haround ?_ ?_ ?_
      · intro x hx
        rw [Declaration.inBlock_eq is'] at hx
        rw [Declaration.inBlock_eq rfl, List.filterMap_append]
        exact List.mem_append_left _ hx
      · rw [seekAll_congr hcontains]
        exact .refl _
      · rw [is', Option.bind_some, Option.bind_some, seek_congr hcontains]
        -- The new statement has no block in it for any search to find.
        simp only [seek, seekAll_append, seekAll, seek_leaf hd, Option.or_none]
        exact .refl _
  | @argument _ head c parenthesized lead tail trail before after a b skipped is earlier
    inside ih =>
    have hface : b.face = a.face := Node.face_of_outline (inside.unchanged hgrows).outline
    have halike := Call.alike_argument is hface
    have hcontains : other.contains (some _) = other.contains (some c) :=
      (AlikeAround.some halike).contains
    refine keeps_call halike haround (fun x hx => hx) ?_ ?_
    · have hnodes : c.argumentNodes = before.map Argument.node ++ a :: after.map Argument.node := by
        simp [Call.argumentNodes, is]
      rw [hnodes]
      simp only [Call.argumentNodes, List.map_append, List.map_cons, seekAll_append, seekAll]
      rw [seekAll_congr hcontains, seekAll_congr hcontains]
      exact (Keeps.refl _).or ((ih (AlikeAround.some halike)).or (.refl _))
    · have hseek : other.seek (some _) = other.seek (some c) := funext (seek_congr hcontains)
      rw [hseek]
      exact .refl _
  | @body _ head c a b skipped earlier is inside ih =>
    have hsame := inside.unchanged hgrows
    have halike := Call.alike_closure is (Node.face_of_outline hsame.outline)
    have hcontains : other.contains (some _) = other.contains (some c) :=
      (AlikeAround.some halike).contains
    refine keeps_call halike haround ?_ ?_ ?_
    · intro x hx
      simp only [Declaration.inBlock, Call.statements, is] at hx ⊢
      rwa [Declaration.filterMap_ofStatement? hsame.inside]
    · rw [seekAll_congr hcontains]
      exact .refl _
    · rw [is, Option.bind_some, Option.bind_some]
      exact ih (AlikeAround.some halike)
  | statement earlier inside ih =>
    simp only [seek, seekAll_append, seekAll]
    rw [seekAll_congr haround.contains, seekAll_congr haround.contains]
    exact (Keeps.refl _).or ((ih haround).or (.refl _))
  | named inside ih =>
    simp only [seek]
    exact ih haround
  | @target _ _ _ a b value inside ih =>
    simp only [seek]
    rw [seek_congr haround.contains value]
    exact (ih haround).or (.refl _)
  | @value _ _ _ a b target earlier inside ih =>
    simp only [seek]
    rw [seek_congr haround.contains target]
    exact (Keeps.refl _).or (ih haround)

/-- The search that led to a block finds the grown block in its place. -/
theorem Replaces.seek_new (hreplaces : scope.Replaces h block new enclosing n m)
    (hgrows : Grows d h block new) (haround : AlikeAround around enclosing) :
    ∃ grown, new = .call h.revised grown ∧ scope.seek around m = some (h.revised, grown) := by
  obtain ⟨grown, rfl, halike, -⟩ := grows_alike hgrows
  refine ⟨grown, rfl, ?_⟩
  induction hreplaces generalizing around with
  | here is inside => simp [seek_call, halike.isBlock, is, haround.contains, inside]
  | @argument _ head c parenthesized lead tail trail before after a b skipped is earlier
    inside ih =>
    have hface : b.face = a.face := Node.face_of_outline (inside.unchanged hgrows).outline
    have halike := Call.alike_argument is hface
    rw [seek_call, halike.isBlock, haround.contains, skipped]
    simp only [Call.argumentNodes, List.map_append, List.map_cons, seekAll_append, seekAll]
    rw [seekAll_congr (AlikeAround.some halike).contains, earlier, ih (AlikeAround.some halike)]
    rfl
  | @body _ head c a b skipped earlier is inside ih =>
    have halike := Call.alike_closure is (Node.face_of_outline (inside.unchanged hgrows).outline)
    rw [seek_call, halike.isBlock, haround.contains, skipped]
    rw [seekAll_congr (AlikeAround.some halike).contains]
    simp only [Call.argumentNodes] at earlier ⊢
    rw [earlier, Option.bind_some, ih (AlikeAround.some halike)]
    rfl
  | statement earlier inside ih =>
    simp only [seek, seekAll_append, seekAll]
    rw [seekAll_congr haround.contains, earlier, ih haround]
    rfl
  | named inside ih => exact ih haround
  | target inside ih =>
    simp only [seek]
    rw [ih haround]
    rfl
  | value earlier inside ih =>
    simp only [seek]
    rw [seek_congr haround.contains, earlier, ih haround]
    rfl

end Scope

end BuildScript
