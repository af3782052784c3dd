import BuildScript.Proofs.Trees
import BuildScript.Script.Declaration

/-!
# What readers look at

Declarations and suites are read off the names of calls and off the literals and identifiers among
their arguments. A reader never looks at the closure of an argument or at trivia, so it gives the
same answer for calls that are alike in the rest.
-/

namespace BuildScript

namespace Node

/-- What readers see of an argument. -/
def face : Node → Node
  | literal _ value _ => literal (Head.new 0 "") value ""
  | identifier _ name => identifier (Head.new 0 "") name
  | named _ name _ value => named (Head.new 0 "") name "" value.face
  | call _ _ => raw (Head.new 0 "") ""
  | closure _ _ _ => raw (Head.new 0 "") ""
  | assignment _ _ _ _ => raw (Head.new 0 "") ""
  | raw _ _ => raw (Head.new 0 "") ""

def outline : Node → Node
  | call _ c => call (Head.new 0 "") (c.map face)
  | n => n.face

@[simp] theorem string?_face (n : Node) : n.face.string? = n.string? := by
  fun_cases face n with
  | case1 h value source => cases value <;> rfl
  | _ => rfl

@[simp] theorem isSuiteType_face (n : Node) : Call.isSuiteType n.face = Call.isSuiteType n := by
  fun_cases face n <;> rfl

@[simp] theorem add?_face (fields : Declaration.NamedFields) (n : Node) :
    fields.add? n.face = fields.add? n := by
  fun_cases face n with
  | case3 h name colonLead value => simp [Declaration.NamedFields.add?]
  | _ => rfl

theorem face_of_outline {a b : Node} (h : a.outline = b.outline) : a.face = b.face := by
  have hface : ∀ n : Node, n.outline.face = n.face := by
    intro n
    cases n with
    | named head name colonLead value =>
      have hvalue : value.face.face = value.face := by
        induction value using Node.induct with
        | named head name colonLead value ih => simp only [face, ih]
        | _ => simp only [face]
      simp only [outline, face, hvalue]
    | _ => simp only [outline, face]
  rw [← hface a, h, hface b]

@[simp] theorem face_bare (n : Node) : n.bare.face = n.face := by
  induction n using Node.induct with
  | named h name colonLead value ih => simp only [bare_named, face, ih]
  | _ => simp [face]

end Node

theorem Call.map_map {α β γ : Type} (f : α → β) (g : β → γ) (c : Call α) :
    (c.map f).map g = c.map fun a => g (f a) := by
  rcases c with ⟨name, types, arguments, closure, delegate⟩
  simp only [Call.map, Option.map_map]
  congr 2
  funext a
  simp [Arguments.map, Argument.map]

@[simp] theorem Node.outline_bare (n : Node) : n.bare.outline = n.outline := by
  cases n with
  | call h c => simp [outline, Call.map_map]
  | _ => simp [outline, face]

namespace Call

def Alike (c d : Call Node) : Prop := c.map Node.face = d.map Node.face

variable {c d : Call Node}

theorem Alike.refl (c : Call Node) : Alike c c := rfl

theorem Alike.name (h : Alike c d) : c.name = d.name := by
  have := congrArg Call.name h
  exact this

theorem Alike.simpleName (h : Alike c d) : c.simpleName = d.simpleName := by
  rw [Call.simpleName, Call.simpleName, h.name]

theorem Alike.closure (h : Alike c d) : c.closure.isSome = d.closure.isSome := by
  have := congrArg (fun k => k.closure.isSome) h
  simpa [Call.map] using this

theorem suiteName?_map_face (c : Call Node) : (c.map Node.face).suiteName? = c.suiteName? := by
  have hname : (c.map Node.face).simpleName = c.simpleName := rfl
  have hdelegate : (c.map Node.face).delegate = c.delegate := rfl
  have htypes : (c.map Node.face).typeArguments = c.typeArguments := rfl
  unfold suiteName?
  rw [hname, hdelegate, htypes, argumentNodes_map]
  generalize c.delegate = delegate, c.typeArguments = types, c.argumentNodes = nodes
  rcases delegate with _ | delegate <;> rcases types with _ | types <;>
    rcases nodes with _ | ⟨a, _ | ⟨b, _ | ⟨e, nodes⟩⟩⟩ <;>
    simp only [List.map_nil, List.map_cons, Node.string?_face, Node.isSuiteType_face]

theorem Alike.suiteName? (h : Alike c d) : c.suiteName? = d.suiteName? := by
  rw [← suiteName?_map_face c, h, suiteName?_map_face]

end Call

namespace Declaration

theorem dependency?_map_face (arguments : List Node) :
    dependency? (arguments.map Node.face) = dependency? arguments := by
  have hnamed : namedDependency? (arguments.map Node.face) = namedDependency? arguments := by
    simp [namedDependency?, List.foldlM_map]
  rcases arguments with _ | ⟨one, _ | ⟨two, more⟩⟩
  · rfl
  · simp [dependency?]
  · exact hnamed

theorem ofStatement?_outline (statement : Node) :
    ofStatement? statement.outline = ofStatement? statement := by
  cases statement with
  | call h c =>
    simp only [ofStatement?, Node.outline, Node.call?, Call.argumentNodes_map, dependency?_map_face,
      Option.bind_eq_bind, Option.bind_some]
    rfl
  | _ => rfl

/-- Statements with the same outlines make the same declarations. -/
theorem filterMap_ofStatement? {nodes others : List Node}
    (h : nodes.map Node.outline = others.map Node.outline) :
    nodes.filterMap ofStatement? = others.filterMap ofStatement? := by
  have houtline : ∀ nodes : List Node,
      nodes.filterMap ofStatement? = (nodes.map Node.outline).filterMap ofStatement? := by
    intro nodes
    simp [List.filterMap_map, ofStatement?_outline]
  rw [houtline, h, ← houtline]

end Declaration

end BuildScript
