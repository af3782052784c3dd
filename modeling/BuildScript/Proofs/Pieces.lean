import BuildScript.Proofs.Cutting
import BuildScript.Proofs.Seeking
import BuildScript.Proofs.Splicing

/-!
# Pieces of a text

A script is cut into the pieces that an edit could tell apart: the trivia before the closing brace
of each `dependencies` block, and the text between. A tree in which blocks have grown is the same
row of pieces with something inserted before such trivia.
-/

namespace BuildScript

inductive Piece where
  | text (written : String)
  /-- The trivia before the closing brace of a `dependencies` block, with the indentation of its
  call. -/
  | ending (indent tail : String)
  deriving DecidableEq, Repr

namespace Piece

def print : Piece → String
  | text written => written
  | ending _ tail => tail

def printAll (pieces : List Piece) : String := String.join (pieces.map print)

/-- The trivia before a closing brace, of a `dependencies` block if there is an indentation. -/
def beforeBrace (room : Option String) (tail : String) : Piece :=
  match room with
  | some indent => ending indent tail
  | none => text tail

/-- What a piece may look like after a number of insertions. Text stays. The insertions at the end
of a block are all made at one point, before its last trivia. If these are on one line, a line break
and the indentation of the call come in place of the blanks before the brace. -/
inductive Becomes : Piece → Nat → String → Prop
  | same (p : Piece) : Becomes p 0 p.print
  | grown {indent tail inserted : String} {n : Nat} (line : '\n' ∈ tail.toList) :
      Becomes (ending indent tail) (n + 1) (inserted ++ tail)
  | broken {indent kept blanks inserted : String} {n : Nat} (line : '\n' ∉ (kept ++ blanks).toList)
      (blank : blanks.toList.all Text.isBlank = true)
      (trimmed : Text.trimEnd (kept ++ blanks) = kept) :
      Becomes (ending indent (kept ++ blanks)) (n + 1) (inserted ++ kept ++ "\n" ++ indent)

inductive Become : List Piece → Nat → String → Prop
  | nil : Become [] 0 ""
  | cons {p : Piece} {ps : List Piece} {k l : Nat} {text more : String} (first : p.Becomes k text)
      (rest : Become ps l more) : Become (p :: ps) (k + l) (text ++ more)

end Piece

/-- The indentation that the closing brace of a call gets, if the call is a `dependencies` block. -/
def Call.room (h : Head) (c : Call Node) : Option String :=
  if c.isBlock then some ((lineIndent? h.lead).getD "") else none

namespace Node

mutual

/-- The pieces of a node. A closure has `room` for insertions if it belongs to a `dependencies`
block. -/
def pieces (room : Option String) : Node → List Piece
  | call h ⟨name, typeArguments, arguments, trailing, delegate⟩ =>
    .text (h.lead ++ Delegate.print delegate ++ name ++ typeArguments.getD "") ::
    ((match arguments with
      | none => []
      | some ⟨true, lead, items, tail⟩ =>
        .text (lead ++ "(") :: (piecesOfItems items ++ [.text (tail ++ ")")])
      | some ⟨false, lead, items, _⟩ => .text lead :: piecesOfItems items) ++
    (match trailing with
      | none => []
      | some body =>
        body.pieces (Call.room h ⟨name, typeArguments, arguments, some body, delegate⟩)))
  | closure h statements tail =>
    .text (h.lead ++ "\x7b") :: (piecesOf statements ++ [.beforeBrace room tail, .text "\x7d"])
  | literal h _ source => [.text (h.lead ++ source)]
  | identifier h name => [.text (h.lead ++ name)]
  | named h name colonLead value => .text (h.lead ++ name ++ colonLead ++ ":") :: value.pieces none
  | assignment h target operatorLead value =>
    .text h.lead :: (target.pieces none ++ .text (operatorLead ++ "=") :: value.pieces none)
  | raw h text => [.text (h.lead ++ text)]

def piecesOfItems : List (Argument Node) → List Piece
  | [] => []
  | ⟨node, trail⟩ :: rest =>
    node.pieces none ++ .text (trail ++ if rest.isEmpty then "" else ",") :: piecesOfItems rest

def piecesOf : List Node → List Piece
  | [] => []
  | node :: rest => node.pieces none ++ piecesOf rest

end

def piecesOfArguments : Option (Arguments Node) → List Piece
  | none => []
  | some ⟨true, lead, items, tail⟩ =>
    .text (lead ++ "(") :: (piecesOfItems items ++ [.text (tail ++ ")")])
  | some ⟨false, lead, items, _⟩ => .text lead :: piecesOfItems items

def piecesOfBody (room : Option String) : Option Node → List Piece
  | none => []
  | some body => body.pieces room

theorem pieces_call (room : Option String) (h : Head) (c : Call Node) :
    (call h c).pieces room =
      .text (h.lead ++ Delegate.print c.delegate ++ c.name ++ c.typeArguments.getD "") ::
        (piecesOfArguments c.arguments ++ piecesOfBody (c.room h) c.closure) := by
  rcases c with ⟨name, types, _ | ⟨_ | _, lead, items, tail⟩, _ | body, delegate⟩ <;> rfl

end Node

namespace Piece

theorem Become.append {ps qs : List Piece} {k l : Nat} {text more : String} (h : Become ps k text)
    (h' : Become qs l more) : Become (ps ++ qs) (k + l) (text ++ more) := by
  induction h with
  | nil => simpa using h'
  | cons first rest ih =>
    rw [Nat.add_assoc, String.append_assoc]
    exact .cons first ih

theorem Becomes.single {p : Piece} {k : Nat} {text : String} (h : p.Becomes k text) :
    Become [p] k text := by
  simpa using Become.cons h .nil

theorem become_text (written : String) : Become [text written] 0 written :=
  (Becomes.same (text written)).single

theorem Become.text_cons {ps : List Piece} {k : Nat} {more : String} (written : String)
    (h : Become ps k more) :
    Become (text written :: ps) k (written ++ more) := by
  simpa using (become_text written).append h

/-- Without insertions a row of pieces stays what it is. -/
theorem Become.eq_printAll {ps : List Piece} {k : Nat} {text : String} (h : Become ps k text)
    (hk : k = 0) :
    text = printAll ps := by
  induction h with
  | nil => rfl
  | @cons p ps k l text more first rest ih =>
    obtain ⟨rfl, rfl⟩ := Nat.add_eq_zero_iff.mp hk
    cases first
    rw [ih rfl]
    simp [printAll, String.join_cons]

/-- Trimming takes nothing but blanks from the end. -/
theorem exists_blanks (tail : String) :
    ∃ blanks, tail = Text.trimEnd tail ++ blanks ∧ blanks.toList.all Text.isBlank = true := by
  refine ⟨String.ofList (tail.toList.rtakeWhile Text.isBlank), ?_, ?_⟩
  · rw [Text.trimEnd, Text.trimBack_eq, ← String.ofList_append, List.rdropWhile_append_rtakeWhile,
      String.ofList_toList]
  · rw [String.toList_ofList, List.all_eq_true]
    exact fun c hc => List.mem_rtakeWhile_imp hc

theorem becomes_brokenTail (indent tail inserted : String) (n : Nat) :
    (ending indent tail).Becomes (n + 1) (inserted ++ Insertion.brokenTail indent tail) := by
  unfold Insertion.brokenTail
  by_cases hline : '\n' ∈ tail.toList
  · rw [if_pos (by simpa using hline)]
    exact .grown hline
  · rw [if_neg (by simpa using hline)]
    obtain ⟨blanks, htail, hblank⟩ := exists_blanks tail
    rw [← String.append_assoc, ← String.append_assoc]
    have hbroken :=
      @Becomes.broken indent (Text.trimEnd tail) blanks inserted n (by rwa [← htail]) hblank
      (by rw [← htail])
    rwa [← htail] at hbroken

end Piece

inductive Part where
  | node (room : Option String) (node : Node)
  | nodes (list : List Node)
  | items (list : List (Argument Node))
  | arguments (arguments : Option (Arguments Node))
  | body (room : Option String) (body : Option Node)

namespace Part

def pieces : Part → List Piece
  | node room n => n.pieces room
  | nodes list => Node.piecesOf list
  | items list => Node.piecesOfItems list
  | arguments a => Node.piecesOfArguments a
  | body room b => Node.piecesOfBody room b

def print : Part → String
  | node _ n => n.print
  | nodes list => Node.printAll list
  | items list => Node.printItems list
  | arguments a => Node.printArguments a
  | body _ b => Node.printClosure b

end Part

/-- The end of a row of statements before and after others were appended. Trivia behind the row are
finished by `finish` then; without it, nothing can be appended. -/
inductive Ending (finish : Option (String → String)) (tail : String) :
    List Node → String → Nat → Prop
  | same : Ending finish tail [] tail 0
  | grown {f : String → String} {news : List Node} {n : Nat} (is : finish = some f) :
      Ending finish tail news (f tail) (n + 1)

namespace Ending

variable {finish : Option (String → String)} {f : String → String} {tail tail' : String}
    {news : List Node} {l : Nat}

theorem append (h : Ending (some f) tail news tail' l) (hf : ∀ t, f (f t) = f t)
    (more : List Node) :
    Ending (some f) tail (news ++ more) (f tail') (l + 1) := by
  cases h with
  | same => exact .grown rfl
  | grown is =>
    cases is
    rw [hf]
    exact .grown rfl

/-- Whatever becomes of appended statements, they are still appended. -/
theorem replace (h : Ending finish tail news tail' l) (hnews : news ≠ []) (others : List Node) :
    Ending finish tail others tail' (l + 1) := by
  cases h with
  | same => exact absurd rfl hnews
  | grown is => exact .grown is

end Ending

/-- The second part is the first with so many insertions at the ends of `dependencies` blocks. -/
inductive Grown : Part → Part → Nat → Prop
  | literal {room : Option String} {h : Head} {value : LiteralValue} {source : String} :
      Grown (.node room (.literal h value source)) (.node room (.literal h value source)) 0
  | identifier {room : Option String} {h : Head} {name : String} :
      Grown (.node room (.identifier h name)) (.node room (.identifier h name)) 0
  | raw {room : Option String} {h : Head} {text : String} :
      Grown (.node room (.raw h text)) (.node room (.raw h text)) 0
  | named {room : Option String} {h h' : Head} {name colonLead : String} {a b : Node} {k : Nat}
      (lead : h'.lead = h.lead) (value : Grown (.node none a) (.node none b) k) :
      Grown (.node room (.named h name colonLead a)) (.node room (.named h' name colonLead b)) k
  | assignment {room : Option String} {h h' : Head} {operatorLead : String} {a a' b b' : Node}
      {k l : Nat} (lead : h'.lead = h.lead) (target : Grown (.node none a) (.node none a') k)
      (value : Grown (.node none b) (.node none b') l) :
      Grown (.node room (.assignment h a operatorLead b))
        (.node room (.assignment h' a' operatorLead b')) (k + l)
  | closure {room : Option String} {h h' : Head} {statements statements' news : List Node}
      {tail tail' : String} {k l : Nat} (lead : h'.lead = h.lead)
      (inside : Grown (.nodes statements) (.nodes statements') k)
      (ending : Ending (room.map Insertion.brokenTail) tail news tail' l) :
      Grown (.node room (.closure h statements tail))
        (.node room (.closure h' (statements' ++ news) tail')) (k + l)
  | call {room : Option String} {h h' : Head} {name : String} {types : Option String}
      {given given' : Option (Arguments Node)} {body body' : Option Node}
      {delegate : Option Delegate} {k l : Nat}
      (lead : h'.lead = h.lead) (arguments : Grown (.arguments given) (.arguments given') k)
      (inside : Grown (.body (Call.room h ⟨name, types, given, body, delegate⟩) body)
        (.body (Call.room h ⟨name, types, given, body, delegate⟩) body') l) :
      Grown (.node room (.call h ⟨name, types, given, body, delegate⟩))
        (.node room (.call h' ⟨name, types, given', body', delegate⟩)) (k + l)
  | nil : Grown (.nodes []) (.nodes []) 0
  | cons {a b : Node} {list list' : List Node} {k l : Nat}
      (first : Grown (.node none a) (.node none b) k)
      (rest : Grown (.nodes list) (.nodes list') l) :
      Grown (.nodes (a :: list)) (.nodes (b :: list')) (k + l)
  | noItem : Grown (.items []) (.items []) 0
  | item {a b : Node} {trail : String} {list list' : List (Argument Node)} {k l : Nat}
      (first : Grown (.node none a) (.node none b) k)
      (rest : Grown (.items list) (.items list') l) :
      Grown (.items (⟨a, trail⟩ :: list)) (.items (⟨b, trail⟩ :: list')) (k + l)
  | noArguments : Grown (.arguments none) (.arguments none) 0
  | someArguments {parenthesized : Bool} {lead tail : String} {list list' : List (Argument Node)}
      {k : Nat} (inside : Grown (.items list) (.items list') k) :
      Grown (.arguments (some ⟨parenthesized, lead, list, tail⟩))
        (.arguments (some ⟨parenthesized, lead, list', tail⟩)) k
  | noBody {room : Option String} : Grown (.body room none) (.body room none) 0
  | someBody {room : Option String} {a b : Node} {k : Nat}
      (inside : Grown (.node room a) (.node room b) k) :
      Grown (.body room (some a)) (.body room (some b)) k

namespace Grown

open Piece

variable {p q : Part} {k : Nat} {d n m new : Node} {h : Head} {block : Call Node}
    {room : Option String}

theorem isEmpty_items {list list' : List (Argument Node)}
    (hgrown : Grown (.items list) (.items list') k) :
    list'.isEmpty = list.isEmpty := by
  cases hgrown <;> rfl

theorem becomes_ending {tail tail' : String} {news : List Node} {l : Nat}
    (h : Ending (room.map Insertion.brokenTail) tail news tail' l) :
    (beforeBrace room tail).Becomes l (Node.printAll news ++ tail') := by
  cases h with
  | same =>
    have hsame := Becomes.same (beforeBrace room tail)
    have hprint : (beforeBrace room tail).print = tail := by cases room <;> rfl
    simpa [Node.printAll, hprint] using hsame
  | grown is =>
    obtain ⟨indent, rfl, rfl⟩ := Option.map_eq_some_iff.mp is
    exact becomes_brokenTail indent tail _ _

/-- A grown part has the pieces of the part that it comes from, with the insertions. -/
theorem become (hgrown : Grown p q k) : Become p.pieces k q.print := by
  induction hgrown with
  | literal => exact become_text _
  | identifier => exact become_text _
  | raw => exact become_text _
  | @named room h h' name colonLead a b k lead value ih =>
    have hrow := ih.text_cons (h.lead ++ name ++ colonLead ++ ":")
    simpa [Part.pieces, Part.print, Node.pieces, Node.print, lead] using hrow
  | @assignment room h h' operatorLead a a' b b' k l lead target value iht ihv =>
    have hrow := (iht.append (ihv.text_cons (operatorLead ++ "="))).text_cons h.lead
    simpa [Part.pieces, Part.print, Node.pieces, Node.print, lead, String.append_assoc] using hrow
  | @closure room h h' statements statements' news tail tail' k l lead inside ending ih =>
    have hend := (becomes_ending ending).single.append (become_text "\x7d")
    have hrow := (ih.append hend).text_cons (h.lead ++ "\x7b")
    simpa [Part.pieces, Part.print, Node.pieces, Node.print, lead, Node.printAll_append,
      String.append_assoc]
      using hrow
  | @call room h h' name types given given' body body' delegate k l lead arguments inside iha ihb =>
    have hrow :=
      (iha.append ihb).text_cons (h.lead ++ Delegate.print delegate ++ name ++ types.getD "")
    simpa [Part.pieces, Part.print, Node.pieces_call, Node.print_call, lead,
      String.append_assoc] using hrow
  | nil => exact .nil
  | cons first rest ihf ihr => exact ihf.append ihr
  | noItem => exact .nil
  | @item a b trail list list' k l first rest ihf ihr =>
    have hrow := ihf.append (ihr.text_cons (trail ++ if list.isEmpty then "" else ","))
    have hempty := rest.isEmpty_items
    cases list' with
    | nil =>
      simp only [List.isEmpty_nil] at hempty
      simpa [Part.pieces, Part.print, Node.piecesOfItems, Node.printItems, ← hempty] using hrow
    | cons item list' =>
      simp only [List.isEmpty_cons] at hempty
      simpa [Part.pieces, Part.print, Node.piecesOfItems, Node.printItems_cons, ← hempty,
        String.append_assoc]
        using hrow
  | noArguments => exact .nil
  | @someArguments parenthesized lead tail list list' k inside ih =>
    cases parenthesized with
    | true =>
      have hrow := (ih.append (become_text (tail ++ ")"))).text_cons (lead ++ "(")
      simpa [Part.pieces, Part.print, Node.piecesOfArguments, Node.printArguments,
        String.append_assoc] using hrow
    | false => exact ih.text_cons lead
  | noBody => exact .nil
  | someBody inside ih => exact ih

theorem refl_nodes {list : List Node} (h : ∀ n ∈ list, Grown (.node none n) (.node none n) 0) :
    Grown (.nodes list) (.nodes list) 0 := by
  induction list with
  | nil => exact .nil
  | cons n list ih =>
    rw [List.forall_mem_cons] at h
    exact .cons h.1 (ih h.2)

theorem refl_items {list : List (Argument Node)}
    (h : ∀ a ∈ list, Grown (.node none a.node) (.node none a.node) 0) :
    Grown (.items list) (.items list) 0 := by
  induction list with
  | nil => exact .noItem
  | cons a list ih =>
    rw [List.forall_mem_cons] at h
    exact .item h.1 (ih h.2)

theorem refl (room : Option String) (n : Node) : Grown (.node room n) (.node room n) 0 := by
  induction n using Node.induct generalizing room with
  | call h c iharguments ihbody =>
    rcases c with ⟨name, types, given, body, delegate⟩
    change Grown _ _ (0 + 0)
    refine .call rfl ?_ ?_
    · rcases given with _ | ⟨parenthesized, lead, list, tail⟩
      · exact .noArguments
      · exact .someArguments (refl_items fun a ha =>
          iharguments a.node (List.mem_map_of_mem ha) none)
    · cases body with
      | none => exact .noBody
      | some body => exact .someBody (ihbody body rfl _)
  | closure h statements tail ih =>
    have hclosure := @closure room h h statements statements [] tail tail 0 0 rfl
      (refl_nodes fun n hn => ih n hn none) .same
    rwa [List.append_nil] at hclosure
  | named h name colonLead value ih => exact .named rfl (ih none)
  | assignment h target operatorLead value iht ihv =>
    change Grown _ _ (0 + 0)
    exact .assignment rfl (iht none) (ihv none)
  | literal h value source => exact .literal
  | identifier h name => exact .identifier
  | raw h text => exact .raw

end Grown

end BuildScript
