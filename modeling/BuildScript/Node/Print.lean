import BuildScript.Node.Basic

/-!
# Printing

A node prints as the text it stands for, trivia included.
-/

namespace BuildScript

def Delegate.print : Option Delegate → String
  | none => ""
  | some d => d.keyword ++ d.propertyLead ++ d.property ++ d.byLead ++ "by" ++ d.callLead

namespace Node

mutual

def print : Node → String
  | call h ⟨name, typeArguments, arguments, trailing, delegate⟩ =>
    h.lead ++ Delegate.print delegate ++ name ++ typeArguments.getD "" ++
    (match arguments with
      | none => ""
      | some ⟨true, lead, items, tail⟩ => lead ++ "(" ++ printItems items ++ tail ++ ")"
      | some ⟨false, lead, items, _⟩ => lead ++ printItems items) ++
    (match trailing with
      | none => ""
      | some body => body.print)
  | closure h statements tail => h.lead ++ "\x7b" ++ printAll statements ++ tail ++ "\x7d"
  | literal h _ source => h.lead ++ source
  | identifier h name => h.lead ++ name
  | named h name colonLead value => h.lead ++ name ++ colonLead ++ ":" ++ value.print
  | assignment h target operatorLead value =>
    h.lead ++ target.print ++ operatorLead ++ "=" ++ value.print
  | raw h text => h.lead ++ text

/-- Arguments with a comma between them. -/
def printItems : List (Argument Node) → String
  | [] => ""
  | [⟨node, trail⟩] => node.print ++ trail
  | ⟨node, trail⟩ :: item :: rest => node.print ++ trail ++ "," ++ printItems (item :: rest)

/-- Statements one after another. -/
def printAll : List Node → String
  | [] => ""
  | node :: rest => node.print ++ printAll rest

end

theorem printAll_append (list more : List Node) :
    printAll (list ++ more) = printAll list ++ printAll more := by
  induction list with
  | nil => simp [printAll]
  | cons n list ih => simp [printAll, ih, String.append_assoc]

end Node

end BuildScript
