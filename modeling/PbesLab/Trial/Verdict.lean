import PbesLab.Text.Pieces
import PbesLab.Data.Basic

namespace PbesLab

inductive Strategy
  | overApprox
  | underApprox
deriving DecidableEq

namespace Strategy

def text : Strategy → String
  | overApprox => "over"
  | underApprox => "under"

/-- Iterations take turns, starting from above. -/
def forIteration (i : Nat) : Strategy :=
  if i % 2 = 0 then overApprox else underApprox

end Strategy

/-- The answers before and after abstraction, as far as there are two. -/
inductive Outcome
  | agree (answer : Bool)
  | inconclusive
  | mismatch (concrete abstracted : Bool)
deriving DecidableEq

namespace Outcome

def ofAnswers : Option Bool → Option Bool → Outcome
  | some a, some b => if a = b then agree a else mismatch a b
  | _, _ => inconclusive

/-- Only two different answers fail a test. -/
def passed : Outcome → Bool
  | mismatch .. => false
  | _ => true

def text : Outcome → String
  | agree a => boolText a ++ " " ++ boolText a
  | inconclusive => "inconclusive"
  | mismatch a b => boolText a ++ " " ++ boolText b ++ " MISMATCH"

end Outcome

def answerText : Option Bool → String
  | some b => "Some(" ++ boolText b ++ ")"
  | none => "None"

def answerOfWord? (word : List Char) : Option Bool :=
  let bare := String.ofList (Text.trimRight (· == '.') word)
  if bare = "true" then some true else if bare = "false" then some false else none

/-- The solver's answer is the last word of the last line that is not blank. -/
def readAnswer? (output : String) : Option Bool := do
  let line ← (((Text.lines output.toList).map Text.trim).filter (!·.isEmpty)).getLast?
  let word ← (Text.words line).getLast?
  answerOfWord? word

end PbesLab
