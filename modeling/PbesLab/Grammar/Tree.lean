namespace PbesLab.Grammar

/-- A tree over the text it covers: its leaves, from left to right, are all characters. -/
inductive Tree (ρ : Type) : Type
  | leaf (c : Char)
  | node (r : ρ) (parts : List (Tree ρ))

namespace Tree

variable {ρ : Type}

def chars : Tree ρ → List Char
  | leaf c => [c]
  | node _ parts => parts.flatMap chars

def textOf (parts : List (Tree ρ)) : List Char :=
  parts.flatMap chars

def leaves (cs : List Char) : List (Tree ρ) :=
  cs.map leaf

end Tree

end PbesLab.Grammar
