import PbesLab.Grammar.Tree

namespace PbesLab.Grammar.Tree

variable {ρ μ : Type}

mutual

/-- The meaning of a node, given that of a rule over some parts and the meanings inside; a leaf has
none. The error is the first rule in text order that lacks a meaning. -/
def meanings (ofNode? : ρ → List (Tree ρ) → List μ → Option μ) : Tree ρ → Except ρ (List μ)
  | leaf _ => .ok []
  | node r parts => do
    let inner ← meaningsOf ofNode? parts
    match ofNode? r parts inner with
    | some m => .ok [m]
    | none => .error r

def meaningsOf (ofNode? : ρ → List (Tree ρ) → List μ → Option μ) :
    List (Tree ρ) → Except ρ (List μ)
  | [] => .ok []
  | t :: ts => do
    let first ← meanings ofNode? t
    let rest ← meaningsOf ofNode? ts
    return first ++ rest

end

end PbesLab.Grammar.Tree
