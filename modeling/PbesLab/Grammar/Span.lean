import PbesLab.Grammar.Tree

namespace PbesLab.Grammar

structure Span (ρ : Type) where
  depth : Nat
  rule : ρ
  start : Nat
  stop : Nat

namespace Tree

variable {ρ : Type}

mutual

def byteLength : Tree ρ → Nat
  | leaf c => c.utf8Size
  | node _ parts => byteLengthOf parts

def byteLengthOf : List (Tree ρ) → Nat
  | [] => 0
  | t :: ts => t.byteLength + byteLengthOf ts

end

mutual

def spans (depth start : Nat) : Tree ρ → List (Span ρ)
  | leaf _ => []
  | node r parts =>
    ⟨depth, r, start, start + byteLengthOf parts⟩ :: spansOf (depth + 1) start parts

def spansOf (depth start : Nat) : List (Tree ρ) → List (Span ρ)
  | [] => []
  | t :: ts => t.spans depth start ++ spansOf depth (start + t.byteLength) ts

end

end Tree

end PbesLab.Grammar
