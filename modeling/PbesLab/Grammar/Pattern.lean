namespace PbesLab.Grammar

/-- Patterns over a vocabulary of rules. Sequences and repetitions of an open rule allow layout
between their parts, those of an atomic rule do not. -/
inductive Pattern (ρ : Type) : Type
  | empty
  | finish
  | literal (text : List Char)
  | oneOf (test : Char → Bool)
  | lineEnd
  | rule (r : ρ)
  | seq (first second : Pattern ρ)
  | choice (first second : Pattern ρ)
  | opt (body : Pattern ρ)
  | many (body : Pattern ρ)
  | ahead (body : Pattern ρ)
  | notAhead (body : Pattern ρ)

namespace Pattern

variable {ρ : Type}

instance : AndThen (Pattern ρ) := ⟨fun a b => seq a (b ())⟩
instance : OrElse (Pattern ρ) := ⟨fun a b => choice a (b ())⟩

def word (text : String) : Pattern ρ :=
  literal text.toList

def many1 (body : Pattern ρ) : Pattern ρ :=
  seq body (many body)

/-- One or more items with commas between them. -/
def commaList (item : Pattern ρ) : Pattern ρ :=
  seq item (many (seq (word ",") item))

end Pattern

/-- A grammar gives each rule its pattern, its kind, its name and its place in the listing of
expectations, and says what layout may stand at the start of a text. -/
structure Rules (ρ : Type) where
  body : ρ → Pattern ρ
  atomic : ρ → Bool
  name : ρ → String
  rank : ρ → Nat
  /-- Splits off the longest layout. -/
  layout : List Char → List Char × List Char

end PbesLab.Grammar
