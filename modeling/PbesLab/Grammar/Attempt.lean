import PbesLab.Grammar.Matching

namespace PbesLab.Grammar

/-- Rules that failed at the furthest place so far, which is given by the number of characters
that follow it. -/
structure Attempts (ρ : Type) where
  remaining : Nat
  rules : List ρ

variable {ρ : Type}

namespace Attempts

def at? (a : Attempts ρ) (remaining : Nat) : List ρ :=
  if a.remaining = remaining then a.rules else []

/-- Notes that `r` failed at a place where `earlier` had been noted before it was tried. A single
rule noted since then says more than `r` does; several are replaced by `r`. -/
def note (a : Attempts ρ) (r : ρ) (remaining : Nat) (earlier : List ρ) : Attempts ρ :=
  if (a.at? remaining).length = earlier.length + 1 then a
  else if remaining ≤ a.remaining then ⟨remaining, earlier ++ [r]⟩
  else a

end Attempts

abbrev Noting (ρ : Type) := StateM (Attempts ρ)

abbrev Walk (ρ : Type) := List Char → Noting ρ (Option (List Char))

/-- Repeats a step after layout, as long as it succeeds. Each character of the first argument allows
one step that succeeds. -/
def walkRepeated (layout : List Char → List Char × List Char) (step : Walk ρ) :
    List Char → Walk ρ
  | [], cs => do
    let _ ← step (layout cs).2
    return some cs
  | _ :: allowance, cs => do
    match ← step (layout cs).2 with
    | some rest => walkRepeated layout step allowance rest
    | none => return some cs

/-- Walks over what a pattern of an open rule matches, given how to visit a rule. A negative
lookahead expects nothing. -/
def walkPattern (g : Rules ρ) (call : Bool → ρ → List Char → Result ρ)
    (visit : ρ → Walk ρ) : Pattern ρ → Walk ρ
  | .rule r, cs => visit r cs
  | .seq p q, cs => do
    match ← walkPattern g call visit p cs with
    | some rest => walkPattern g call visit q (g.layout rest).2
    | none => return none
  | .choice p q, cs => do
    match ← walkPattern g call visit p cs with
    | some rest => return some rest
    | none => walkPattern g call visit q cs
  | .opt p, cs => do
    return (← walkPattern g call visit p cs).or (some cs)
  | .many p, cs => do
    match ← walkPattern g call visit p cs with
    | some rest => walkRepeated g.layout (walkPattern g call visit p) rest rest
    | none => return some cs
  | .ahead p, cs => do
    return (← walkPattern g call visit p cs).map fun _ => cs
  | p, cs => return (matchPattern g call false p cs).rest?

/-- Tries a rule in an open context. Inside an atomic rule nothing is noted. -/
def visitRule (g : Rules ρ) : Nat → ρ → Walk ρ
  | 0, _, _ => return none
  | depth + 1, r, cs => do
    let earlier := (← get).at? cs.length
    let rest ←
      if g.atomic r then pure (matchRule g (depth + 1) false r cs).rest?
      else walkPattern g (matchRule g depth) (visitRule g depth) (g.body r) cs
    if rest.isNone then modify (·.note r cs.length earlier)
    return rest

def attempts (g : Rules ρ) (r : ρ) (cs : List Char) : Attempts ρ :=
  (visitRule g (depthFor cs) r cs ⟨cs.length, []⟩).2

end PbesLab.Grammar
