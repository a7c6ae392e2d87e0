import PbesLab.Grammar.Pattern
import PbesLab.Grammar.Tree

namespace PbesLab.Grammar

/-- `starved` means that rules were nested deeper than allowed: neither match nor failure. -/
inductive Result (ρ : Type) : Type
  | starved
  | failed
  | matched (parts : List (Tree ρ)) (rest : List Char)

namespace Result

variable {ρ : Type}

def andThen : Result ρ → (List (Tree ρ) → List Char → Result ρ) → Result ρ
  | matched parts rest, k => k parts rest
  | r, _ => r

def rest? : Result ρ → Option (List Char)
  | matched _ rest => some rest
  | _ => none

def prepend (before : List (Tree ρ)) : Result ρ → Result ρ
  | matched parts rest => matched (before ++ parts) rest
  | r => r

end Result

def dropText? : List Char → List Char → Option (List Char)
  | [], cs => some cs
  | t :: ts, c :: cs => if t = c then dropText? ts cs else none
  | _ :: _, [] => none

variable {ρ : Type}

/-- The layout between two parts; an atomic context has none. -/
def gap (g : Rules ρ) (atomic : Bool) (cs : List Char) : List Char × List Char :=
  if atomic then ([], cs) else g.layout cs

/-- Repeats a step with gaps before it. A step that fails gives its gap back. Each character of the
first argument allows one step. -/
def repeatStep (between : List Char → List Char × List Char) (step : List Char → Result ρ) :
    List Char → List Char → Result ρ
  | [], cs => .matched [] cs
  | _ :: allowance, cs =>
    let (skipped, start) := between cs
    match step start with
    | .starved => .starved
    | .failed => .matched [] cs
    | .matched parts rest =>
      (repeatStep between step allowance rest).prepend (Tree.leaves skipped ++ parts)

/-- Matches a pattern, given what the rules match. The flag tells an atomic context. -/
def matchPattern (g : Rules ρ) (call : Bool → ρ → List Char → Result ρ) (atomic : Bool) :
    Pattern ρ → List Char → Result ρ
  | .empty, cs => .matched [] cs
  | .finish, cs => if cs.isEmpty then .matched [] cs else .failed
  | .literal t, cs => match dropText? t cs with
    | some rest => .matched (Tree.leaves t) rest
    | none => .failed
  | .oneOf test, c :: cs => if test c then .matched [.leaf c] cs else .failed
  | .oneOf _, [] => .failed
  | .lineEnd, '\n' :: cs => .matched (Tree.leaves ['\n']) cs
  | .lineEnd, '\r' :: '\n' :: cs => .matched (Tree.leaves ['\r', '\n']) cs
  | .lineEnd, '\r' :: cs => .matched (Tree.leaves ['\r']) cs
  | .lineEnd, _ => .failed
  | .rule r, cs => call atomic r cs
  | .seq a b, cs => (matchPattern g call atomic a cs).andThen fun parts rest =>
    let (skipped, start) := gap g atomic rest
    (matchPattern g call atomic b start).prepend (parts ++ Tree.leaves skipped)
  | .choice a b, cs => match matchPattern g call atomic a cs with
    | .failed => matchPattern g call atomic b cs
    | r => r
  | .opt a, cs => match matchPattern g call atomic a cs with
    | .failed => .matched [] cs
    | r => r
  | .many a, cs => match matchPattern g call atomic a cs with
    | .failed => .matched [] cs
    | r => r.andThen fun parts rest =>
      (repeatStep (gap g atomic) (matchPattern g call atomic a) rest rest).prepend parts
  | .ahead a, cs => (matchPattern g call atomic a cs).andThen fun _ _ => .matched [] cs
  | .notAhead a, cs => match matchPattern g call atomic a cs with
    | .starved => .starved
    | .failed => .matched [] cs
    | .matched .. => .failed

/-- Matches a rule with at most `depth` rules inside one another. A rule used in an atomic context
leaves no node. -/
def matchRule (g : Rules ρ) : Nat → Bool → ρ → List Char → Result ρ
  | 0, _, _, _ => .starved
  | depth + 1, atomic, r, cs =>
    (matchPattern g (matchRule g depth) (atomic || g.atomic r) (g.body r) cs).andThen
      fun parts rest =>
        .matched (if atomic then Tree.leaves (Tree.textOf parts) else [.node r parts]) rest

/-- The rules that may be open at once while no character is read. -/
def depthPerCharacter : Nat := 64

/-- A depth that no reading of the text exceeds, as long as no rule leads back to itself without
reading a character. -/
def depthFor (cs : List Char) : Nat :=
  depthPerCharacter * (cs.length + 1)

def read? (g : Rules ρ) (r : ρ) (cs : List Char) : Option (Tree ρ) :=
  match matchRule g (depthFor cs) false r cs with
  | .matched (t :: _) _ => some t
  | _ => none

end PbesLab.Grammar
