import PbesLab.Grammar.Span
import PbesLab.Text.Quoted

namespace PbesLab.Grammar.Tree

variable {ρ : Type}

def indentation (depth : Nat) : String :=
  String.ofList (List.replicate (4 * depth) ' ')

def outlineHead (name : String) (text : List Char) (depth start stop : Nat) :
    String :=
  let line (d : Nat) (t : String) : String := indentation (depth + d) ++ t ++ "\n"
  line 0 "Pair \x7b" ++
    line 1 ("rule: " ++ name ++ ",") ++
    line 1 "span: Span \x7b" ++
    line 2 ("str: " ++ Text.quoted text ++ ",") ++
    line 2 ("range: " ++ toString start ++ ".." ++ toString stop ++ ",") ++
    line 1 "\x7d,"

mutual

/-- The lines of a node that starts at a byte; the last line is left open. -/
def outline (name : ρ → String) (depth start : Nat) : Tree ρ → String
  | leaf _ => ""
  | node r parts =>
    let inner := outlineOf name (depth + 2) start parts
    outlineHead (name r) (textOf parts) depth start (start + byteLengthOf parts) ++
      indentation (depth + 1) ++
      (if inner = "" then "inner: [],\n"
        else "inner: [\n" ++ inner ++ indentation (depth + 1) ++ "],\n") ++
      indentation depth ++ "\x7d"

def outlineOf (name : ρ → String) (depth start : Nat) : List (Tree ρ) → String
  | [] => ""
  | t :: ts =>
    let own := outline name depth start t
    (if own = "" then "" else own ++ ",\n") ++
      outlineOf name depth (start + t.byteLength) ts

end

end PbesLab.Grammar.Tree
