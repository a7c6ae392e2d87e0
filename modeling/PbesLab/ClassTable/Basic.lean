import PbesLab.Text.LowerCase
import PbesLab.Text.Cut
import PbesLab.Text.Order

namespace PbesLab

structure Parameter where
  isConst : Bool
  sort : String
  name : String
deriving DecidableEq

structure Constructor where
  name : String
  /-- What is appended to the name to get that of the class, such as `_base`. -/
  base : Option String
  params : List Parameter
deriving DecidableEq

structure ClassRow where
  tag : String
  constructor : Constructor
  description : String
deriving DecidableEq

structure ClassTable where
  name : String
  rows : List ClassRow
deriving DecidableEq

namespace Parameter

/-- For a list, the sort of its elements. -/
def elementSort (p : Parameter) : String :=
  Text.withoutEnding "_list" p.sort

def text (p : Parameter) : String :=
  (if p.isConst then "const " else "") ++ p.sort ++ "& " ++ p.name

end Parameter

namespace Constructor

def className (c : Constructor) : String :=
  c.name ++ c.base.getD ""

/-- Traversals keep the name without the postfix. -/
def traversalName (c : Constructor) : String :=
  c.name

def text (c : Constructor) : String :=
  c.name ++ (match c.base with | some p => "[" ++ p ++ "]" | none => "") ++
    "(" ++ ", ".intercalate (c.params.map Parameter.text) ++ ")"

end Constructor

namespace ClassRow

def arity (r : ClassRow) : Nat :=
  r.constructor.params.length

/-- A row with its tag filled up to a width. -/
def textPadded (width : Nat) (r : ClassRow) : String :=
  Text.padded width r.tag ++ " | " ++ r.constructor.text ++ " | " ++ r.description

def text (r : ClassRow) : String :=
  r.textPadded 0

end ClassRow

namespace ClassTable

def tagWidth (t : ClassTable) : Nat :=
  (t.rows.map (·.tag.length)).foldl max 0

def text (t : ClassTable) : String :=
  String.join (t.rows.map fun r => r.textPadded t.tagWidth ++ "\n")

/-- Tag, class name, traversal name and arity of each row. -/
def listing (t : ClassTable) : String :=
  String.join (t.rows.map fun r =>
    Text.padded t.tagWidth r.tag ++ " " ++ r.constructor.className ++ " " ++
      r.constructor.traversalName ++ " " ++ toString r.arity ++ "\n")

/-- The sort that a table defines, from its name. -/
def sortName (t : ClassTable) : String :=
  Text.lower (Text.withoutEnding "_CLASSES" t.name)

/-- The element sorts of parameters that none of the tables defines, in order. -/
def unresolvedSorts (tables : List ClassTable) : List String :=
  let defined := tables.map sortName
  let used := tables.flatMap fun t => t.rows.flatMap fun r =>
    r.constructor.params.map Parameter.elementSort
  Text.sortedSet (used.filter (· ∉ defined))

end ClassTable

end PbesLab
