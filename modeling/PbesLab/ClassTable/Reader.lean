import PbesLab.ClassTable.Basic
import PbesLab.Grammar.Meaning
import PbesLab.Grammar.Report
import PbesLab.Text.Pieces

namespace PbesLab

inductive ClassRule
  | endOfInput
  | identifier
  | row
  | tag
  | description
  | constructor
  | basePostfix
  | parameter
  | constQualifier
  | reference
deriving DecidableEq

namespace ClassRule

def name : ClassRule → String
  | endOfInput => "EOI"
  | identifier => "identifier"
  | row => "row"
  | tag => "tag"
  | description => "description"
  | constructor => "constructor"
  | basePostfix => "base_postfix"
  | parameter => "parameter"
  | constQualifier => "const_qualifier"
  | reference => "reference"

def isNameChar (c : Char) : Bool :=
  c.isAlphanum || c == '_'

def isNameStart (c : Char) : Bool :=
  c.isAlpha || c == '_'

open Grammar (Pattern)

def nameChar : Pattern ClassRule :=
  .oneOf isNameChar

def body : ClassRule → Pattern ClassRule
  | endOfInput => .finish
  | identifier => .oneOf isNameStart >> .many nameChar
  | row =>
    .empty >> .rule tag >> .word "|" >> .rule constructor >> .word "|" >> .rule description >>
      .rule endOfInput
  | tag => .many1 nameChar
  | description => .many (.notAhead .lineEnd >> .oneOf fun _ => true)
  | constructor =>
    .rule identifier >> .opt (.rule basePostfix) >> .word "(" >>
      .opt (.commaList (.rule parameter)) >> .word ")"
  | basePostfix => .word "[" >> .rule identifier >> .word "]"
  | parameter =>
    .opt (.rule constQualifier) >> .rule identifier >> .opt (.rule reference) >> .rule identifier
  | constQualifier => .word "const" >> .notAhead nameChar
  | reference => .word "&"

def atomic : ClassRule → Bool
  | identifier | tag | description | constQualifier => true
  | _ => false

def layout (cs : List Char) : List Char × List Char :=
  cs.span fun c => c = ' ' || c = '\t'

def rules : Grammar.Rules ClassRule :=
  { body, atomic, name, layout, rank := ClassRule.ctorIdx }

end ClassRule

/-- What a node of the tree of a row stands for. -/
inductive RowMeaning
  | nothing
  | name (x : String)
  | tag (x : String)
  | description (text : String)
  | const
  | reference
  | basePostfix (x : String)
  | parameter (p : Parameter)
  | constructor (c : Constructor)
  | row (r : ClassRow)

namespace RowMeaning

def parameter? : RowMeaning → Option Parameter
  | parameter p => some p
  | _ => none

/-- A sort and a name, with or without a reference between them. -/
def parameterOf? (isConst : Bool) : List RowMeaning → Option Parameter
  | [.name s, .name x] | [.name s, .reference, .name x] => some ⟨isConst, s, x⟩
  | _ => none

/-- The meaning of a node from its parts and the meanings of the nodes among them. -/
def ofNode? : ClassRule → List (Grammar.Tree ClassRule) → List RowMeaning → Option RowMeaning
  | .endOfInput, _, _ => some .nothing
  | .identifier, parts, _ => some (.name (String.ofList (Grammar.Tree.textOf parts)))
  | .tag, parts, _ => some (.tag (String.ofList (Grammar.Tree.textOf parts)))
  | .description, parts, _ =>
    some (.description (String.ofList (Text.trim (Grammar.Tree.textOf parts))))
  | .constQualifier, _, _ => some .const
  | .reference, _, _ => some .reference
  | .basePostfix, _, [.name x] => some (.basePostfix x)
  | .parameter, _, .const :: parts => (parameterOf? true parts).map .parameter
  | .parameter, _, parts => (parameterOf? false parts).map .parameter
  | .constructor, _, .name x :: .basePostfix p :: params => do
    return .constructor ⟨x, some p, ← params.mapM parameter?⟩
  | .constructor, _, .name x :: params => do
    return .constructor ⟨x, none, ← params.mapM parameter?⟩
  | .row, _, [.tag t, .constructor c, .description d, .nothing] => some (.row ⟨t, c, d⟩)
  | _, _, _ => none

end RowMeaning

/-- What is wrong with a table. Rows count all lines of the text from 1 on. -/
inductive TableFault
  | malformedRow (table : String) (row : Nat) (report : Grammar.Report)
  | unexpectedNode (rule : ClassRule)
  | duplicateTag (tag table : String)
  | unknownTable (name : String)
deriving DecidableEq

def TableFault.message : TableFault → String
  | malformedRow t n r => "Class Table Error: " ++ t ++ " line " ++ toString n ++ ":\n" ++ r.text
  | unexpectedNode r => "Class Table Error: unexpected rule " ++ r.name
  | duplicateTag g t => "Class Table Error: duplicate tag '" ++ g ++ "' in " ++ t
  | unknownTable x => "Class Table Error: no table named '" ++ x ++ "'"

namespace ClassTable

def rowOfTree (t : Grammar.Tree ClassRule) : Except TableFault ClassRow :=
  match t.meanings RowMeaning.ofNode? with
  | .ok [.row r] => .ok r
  | .ok _ => .error (.unexpectedNode .row)
  | .error r => .error (.unexpectedNode r)

def readRow (table : String) (number : Nat) (line : List Char) : Except TableFault ClassRow :=
  match Grammar.read? ClassRule.rules .row line with
  | some t => rowOfTree t
  | none => .error (.malformedRow table number (Grammar.report ClassRule.rules .row line))

/-- The rows of lines with their numbers; blank lines have none. -/
def readRows (table : String) : Nat → List (List Char) → Except TableFault (List ClassRow)
  | _, [] => .ok []
  | n, l :: ls =>
    if (Text.trim l).isEmpty then readRows table (n + 1) ls
    else do
      let r ← readRow table n (Text.trim l)
      return r :: (← readRows table (n + 1) ls)

def read (name text : String) : Except TableFault ClassTable := do
  return ⟨name, ← readRows name 1 (Text.lines text.toList)⟩

def check (t : ClassTable) : Except TableFault Unit :=
  match Text.firstRepeat? (t.rows.map ClassRow.tag) with
  | some tag => .error (.duplicateTag tag t.name)
  | none => .ok ()

end ClassTable

end PbesLab
