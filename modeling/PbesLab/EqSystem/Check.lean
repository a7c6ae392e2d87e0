import PbesLab.EqSystem.Basic
import PbesLab.Text.Order

namespace PbesLab

inductive Fault
  | duplicateEquation (name : String)
  | duplicateParameter (param equation : String)
  | inEquation (name : String) (cause : Fault)
  | inInit (cause : Fault)
  | freeVariable (name : String)
  | undeclared (name : String)
  | arity (name : String) (expected actual : Nat)
  | argumentSort (arg : DataExpr) (name : String) (actual expected : DataSort)
  | operandSort (expected : DataSort) (operand : DataExpr) (actual : DataSort)
  | notBoolean (data : DataExpr) (actual : DataSort)
deriving DecidableEq

/-- The wording; a nested fault is worded in full inside the outer one. -/
def Fault.message : Fault → String
  | duplicateEquation x => "Malformed PBES: duplicate equation for '" ++ x ++ "'"
  | duplicateParameter p x => "Malformed PBES: duplicate parameter '" ++ p ++ "' of '" ++ x ++ "'"
  | inEquation x f => "Malformed PBES: in equation '" ++ x ++ "': " ++ f.message
  | inInit f => "Malformed PBES: in init: " ++ f.message
  | freeVariable x => "Malformed PBES: free variable '" ++ x ++ "'"
  | undeclared x => "Malformed PBES: undeclared propositional variable '" ++ x ++ "'"
  | arity x m n =>
    "Malformed PBES: '" ++ x ++ "' expects " ++ toString m ++ " arguments, got " ++ toString n
  | argumentSort d x s t =>
    "Malformed PBES: argument '" ++ d.text ++ "' of '" ++ x ++ "' has sort " ++ s.text ++
      ", expected " ++ t.text
  | operandSort s d t =>
    "Malformed PBES: expected " ++ s.text ++ " but '" ++ d.text ++ "' has sort " ++ t.text
  | notBoolean d s =>
    "Malformed PBES: '" ++ d.text ++ "' has sort " ++ s.text ++ " in boolean context"

/-- The declarations in sight, the innermost first. -/
abbrev Scope := List VarDecl

def Scope.sort? (scope : Scope) (x : String) : Option DataSort :=
  (scope.find? (·.name = x)).map VarDecl.sort

abbrev Signatures := List (String × List DataSort)

namespace DataExpr

/-- Fails on a free variable or an operand of the wrong sort. -/
def sort (scope : Scope) : DataExpr → Except Fault DataSort
  | var x => match scope.sort? x with
    | some s => .ok s
    | none => .error (.freeVariable x)
  | nat _ => .ok .nat
  | bool _ => .ok .bool
  | binary op l r => do
    let s ← l.sort scope
    let expected := if op = .equal then s else .nat
    if s ≠ expected then throw (.operandSort expected l s)
    let t ← r.sort scope
    if t ≠ expected then throw (.operandSort expected r t)
    return if op = .plus then .nat else .bool

end DataExpr

def checkArguments (scope : Scope) (name : String) :
    List DataExpr → List DataSort → Except Fault Unit
  | d :: ds, expected :: sorts => do
    let actual ← d.sort scope
    if actual ≠ expected then throw (.argumentSort d name actual expected)
    checkArguments scope name ds sorts
  | _, _ => .ok ()

def Instance.check (sigs : Signatures) (scope : Scope) (i : Instance) : Except Fault Unit :=
  match sigs.lookup i.name with
  | none => .error (.undeclared i.name)
  | some sorts =>
    if sorts.length ≠ i.args.length then .error (.arity i.name sorts.length i.args.length)
    else checkArguments scope i.name i.args sorts

/-- A quantifier hides an outer declaration of the same name. -/
def Formula.check (sigs : Signatures) (scope : Scope) : Formula → Except Fault Unit
  | const _ => .ok ()
  | val d => do
    let s ← d.sort scope
    if s ≠ .bool then throw (.notBoolean d s)
  | inst i => i.check sigs scope
  | neg f => f.check sigs scope
  | bin _ l r => do
    l.check sigs scope
    r.check sigs scope
  | quant _ v f => f.check sigs (v :: scope)

def Equation.check (sigs : Signatures) (e : Equation) : Except Fault Unit :=
  match Text.firstRepeat? (e.params.map VarDecl.name) with
  | some p => .error (.duplicateParameter p e.name)
  | none => (e.rhs.check sigs e.params).mapError (.inEquation e.name)

namespace EqSystem

def signatures (s : EqSystem) : Signatures :=
  s.equations.map fun e => (e.name, e.signature)

def check (s : EqSystem) : Except Fault Unit :=
  match Text.firstRepeat? (s.equations.map Equation.name) with
  | some x => .error (.duplicateEquation x)
  | none => do
    s.equations.forM (Equation.check s.signatures)
    (s.init.check s.signatures []).mapError .inInit

end EqSystem

end PbesLab
