import PbesLab.Grammar.Report

namespace PbesLab

/-- The rules that appear in trees and in lists of expectations. -/
inductive SystemRule
  | endOfInput
  | keyword
  | identifier
  | system
  | equation
  | init
  | fixpoint
  | mu
  | nu
  | varDecl
  | sort
  | boolSort
  | natSort
  | inst
  | expr
  | implication
  | disjunction
  | conjunction
  | negation
  | quantifier
  | all
  | ex
  | trueLit
  | falseLit
  | val
  | dataExpr
  | compareOp
  | equal
  | less
  | greater
  | dataSum
  | number
deriving DecidableEq

namespace SystemRule

def name : SystemRule → String
  | endOfInput => "EOI"
  | keyword => "keyword"
  | identifier => "identifier"
  | system => "system"
  | equation => "equation"
  | init => "init"
  | fixpoint => "fixpoint"
  | mu => "mu"
  | nu => "nu"
  | varDecl => "var_decl"
  | sort => "sort"
  | boolSort => "bool_sort"
  | natSort => "nat_sort"
  | inst => "instance"
  | expr => "expr"
  | implication => "implication"
  | disjunction => "disjunction"
  | conjunction => "conjunction"
  | negation => "negation"
  | quantifier => "quantifier"
  | all => "forall"
  | ex => "exists"
  | trueLit => "true_lit"
  | falseLit => "false_lit"
  | val => "val"
  | dataExpr => "data_expr"
  | compareOp => "compare_op"
  | equal => "equal"
  | less => "less"
  | greater => "greater"
  | dataSum => "data_sum"
  | number => "number"

def keywords : List String :=
  ["pbes", "init", "mu", "nu", "true", "false", "val", "forall", "exists", "Bool", "Nat"]

def isNameChar (c : Char) : Bool :=
  c.isAlphanum || c == '_' || c == '\''

def isNameStart (c : Char) : Bool :=
  c.isAlpha || c == '_'

open Grammar (Pattern)

def nameChar : Pattern SystemRule :=
  .oneOf isNameChar

/-- A word that no name character follows. -/
def wholeWord (text : String) : Pattern SystemRule :=
  .word text >> .notAhead nameChar

/-- A keyword where any keyword could stand. -/
def keywordIs (text : String) : Pattern SystemRule :=
  .ahead (.rule keyword) >> .word text

def anyKeyword : List String → Pattern SystemRule
  | [] => .word ""
  | [w] => .word w
  | w :: ws => .word w <|> anyKeyword ws

def parenthesised (body : Pattern SystemRule) : Pattern SystemRule :=
  .word "(" >> body >> .word ")"

def primary : Pattern SystemRule :=
  .rule trueLit <|> .rule falseLit <|> .rule val <|> .rule inst <|> parenthesised (.rule expr)

def unary : Pattern SystemRule :=
  .rule quantifier <|> .rule negation <|> primary

def dataPrimary : Pattern SystemRule :=
  .rule number <|> .rule trueLit <|> .rule falseLit <|> .rule identifier <|>
    parenthesised (.rule dataExpr)

def body : SystemRule → Pattern SystemRule
  | endOfInput => .finish
  | keyword => anyKeyword keywords >> .notAhead nameChar
  | identifier => .notAhead (.rule keyword) >> .oneOf isNameStart >> .many nameChar
  | system =>
    .empty >> keywordIs "pbes" >> .many1 (.rule equation) >> .rule init >> .rule endOfInput
  | equation =>
    .rule fixpoint >> .rule identifier >> .opt (parenthesised (.commaList (.rule varDecl))) >>
      .word "=" >> .rule expr >> .word ";"
  | init => keywordIs "init" >> .rule inst >> .word ";"
  | fixpoint => .rule mu <|> .rule nu
  | mu => wholeWord "mu"
  | nu => wholeWord "nu"
  | varDecl => .rule identifier >> .word ":" >> .rule sort
  | sort => .rule boolSort <|> .rule natSort
  | boolSort => .word "Bool"
  | natSort => .word "Nat"
  | inst => .rule identifier >> .opt (parenthesised (.commaList (.rule dataExpr)))
  | expr => .rule implication
  | implication => .rule disjunction >> .opt (.word "=>" >> .rule implication)
  | disjunction => .rule conjunction >> .many (.word "||" >> .rule conjunction)
  | conjunction => unary >> .many (.word "&&" >> unary)
  | negation => .word "!" >> unary
  | quantifier => (.rule all <|> .rule ex) >> .rule varDecl >> .word "." >> .rule expr
  | all => wholeWord "forall"
  | ex => wholeWord "exists"
  | trueLit => wholeWord "true"
  | falseLit => wholeWord "false"
  | val => .word "val" >> parenthesised (.rule dataExpr)
  | dataExpr => .rule dataSum >> .opt (.rule compareOp >> .rule dataSum)
  | compareOp => .rule equal <|> .rule less <|> .rule greater
  | equal => .word "=="
  | less => .word "<"
  | greater => .word ">"
  | dataSum => dataPrimary >> .many (.word "+" >> dataPrimary)
  | number => .many1 (.oneOf Char.isDigit)

def atomic : SystemRule → Bool
  | keyword | identifier | mu | nu | all | ex | trueLit | falseLit | number => true
  | _ => false

/-- Blanks, tabs, line ends, and comments up to the end of a line. -/
def layout : List Char → List Char × List Char
  | [] => ([], [])
  | c :: cs =>
    if c = ' ' ∨ c = '\t' ∨ c = '\n' ∨ c = '\r' then
      let (skipped, rest) := layout cs
      (c :: skipped, rest)
    else if c = '%' then
      let (skipped, rest) := comment cs
      (c :: skipped, rest)
    else ([], c :: cs)
where
  /-- The rest of a comment and the layout after it. -/
  comment : List Char → List Char × List Char
    | [] => ([], [])
    | c :: cs =>
      let (skipped, rest) := if c = '\n' ∨ c = '\r' then layout cs else comment cs
      (c :: skipped, rest)

def rules : Grammar.Rules SystemRule :=
  { body, atomic, name, layout, rank := SystemRule.ctorIdx }

end SystemRule

end PbesLab
