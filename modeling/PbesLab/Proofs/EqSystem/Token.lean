import PbesLab.EqSystem.Reader
import PbesLab.Proofs.EqSystem.Layout
import Mathlib.Data.List.Basic

namespace PbesLab

open SystemRule (isNameChar isNameStart keywords Layout skip)

inductive Keyword
  | pbes
  | init
  | mu
  | nu
  | true
  | false
  | val
  | all
  | ex
  | bool
  | nat
deriving DecidableEq

def Keyword.text : Keyword → String
  | pbes => "pbes"
  | init => "init"
  | mu => "mu"
  | nu => "nu"
  | true => "true"
  | false => "false"
  | val => "val"
  | all => "forall"
  | ex => "exists"
  | bool => "Bool"
  | nat => "Nat"

inductive Mark
  | opening
  | closing
  | comma
  | colon
  | semicolon
  | dot
  | equals
  | arrow
  | or
  | and
  | not
  | equal
  | less
  | greater
  | plus
deriving DecidableEq

def Mark.text : Mark → String
  | opening => "("
  | closing => ")"
  | comma => ","
  | colon => ":"
  | semicolon => ";"
  | dot => "."
  | equals => "="
  | arrow => "=>"
  | or => "||"
  | and => "&&"
  | not => "!"
  | equal => "=="
  | less => "<"
  | greater => ">"
  | plus => "+"

def Mark.list : List Mark :=
  [opening, closing, comma, colon, semicolon, dot, equals, arrow, or, and, not, equal, less,
    greater, plus]

theorem Mark.mem_list (m : Mark) : m ∈ list := by
  cases m <;> decide

/-- A letter or an underscore, then letters, digits, underscores and apostrophes, but no keyword. -/
def isLegalName (x : String) : Bool :=
  match x.toList with
  | c :: cs => isNameStart c && cs.all isNameChar && x ∉ keywords
  | [] => false

abbrev LegalName := { x : String // isLegalName x }

abbrev Numeral := { digits : List Char // digits ≠ [] ∧ ∀ c ∈ digits, c.isDigit }

inductive Token
  | keyword (k : Keyword)
  | name (x : LegalName)
  | number (n : Numeral)
  | mark (m : Mark)

namespace Token

def chars : Token → List Char
  | keyword k => k.text.toList
  | name x => x.val.toList
  | number n => n.val
  | mark m => m.text.toList

/-- Keywords, names and numbers have to be kept apart. -/
def isWord : Token → Bool
  | mark _ => false
  | _ => true

/-- Keywords and marks have one spelling. -/
def isFixed : Token → Bool
  | keyword _ | mark _ => true
  | _ => false

/-- A number is read only if it fits into 32 bits. -/
def fits : Token → Bool
  | number n => Nat.ofDigitChars 10 n.val 0 < UInt32.size
  | _ => true

def fixedTokens : List Token :=
  [Keyword.pbes, .init, .mu, .nu, .true, .false, .val, .all, .ex, .bool, .nat].map keyword ++
    Mark.list.map mark

theorem find_fixedTokens {t : Token} (h : t.isFixed) :
    fixedTokens.find? (fun u => u.chars = t.chars) = some t := by
  cases t with
  | keyword k => cases k <;> rfl
  | mark m => cases m <;> rfl
  | name | number => cases h

theorem eq_of_chars_eq {t u : Token} (ht : t.isFixed) (hu : u.isFixed) (h : t.chars = u.chars) :
    t = u := by
  have hfind := find_fixedTokens ht
  rw [h, find_fixedTokens hu] at hfind
  exact (Option.some.inj hfind).symm

end Token

def Numeral.value (n : Numeral) : UInt32 :=
  UInt32.ofNat (Nat.ofDigitChars 10 n.val 0)

/-- A text that starts with layout and goes on with tokens, with layout after each. Between two
words there is some. -/
inductive Spells : List Token → List Char → List Char → Prop
  | nil {gap} (h : Layout gap []) : Spells [] gap []
  | cons {t ts gap next body} (before : Layout gap (t.chars ++ next ++ body))
      (after : Spells ts next body)
      (apart : t.isWord → ∀ u ∈ ts.head?, u.isWord → next ≠ []) :
      Spells (t :: ts) gap (t.chars ++ next ++ body)

/-- The text is these tokens with layout before, between and after them. -/
def IsSpelled (ts : List Token) (cs : List Char) : Prop :=
  ∃ gap body, cs = gap ++ body ∧ Spells ts gap body

end PbesLab
