import PbesLab.Proofs.EqSystem.Token

namespace PbesLab

def boolKeyword (b : Bool) : Keyword :=
  if b then .true else .false

def DataSort.keyword : DataSort → Keyword
  | bool => .bool
  | nat => .nat

def DataOp.mark : DataOp → Mark
  | plus => .plus
  | less => .less
  | greater => .greater
  | equal => .equal

def Connective.mark : Connective → Mark
  | and => .and
  | or => .or
  | imp => .arrow

def Quantifier.keyword : Quantifier → Keyword
  | all => .all
  | ex => .ex

def Fixpoint.keyword : Fixpoint → Keyword
  | mu => .mu
  | nu => .nu

inductive Separated {α : Type} (sep : Mark) (item : List Token → α → Prop) :
    List Token → List α → Prop
  | one {ts x} (h : item ts x) : Separated sep item ts [x]
  | cons {ts us x xs} (h : item ts x) (more : Separated sep item us xs) :
      Separated sep item (ts ++ .mark sep :: us) (x :: xs)

inductive Listed {α : Type} (item : List Token → α → Prop) : List Token → List α → Prop
  | none : Listed item [] []
  | some {ts xs} (h : Separated .comma item ts xs) :
      Listed item (.mark .opening :: (ts ++ [.mark .closing])) xs

inductive Joined {α : Type} (item : List Token → α → Prop) : List Token → List α → Prop
  | nil : Joined item [] []
  | cons {ts us x xs} (h : item ts x) (more : Joined item us xs) :
      Joined item (ts ++ us) (x :: xs)

inductive SpellsDecl : List Token → VarDecl → Prop
  | decl (x : LegalName) (s : DataSort) :
      SpellsDecl [.name x, .mark .colon, .keyword s.keyword] ⟨x, s⟩

inductive DataLevel
  | operand
  | sum
  | comparison

inductive SpellsData : DataLevel → List Token → DataExpr → Prop
  | var (x : LegalName) : SpellsData .operand [.name x] (.var x)
  | nat (n : Numeral) : SpellsData .operand [.number n] (.nat n.value)
  | bool (b : Bool) : SpellsData .operand [.keyword (boolKeyword b)] (.bool b)
  | group {ts d} (h : SpellsData .comparison ts d) :
      SpellsData .operand (.mark .opening :: (ts ++ [.mark .closing])) d
  | sum {ts d} (h : SpellsData .operand ts d) : SpellsData .sum ts d
  | plus {ts us l r} (hl : SpellsData .sum ts l) (hr : SpellsData .operand us r) :
      SpellsData .sum (ts ++ .mark .plus :: us) (.binary .plus l r)
  | comparison {ts d} (h : SpellsData .sum ts d) : SpellsData .comparison ts d
  | compare {op ts us l r} (hop : op ≠ .plus) (hl : SpellsData .sum ts l)
      (hr : SpellsData .sum us r) :
      SpellsData .comparison (ts ++ .mark op.mark :: us) (.binary op l r)

inductive SpellsInstance : List Token → Instance → Prop
  | inst (x : LegalName) {ts args} (h : Listed (SpellsData .comparison) ts args) :
      SpellsInstance (.name x :: ts) ⟨x, args⟩

inductive FormulaLevel
  | operand
  | conjunction
  | disjunction
  | implication

/-- `=>` binds loosest and associates to the right, then `||` and `&&`, which associate to the left,
then `!`. What a quantifier binds reaches as far as it can: the flag tells a formula that ends in
the body of a quantifier, which no operator follows, since the body would reach over it. -/
inductive SpellsFormula : FormulaLevel → Bool → List Token → Formula → Prop
  | const (b : Bool) : SpellsFormula .operand false [.keyword (boolKeyword b)] (.const b)
  | val {ts d} (h : SpellsData .comparison ts d) : SpellsFormula .operand false
      (.keyword .val :: .mark .opening :: (ts ++ [.mark .closing])) (.val d)
  | inst {ts i} (h : SpellsInstance ts i) : SpellsFormula .operand false ts (.inst i)
  | group {o ts f} (h : SpellsFormula .implication o ts f) :
      SpellsFormula .operand false (.mark .opening :: (ts ++ [.mark .closing])) f
  | neg {o ts f} (h : SpellsFormula .operand o ts f) :
      SpellsFormula .operand o (.mark .not :: ts) (.neg f)
  | quant {q us v o ts f} (hv : SpellsDecl us v) (h : SpellsFormula .implication o ts f) :
      SpellsFormula .operand true (.keyword q.keyword :: (us ++ .mark .dot :: ts)) (.quant q v f)
  | conjunction {o ts f} (h : SpellsFormula .operand o ts f) : SpellsFormula .conjunction o ts f
  | and {o ts us l r} (hl : SpellsFormula .conjunction false ts l)
      (hr : SpellsFormula .operand o us r) :
      SpellsFormula .conjunction o (ts ++ .mark .and :: us) (.bin .and l r)
  | disjunction {o ts f} (h : SpellsFormula .conjunction o ts f) :
      SpellsFormula .disjunction o ts f
  | or {o ts us l r} (hl : SpellsFormula .disjunction false ts l)
      (hr : SpellsFormula .conjunction o us r) :
      SpellsFormula .disjunction o (ts ++ .mark .or :: us) (.bin .or l r)
  | implication {o ts f} (h : SpellsFormula .disjunction o ts f) :
      SpellsFormula .implication o ts f
  | imp {o ts us l r} (hl : SpellsFormula .disjunction false ts l)
      (hr : SpellsFormula .implication o us r) :
      SpellsFormula .implication o (ts ++ .mark .arrow :: us) (.bin .imp l r)

inductive SpellsEquation : List Token → Equation → Prop
  | equation (fix : Fixpoint) (x : LegalName) {us params o ts f} (hp : Listed SpellsDecl us params)
      (h : SpellsFormula .implication o ts f) :
      SpellsEquation (.keyword fix.keyword :: .name x ::
        (us ++ .mark .equals :: (ts ++ [.mark .semicolon]))) ⟨fix, x, params, f⟩

inductive SpellsSystem : List Token → EqSystem → Prop
  | system {us equations ts i} (he : Joined SpellsEquation us equations) (hne : equations ≠ [])
      (h : SpellsInstance ts i) :
      SpellsSystem (.keyword .pbes :: (us ++ .keyword .init :: (ts ++ [.mark .semicolon])))
        ⟨equations, i⟩

end PbesLab
