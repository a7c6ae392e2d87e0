import PbesLab.Proofs.EqSystem.Spelling

namespace PbesLab

open Grammar (Pattern)
open SystemRule (keywordOf?)

/-- The rules that a single token stands for. -/
def Token.standsFor (r : SystemRule) : Token → Bool
  | keyword k => keywordOf? r = some k
  | name _ => r = .identifier
  | number _ => r = .number
  | mark _ => false

/-- The tokens that a pattern derives. Which of two choices was tried first, how often a repetition
could go on and what a lookahead saw do not matter. -/
inductive Derives : Pattern SystemRule → List Token → Prop
  | empty : Derives .empty []
  | finish : Derives .finish []
  | literal {t} (ht : t.isFixed) : Derives (.literal t.chars) [t]
  | token {r t} (ht : t.standsFor r) : Derives (.rule r) [t]
  | rule {r ts} (hr : r.atomic = false) (h : Derives r.body ts) : Derives (.rule r) ts
  | seq {p q ts us} (hp : Derives p ts) (hq : Derives q us) : Derives (.seq p q) (ts ++ us)
  | choiceLeft {p q ts} (h : Derives p ts) : Derives (.choice p q) ts
  | choiceRight {p q ts} (h : Derives q ts) : Derives (.choice p q) ts
  | optNone {p} : Derives (.opt p) []
  | optSome {p ts} (h : Derives p ts) : Derives (.opt p) ts
  | manyNil {p} : Derives (.many p) []
  | manyCons {p ts us} (h : Derives p ts) (more : Derives (.many p) us) :
      Derives (.many p) (ts ++ us)
  | ahead {p} : Derives (.ahead p) []

/-- The tokens of a pattern, given those of each rule. -/
def Reading (G : SystemRule → List Token → Prop) : Pattern SystemRule → List Token → Prop
  | .empty, ts | .finish, ts | .ahead _, ts => ts = []
  | .literal s, ts => ∃ t : Token, t.isFixed ∧ t.chars = s ∧ ts = [t]
  | .rule r, ts => G r ts
  | .seq p q, ts => ∃ us vs, Reading G p us ∧ Reading G q vs ∧ ts = us ++ vs
  | .choice p q, ts => Reading G p ts ∨ Reading G q ts
  | .opt p, ts => ts = [] ∨ Reading G p ts
  | .many p, ts => ∃ tss : List (List Token), (∀ us ∈ tss, Reading G p us) ∧ ts = tss.flatten
  | _, _ => False

/-- What holds of single tokens and passes from the body of a rule to the rule holds of all that
rules derive. -/
theorem Derives.reading {G : SystemRule → List Token → Prop}
    (token : ∀ r t, t.standsFor r → G r [t])
    (rule : ∀ r ts, r.atomic = false → Reading G r.body ts → G r ts)
    {p : Pattern SystemRule} {ts : List Token} (h : Derives p ts) : Reading G p ts := by
  induction h with
  | empty | finish | ahead => exact rfl
  | literal ht => exact ⟨_, ht, rfl, rfl⟩
  | token ht => exact token _ _ ht
  | rule hr _ ih => exact rule _ _ hr ih
  | seq _ _ ihp ihq => exact ⟨_, _, ihp, ihq, rfl⟩
  | choiceLeft _ ih => exact .inl ih
  | choiceRight _ ih => exact .inr ih
  | optNone => exact .inl rfl
  | optSome _ ih => exact .inr ih
  | manyNil => exact ⟨[], by simp, rfl⟩
  | @manyCons p ts us _ _ ih ihmore =>
    obtain ⟨tss, htss, rfl⟩ := ihmore
    refine ⟨ts :: tss, ?_, rfl⟩
    intro vs hvs
    obtain rfl | hvs := List.mem_cons.mp hvs
    · exact ih
    · exact htss vs hvs

/-- Words that the grammar takes without a look at what follows them. -/
def Token.isBlunt : Token → Bool
  | number _ | keyword .val | keyword .bool | keyword .nat => true
  | _ => false

def bluntTexts : List (List Char) :=
  [Keyword.val, .bool, .nat].map fun k => k.text.toList

namespace SystemRule

def startsWithWord (r : SystemRule) : Bool :=
  r ∉ [endOfInput, negation, compareOp, equal, less, greater]

def endsBlunt (r : SystemRule) : Bool :=
  r ∈ [number, sort, boolSort, natSort, varDecl, dataSum, dataExpr]

def mayBeEmpty : Pattern SystemRule → Bool
  | .rule r => r = endOfInput
  | .literal _ => false
  | .seq p q => mayBeEmpty p && mayBeEmpty q
  | .choice p q => mayBeEmpty p || mayBeEmpty q
  | _ => true

def mayStartWithWord : Pattern SystemRule → Bool
  | .rule r => r.startsWithWord
  | .literal s => s.all isNameChar
  | .seq p q => mayStartWithWord p || mayBeEmpty p && mayStartWithWord q
  | .choice p q => mayStartWithWord p || mayStartWithWord q
  | .opt p | .many p => mayStartWithWord p
  | _ => false

def mayEndBlunt : Pattern SystemRule → Bool
  | .rule r => r.endsBlunt
  | .literal s => bluntTexts.any (· = s)
  | .seq p q => mayEndBlunt q || mayBeEmpty q && mayEndBlunt p
  | .choice p q => mayEndBlunt p || mayEndBlunt q
  | .opt p | .many p => mayEndBlunt p
  | _ => false

/-- No part that may start with a word follows one that may end in a blunt word. -/
def keepsApart : Pattern SystemRule → Bool
  | .seq p q => keepsApart p && keepsApart q && !(mayEndBlunt p && mayStartWithWord q)
  | .choice p q => keepsApart p && keepsApart q
  | .opt p => keepsApart p
  | .many p => keepsApart p && !(mayEndBlunt p && mayStartWithWord p)
  | _ => true

theorem mayBeEmpty_body (r : SystemRule) (h : mayBeEmpty r.body) (hr : r.atomic = false) :
    r = endOfInput := by
  cases r <;> revert h hr <;> decide

theorem startsWithWord_of_body (r : SystemRule) (h : mayStartWithWord r.body) :
    r.startsWithWord := by
  cases r <;> revert h <;> decide

theorem endsBlunt_of_body (r : SystemRule) (h : mayEndBlunt r.body) (hr : r.atomic = false) :
    r.endsBlunt := by
  cases r <;> revert h hr <;> decide

theorem keepsApart_body (r : SystemRule) : keepsApart r.body := by
  cases r <;> decide

theorem startsWithWord_of_standsFor {r : SystemRule} {t : Token} (h : t.standsFor r) :
    r.startsWithWord := by
  cases r <;> cases t <;> first | rfl | cases h

theorem endsBlunt_of_standsFor {r : SystemRule} {t : Token} (h : t.standsFor r) (ht : t.isBlunt) :
    r.endsBlunt := by
  cases t with
  | number n =>
    obtain rfl : r = number := by simpa [Token.standsFor] using h
    rfl
  | keyword k =>
    have hk : keywordOf? r = some k := by simpa [Token.standsFor] using h
    cases r <;> cases hk <;> cases ht
  | name x | mark m => cases ht

end SystemRule

namespace Derives

open SystemRule

variable {p : Pattern SystemRule} {ts : List Token}

theorem mayBeEmpty (h : Derives p ts) (hts : ts = []) : mayBeEmpty p := by
  induction h with
  | literal | token => cases hts
  | rule hr _ ih => simpa [SystemRule.mayBeEmpty] using mayBeEmpty_body _ (ih hts) hr
  | seq _ _ ihp ihq =>
    obtain ⟨hts, hus⟩ := List.append_eq_nil_iff.mp hts
    simp [SystemRule.mayBeEmpty, ihp hts, ihq hus]
  | choiceLeft _ ih | choiceRight _ ih => simp [SystemRule.mayBeEmpty, ih hts]
  | _ => rfl

theorem mayStartWithWord (h : Derives p ts) {t : Token} (ht : t ∈ ts.head?) (hw : t.isWord) :
    mayStartWithWord p := by
  induction h with
  | literal =>
    obtain rfl := Option.some.inj ht
    simpa [SystemRule.mayStartWithWord] using (Token.isNameChar_of_isWord hw).2
  | token hr => exact startsWithWord_of_standsFor hr
  | rule _ _ ih => exact startsWithWord_of_body _ (ih ht)
  | @seq p q ts us hp _ ihp ihq =>
    cases ts with
    | nil => simp [SystemRule.mayStartWithWord, hp.mayBeEmpty rfl, ihq ht]
    | cons => simp [SystemRule.mayStartWithWord, ihp ht]
  | choiceLeft _ ih | choiceRight _ ih => simp [SystemRule.mayStartWithWord, ih ht]
  | optSome _ ih => exact ih ht
  | @manyCons p ts us _ _ ih ihmore =>
    cases ts with
    | nil => exact ihmore ht
    | cons => exact ih ht
  | _ => cases ht

theorem mayEndBlunt (h : Derives p ts) {t : Token} (ht : t ∈ ts.getLast?) (hb : t.isBlunt) :
    mayEndBlunt p := by
  induction h with
  | @literal k hk =>
    obtain rfl := Option.some.inj ht
    cases k with
    | keyword k => cases k <;> first | decide | cases hb
    | mark m => cases hb
    | name | number => cases hk
  | token hr =>
    obtain rfl := Option.some.inj ht
    exact endsBlunt_of_standsFor hr hb
  | rule hr _ ih => exact endsBlunt_of_body _ (ih ht) hr
  | @seq p q ts us _ hq ihp ihq =>
    cases us with
    | nil =>
      rw [List.append_nil] at ht
      simp [SystemRule.mayEndBlunt, hq.mayBeEmpty rfl, ihp ht]
    | cons =>
      rw [List.getLast?_append_of_ne_nil _ (List.cons_ne_nil _ _)] at ht
      simp [SystemRule.mayEndBlunt, ihq ht]
  | choiceLeft _ ih | choiceRight _ ih => simp [SystemRule.mayEndBlunt, ih ht]
  | optSome _ ih => exact ih ht
  | @manyCons p ts us _ _ ih ihmore =>
    cases us with
    | nil =>
      rw [List.append_nil] at ht
      exact ih ht
    | cons =>
      rw [List.getLast?_append_of_ne_nil _ (List.cons_ne_nil _ _)] at ht
      exact ihmore ht
  | _ => cases ht

/-- In what the grammar derives, no word stands behind a blunt one. -/
theorem isChain (h : Derives p ts) (hp : keepsApart p) :
    ts.IsChain fun t u => t.isBlunt → ¬ u.isWord := by
  induction h with
  | literal | token => exact .singleton _
  | @rule r _ _ _ ih => exact ih (keepsApart_body r)
  | @seq p q _ _ dp dq ihp ihq =>
    obtain ⟨⟨hp, hq⟩, hno⟩ :
        (keepsApart p ∧ keepsApart q) ∧
          (SystemRule.mayEndBlunt p = false ∨ SystemRule.mayStartWithWord q = false) := by
      simpa [keepsApart] using hp
    refine (ihp hp).append (ihq hq) ?_
    -- at the seam, a blunt end and a word at the start exclude each other
    intro t ht u hu hb hw
    simp [dp.mayEndBlunt ht hb, dq.mayStartWithWord hu hw] at hno
  | @choiceLeft p q _ _ ih =>
    have h : keepsApart p ∧ keepsApart q := by simpa [keepsApart] using hp
    exact ih h.1
  | @choiceRight p q _ _ ih =>
    have h : keepsApart p ∧ keepsApart q := by simpa [keepsApart] using hp
    exact ih h.2
  | optSome _ ih => exact ih hp
  | @manyCons p _ _ d dmore ih ihmore =>
    obtain ⟨hp', hno⟩ :
        keepsApart p ∧
          (SystemRule.mayEndBlunt p = false ∨ SystemRule.mayStartWithWord p = false) := by
      simpa [keepsApart] using hp
    refine (ih hp').append (ihmore hp) ?_
    intro t ht u hu hb hw
    have hstart : SystemRule.mayStartWithWord p := dmore.mayStartWithWord hu hw
    simp [d.mayEndBlunt ht hb, hstart] at hno
  | _ => exact .nil

end Derives

end PbesLab
