import PbesLab.Proofs.ClassTable.Meaning
import PbesLab.Proofs.Grammar.Shape

namespace PbesLab

open Grammar (Gives GivesOne Only)
open Grammar.Tree (Node nodes)

namespace ClassTable

/-- Why a text gives no table, as told from the root down. -/
inductive Misfit
  | malformedRow (table : String) (row : Nat) (report : Grammar.Report)
  | emptyParse (table : String) (row : Nat)
  | unexpectedRule (rule : ClassRule)
  | malformedParameter (identifiers : List String)
  | constructorWithoutName
  | incompleteRow
deriving DecidableEq

namespace Conversion

def textOf (n : Node ClassRule) : String :=
  String.ofList (Grammar.Tree.textOf n.parts)

/-- A qualifier and the identifiers of a parameter, beside those found before. -/
def parameterParts : List (Node ClassRule) → Bool → List String → Except Misfit (Bool × List String)
  | [], isConst, xs => .ok (isConst, xs)
  | n :: ns, isConst, xs =>
    match n.rule with
    | .constQualifier => parameterParts ns true xs
    | .identifier => parameterParts ns isConst (xs ++ [textOf n])
    | .reference => parameterParts ns isConst xs
    | r => .error (.unexpectedRule r)

def parameterOf (n : Node ClassRule) : Except Misfit Parameter := do
  match ← parameterParts n.inner false [] with
  | (isConst, [s, x]) => return ⟨isConst, s, x⟩
  | (_, xs) => .error (.malformedParameter xs)

def baseOf (n : Node ClassRule) : Option String :=
  n.inner.head?.map textOf

def constructorParts : List (Node ClassRule) → Option String → Option String → List Parameter →
    Except Misfit (Option String × Option String × List Parameter)
  | [], name, base, params => .ok (name, base, params)
  | n :: ns, name, base, params =>
    match n.rule with
    | .identifier => constructorParts ns (some (textOf n)) base params
    | .basePostfix => constructorParts ns name (baseOf n) params
    | .parameter => do constructorParts ns name base (params ++ [← parameterOf n])
    | r => .error (.unexpectedRule r)

def constructorOf (n : Node ClassRule) : Except Misfit Constructor := do
  match ← constructorParts n.inner none none [] with
  | (some name, base, params) => return ⟨name, base, params⟩
  | (none, _, _) => .error .constructorWithoutName

def descriptionOf (n : Node ClassRule) : String :=
  String.ofList (Text.trim (Grammar.Tree.textOf n.parts))

def rowParts : List (Node ClassRule) → Option String → Option Constructor → String →
    Except Misfit (Option String × Option Constructor × String)
  | [], tag, ctor, description => .ok (tag, ctor, description)
  | n :: ns, tag, ctor, description =>
    match n.rule with
    | .tag => rowParts ns (some (textOf n)) ctor description
    | .constructor => do rowParts ns tag (some (← constructorOf n)) description
    | .description => rowParts ns tag ctor (descriptionOf n)
    | .endOfInput => rowParts ns tag ctor description
    | r => .error (.unexpectedRule r)

def rowOf (n : Node ClassRule) : Except Misfit ClassRow := do
  match ← rowParts n.inner none none "" with
  | (some tag, some ctor, description) => return ⟨tag, ctor, description⟩
  | _ => .error .incompleteRow

/-- From the root down, each rule walks over the nodes inside it and keeps what it knows. It may
find a node that it does not know, or miss one that it needs; what it finds twice counts as found
last. -/
def readRow (table : String) (number : Nat) (line : List Char) : Except Misfit ClassRow :=
  match Grammar.matchRule ClassRule.rules (Grammar.depthFor line) false .row line with
  | .matched parts _ => match nodes parts with
    | n :: _ => rowOf n
    | [] => .error (.emptyParse table number)
  | _ => .error (.malformedRow table number (Grammar.report ClassRule.rules .row line))

def readRows (table : String) : Nat → List (List Char) → Except Misfit (List ClassRow)
  | _, [] => return []
  | n, l :: ls =>
    if (Text.trim l).isEmpty then readRows table (n + 1) ls
    else do
      let r ← readRow table n (Text.trim l)
      return r :: (← readRows table (n + 1) ls)

def read (name text : String) : Except Misfit ClassTable := do
  return ⟨name, ← readRows name 1 (Text.lines text.toList)⟩

abbrev meaning (n : Node ClassRule) : Except ClassRule RowMeaning :=
  n.meaning RowMeaning.ofNode?

/-- From the root down, the node is converted to what it means from the leaves up. -/
def Consistent (n : Node ClassRule) : Prop :=
  match n.rule with
  | .endOfInput => meaning n = .ok .nothing
  | .identifier => meaning n = .ok (.name (textOf n))
  | .tag => meaning n = .ok (.tag (textOf n))
  | .description => meaning n = .ok (.description (descriptionOf n))
  | .constQualifier => meaning n = .ok .const
  | .reference => meaning n = .ok .reference
  | .basePostfix => ∃ x, meaning n = .ok (.basePostfix x) ∧ baseOf n = some x
  | .parameter => ∃ p, meaning n = .ok (.parameter p) ∧ parameterOf n = .ok p
  | .constructor => ∃ c, meaning n = .ok (.constructor c) ∧ constructorOf n = .ok c
  | .row => ∃ r, meaning n = .ok (.row r) ∧ rowOf n = .ok r

variable {n : Node ClassRule}

/-- Without nodes inside, the text is all there is. -/
theorem consistent_of_inner_eq_nil (hinner : n.inner = [])
    (hr : n.rule ∉ [.basePostfix, .parameter, .constructor, .row]) : Consistent n := by
  unfold Consistent
  cases hn : n.rule with
  | basePostfix | parameter | constructor | row =>
    rw [hn] at hr
    exact absurd hr (by decide)
  | _ => exact Node.meaning_eq_ok hn hinner .nil rfl

theorem consistent_basePostfix (hr : n.rule = .basePostfix)
    (h : Gives (Only Consistent) (ClassRule.body .basePostfix) n.inner) : Consistent n := by
  obtain ⟨_, _, hinner, rfl, _, _, rfl, ⟨x, rfl, hx, hxcon⟩, rfl⟩ := h
  simp only [Consistent, hx] at hxcon
  simp only [Consistent, hr]
  refine ⟨textOf x, Node.meaning_eq_ok hr hinner (.cons hxcon .nil) rfl, ?_⟩
  rw [baseOf, hinner]
  rfl

/-- Whether or not there is a qualifier and a reference, two identifiers are found. -/
theorem consistent_parameter (hr : n.rule = .parameter)
    (h : Gives (Only Consistent) (ClassRule.body .parameter) n.inner) : Consistent n := by
  obtain ⟨_, _, hinner, hconst, _, _, rfl, ⟨s, rfl, hs, hscon⟩, _, _, rfl, href,
    x, rfl, hx, hxcon⟩ := h
  simp only [Consistent, hs] at hscon
  simp only [Consistent, hx] at hxcon
  have hconv {isConst : Bool}
      (hparts : parameterParts n.inner false [] = .ok (isConst, [textOf s, textOf x])) :
      parameterOf n = .ok ⟨isConst, textOf s, textOf x⟩ := by
    rw [parameterOf, hparts]
    rfl
  simp only [Consistent, hr]
  obtain rfl | ⟨k, rfl, hk, hkcon⟩ := hconst <;> obtain rfl | ⟨m, rfl, hm, hmcon⟩ := href
  · refine ⟨_, Node.meaning_eq_ok hr hinner (.cons hscon (.cons hxcon .nil)) rfl, hconv ?_⟩
    simp [hinner, parameterParts, hs, hx]
  · simp only [Consistent, hm] at hmcon
    refine ⟨_, Node.meaning_eq_ok hr hinner (.cons hscon (.cons hmcon (.cons hxcon .nil))) rfl,
      hconv ?_⟩
    simp [hinner, parameterParts, hs, hm, hx]
  · simp only [Consistent, hk] at hkcon
    refine ⟨_, Node.meaning_eq_ok hr hinner (.cons hkcon (.cons hscon (.cons hxcon .nil))) rfl,
      hconv ?_⟩
    simp [hinner, parameterParts, hk, hs, hx]
  · simp only [Consistent, hk] at hkcon
    simp only [Consistent, hm] at hmcon
    refine ⟨_, Node.meaning_eq_ok hr hinner
      (.cons hkcon (.cons hscon (.cons hmcon (.cons hxcon .nil)))) rfl, hconv ?_⟩
    simp [hinner, parameterParts, hk, hs, hm, hx]

/-- Parameters are added to those before, in order, and change nothing else. -/
theorem exists_parameters {ns : List (Node ClassRule)}
    (h : ∀ n ∈ ns, n.rule = .parameter ∧ Consistent n) : ∃ ps : List Parameter,
      List.Forall₂ (fun k m => meaning k = .ok m) ns (ps.map .parameter) ∧ ∀ name base before,
        constructorParts ns name base before = .ok (name, base, before ++ ps) := by
  induction ns with
  | nil => exact ⟨[], .nil, fun name base before => by simp [constructorParts]⟩
  | cons n ns ih =>
    obtain ⟨⟨hr, hcon⟩, hns⟩ := List.forall_mem_cons.mp h
    simp only [Consistent, hr] at hcon
    obtain ⟨p, hmeaning, hp⟩ := hcon
    obtain ⟨ps, hmeanings, hps⟩ := ih hns
    refine ⟨p :: ps, .cons hmeaning hmeanings, fun name base before => ?_⟩
    simp only [constructorParts, hr, hp]
    exact (hps name base _).trans (by simp)

theorem consistent_constructor (hr : n.rule = .constructor)
    (h : Gives (Only Consistent) (ClassRule.body .constructor) n.inner) : Consistent n := by
  obtain ⟨_, _, hinner, ⟨x, rfl, hx, hxcon⟩, us, _, rfl, hbase, _, _, rfl, rfl, ns, _, rfl, hparams,
    rfl⟩ := h
  have hone : GivesOne (Only Consistent) (.rule .parameter) fun k =>
      k.rule = .parameter ∧ Consistent k := .rule fun _ hk hcon => ⟨hk, hcon⟩
  have hall : ∀ k ∈ ns, k.rule = .parameter ∧ Consistent k := by
    obtain rfl | hparams := hparams
    · nofun
    · exact hone.commaList hparams
  obtain ⟨ps, hmeanings, hps⟩ := exists_parameters hall
  simp only [Consistent, hx] at hxcon
  simp only [List.nil_append, List.append_nil] at hinner
  have hconv {base : Option String}
      (hparts : constructorParts n.inner none none [] = .ok (some (textOf x), base, ps)) :
      constructorOf n = .ok ⟨textOf x, base, ps⟩ := by
    rw [constructorOf, hparts]
    rfl
  simp only [Consistent, hr]
  obtain rfl | ⟨k, rfl, hk, hkcon⟩ := hbase
  · refine ⟨⟨textOf x, none, ps⟩, Node.meaning_eq_ok hr hinner (.cons hxcon hmeanings)
      (ClassRule.ofNode?_constructor _ ⟨textOf x, none, ps⟩), hconv ?_⟩
    simp [hinner, constructorParts, hx, hps]
  · simp only [Consistent, hk] at hkcon
    obtain ⟨y, hy, hbase⟩ := hkcon
    refine ⟨⟨textOf x, some y, ps⟩, Node.meaning_eq_ok hr hinner (.cons hxcon (.cons hy hmeanings))
      (ClassRule.ofNode?_constructor _ ⟨textOf x, some y, ps⟩), hconv ?_⟩
    simp [hinner, constructorParts, hx, hk, hbase, hps]

theorem consistent_row (hr : n.rule = .row)
    (h : Gives (Only Consistent) (ClassRule.body .row) n.inner) : Consistent n := by
  obtain ⟨_, _, hinner, rfl, _, _, rfl, ⟨t, rfl, ht, htcon⟩, _, _, rfl, rfl, _, _, rfl,
    ⟨c, rfl, hc, hccon⟩, _, _, rfl, rfl, _, _, rfl, ⟨d, rfl, hd, hdcon⟩, e, rfl, he, hecon⟩ := h
  simp only [Consistent, ht] at htcon
  simp only [Consistent, hc] at hccon
  simp only [Consistent, hd] at hdcon
  simp only [Consistent, he] at hecon
  obtain ⟨ctor, hctor, hconv⟩ := hccon
  have hparts : rowParts n.inner none none "" =
      .ok (some (textOf t), some ctor, descriptionOf d) := by
    simp only [hinner, List.nil_append, List.cons_append, rowParts, ht, hc, hd, he, hconv]
    rfl
  simp only [Consistent, hr]
  refine ⟨⟨textOf t, ctor, descriptionOf d⟩, Node.meaning_eq_ok hr hinner
    (.cons htcon (.cons hctor (.cons hdcon (.cons hecon .nil)))) rfl, ?_⟩
  rw [rowOf, hparts]
  rfl

theorem consistent_node (ha : n.rule.atomic = false)
    (h : Gives (Only Consistent) n.rule.body n.inner) : Consistent n := by
  cases hr : n.rule with
  | basePostfix => exact consistent_basePostfix hr (hr ▸ h)
  | parameter => exact consistent_parameter hr (hr ▸ h)
  | constructor => exact consistent_constructor hr (hr ▸ h)
  | row => exact consistent_row hr (hr ▸ h)
  | endOfInput | reference =>
    rw [hr] at h
    exact consistent_of_inner_eq_nil h (by rw [hr]; decide)
  | identifier | tag | description | constQualifier =>
    rw [hr] at ha
    cases ha

theorem only_of_row {depth : Nat} {cs rest : List Char} {parts : List (Grammar.Tree ClassRule)}
    (h : Grammar.matchRule ClassRule.rules depth false .row cs = .matched parts rest) :
    Only Consistent .row (nodes parts) := by
  refine Grammar.only_of_matchRule (fun n ha hinner => ?_) (fun n ha hn => consistent_node ha hn) h
  refine consistent_of_inner_eq_nil hinner fun hr => ?_
  have hopen : ∀ r ∈ [ClassRule.basePostfix, .parameter, .constructor, .row],
      r.atomic = false := by decide
  exact absurd ha (by simp [ClassRule.rules, hopen _ hr])

end Conversion

end ClassTable

end PbesLab
