import PbesLab.CommandLine.Program
import PbesLab.Proofs.Disk.Frame
import PbesLab.Proofs.Shrink.Names
import PbesLab.Proofs.Trial.Action

namespace PbesLab

section Lists

variable {α : Type} {item : List Token → α → Prop} {P : α → Prop} {ts : List Token} {xs : List α}

theorem Separated.forall_of_item {sep : Mark} (hitem : ∀ {ts x}, item ts x → P x)
    (h : Separated sep item ts xs) : ∀ x ∈ xs, P x := by
  induction h with
  | one h => exact List.forall_mem_singleton.mpr (hitem h)
  | cons h _ ih => exact List.forall_mem_cons.mpr ⟨hitem h, ih⟩

theorem Listed.forall_of_item (hitem : ∀ {ts x}, item ts x → P x) (h : Listed item ts xs) :
    ∀ x ∈ xs, P x := by
  cases h with
  | none => nofun
  | some h => exact h.forall_of_item hitem

theorem Joined.forall_of_item (hitem : ∀ {ts x}, item ts x → P x) (h : Joined item ts xs) :
    ∀ x ∈ xs, P x := by
  induction h with
  | nil => nofun
  | cons h _ ih => exact List.forall_mem_cons.mpr ⟨hitem h, ih⟩

end Lists

theorem SpellsDecl.legal {ts : List Token} {v : VarDecl} (h : SpellsDecl ts v) :
    isLegalName v.name := by
  obtain ⟨x, s⟩ := h
  exact x.property

theorem SpellsData.legal {level : DataLevel} {ts : List Token} {d : DataExpr}
    (h : SpellsData level ts d) : ∀ x ∈ d.vars, isLegalName x := by
  induction h with
  | var x => exact List.forall_mem_singleton.mpr x.property
  | nat n | bool b => nofun
  | group _ ih | sum _ ih | comparison _ ih => exact ih
  | plus _ _ ihl ihr => exact List.forall_mem_append.mpr ⟨ihl, ihr⟩
  | compare _ _ _ ihl ihr => exact List.forall_mem_append.mpr ⟨ihl, ihr⟩

theorem SpellsInstance.legal {ts : List Token} {i : Instance} (h : SpellsInstance ts i) :
    ∀ x ∈ i.name :: i.vars, isLegalName x := by
  obtain ⟨x, hargs⟩ := h
  refine List.forall_mem_cons.mpr ⟨x.property, fun y hy => ?_⟩
  obtain ⟨d, hd, hy⟩ := List.mem_flatMap.mp hy
  exact hargs.forall_of_item (fun h => h.legal) d hd y hy

theorem SpellsFormula.legal {level : FormulaLevel} {o : Bool} {ts : List Token} {f : Formula}
    (h : SpellsFormula level o ts f) : ∀ x ∈ f.names, isLegalName x := by
  induction h with
  | const b => nofun
  | val h => exact h.legal
  | inst h => exact h.legal
  | quant hv _ ih => exact List.forall_mem_cons.mpr ⟨hv.legal, ih⟩
  | and _ _ ihl ihr => exact List.forall_mem_append.mpr ⟨ihl, ihr⟩
  | or _ _ ihl ihr => exact List.forall_mem_append.mpr ⟨ihl, ihr⟩
  | imp _ _ ihl ihr => exact List.forall_mem_append.mpr ⟨ihl, ihr⟩
  | group _ ih | neg _ ih | conjunction _ ih | disjunction _ ih | implication _ ih => exact ih

theorem SpellsEquation.legal {ts : List Token} {e : Equation} (h : SpellsEquation ts e) :
    ∀ x ∈ e.names, isLegalName x := by
  obtain ⟨fix, x, hparams, hf⟩ := h
  have hdecls := hparams.forall_of_item (P := fun v => isLegalName v.name) SpellsDecl.legal
  refine List.forall_mem_cons.mpr ⟨x.property, List.forall_mem_append.mpr ⟨?_, hf.legal⟩⟩
  exact List.forall_mem_map.mpr hdecls

theorem SpellsSystem.legal {ts : List Token} {s : EqSystem} (h : SpellsSystem ts s) :
    ∀ x ∈ s.names, isLegalName x := by
  obtain ⟨he, -, hi⟩ := h
  refine List.forall_mem_append.mpr ⟨fun x hx => ?_, hi.legal⟩
  obtain ⟨e, hmem, hx⟩ := List.mem_flatMap.mp hx
  exact he.forall_of_item (fun h => h.legal) e hmem x hx

namespace EqSystem

variable {text : String} {s : EqSystem}

theorem read_eq_ok : EqSystem.read text = .ok s ↔
    ∃ t, tree text = .ok t ∧ ofTree t = .ok s ∧ s.check = .ok () := by
  unfold EqSystem.read
  simp only [bind_eq_ok, mapError_eq_ok]
  constructor
  · rintro ⟨t, ht, q, hq, _, hcheck, ⟨⟩⟩
    exact ⟨t, ht, hq, hcheck⟩
  · rintro ⟨t, ht, hs, hcheck⟩
    exact ⟨t, ht, s, hs, (), hcheck, rfl⟩

/-- What is read is what the tokens of the text spell. -/
theorem exists_tokens_of_read (h : EqSystem.read text = .ok s) :
    ∃ ts, IsSpelled ts text.toList ∧ SpellsSystem ts s := by
  obtain ⟨t, ht, hof, -⟩ := read_eq_ok.mp h
  obtain ⟨ts, htext, hts⟩ := exists_tokens_of_tree ht
  obtain ⟨s', hs'⟩ := hts.exists_system
  obtain ⟨t', ht', hof'⟩ := hs'.tree htext
  obtain rfl : t = t' := Except.ok.inj (ht.symm.trans ht')
  rw [hof] at hof'
  split at hof'
  · obtain rfl := Except.ok.inj hof'
    exact ⟨ts, htext, hs'⟩
  · cases hof'

theorem Readable.of_read (h : EqSystem.read text = .ok s) : s.Readable := by
  obtain ⟨ts, -, hts⟩ := exists_tokens_of_read h
  obtain ⟨t, -, -, hcheck⟩ := read_eq_ok.mp h
  exact ⟨hcheck, hts.legal⟩

/-- Layout at the end of a text goes unseen. -/
theorem Readable.read_line (h : s.Readable) : EqSystem.read (s.text ++ "\n") = .ok s := by
  obtain ⟨ts, hts, hprints⟩ := s.prints h.equations_ne_nil h.legal
  have hline := hprints.append (.gap (a := "\n") (by decide) .empty) (noName_gap (by decide) _)
  rw [List.append_nil, String.append_empty] at hline
  rw [read_of_spells hts hline.isSpelled hline.fits, h.check]

end EqSystem

namespace CommandLine

section

variable {text : String} {s : EqSystem} {file : Path} {c : Console}

theorem readSystem_eq (hfile : c.bench.disk.readText file = .ok text)
    (hread : EqSystem.read text = .ok s) : readSystem file c = (.ok s, c) := by
  have htext : Console.readText file c = (.ok text, c) := by
    have hget : (get : Action Console Console) c = (.ok c, c) := rfl
    unfold Console.readText
    rw [Action.bind_apply, hget]
    dsimp only
    rw [hfile]
    rfl
  unfold readSystem
  rw [Action.bind_apply, htext]
  dsimp only
  rw [hread]
  rfl

/-- The command writes the canonical text of what it reads, and changes nothing else. -/
theorem Command.run_parse (dflt : UInt64) (hfile : c.bench.disk.readText file = .ok text)
    (hread : EqSystem.read text = .ok s) :
    Command.run dflt (.parse file) c =
      (.ok (), { c with output := c.output ++ s.text ++ "\n" }) := by
  change (readSystem file >>= fun s => Console.print s.text) c = _
  rw [Action.bind_apply, readSystem_eq hfile hread]
  rfl

end

end CommandLine

/-- A text that is read has equations and legal names. The text, its canonical text and what the
command writes are all read as one system, so echoing any of them writes the same. -/
theorem EqSystem.echo_fixed_point {text : String} {s : EqSystem} (h : EqSystem.read text = .ok s) :
    s.equations ≠ [] ∧ (∀ x ∈ s.names, isLegalName x) ∧
      ∀ t ∈ [text, s.text, s.text ++ "\n"], EqSystem.read t = .ok s ∧
        ∀ dflt file c, c.bench.disk.readText file = .ok t →
          CommandLine.Command.run dflt (.parse file) c =
            (.ok (), { c with output := c.output ++ s.text ++ "\n" }) := by
  have hs : s.Readable := .of_read h
  refine ⟨hs.equations_ne_nil, hs.legal, fun t ht => ?_⟩
  have hread : EqSystem.read t = .ok s := by
    simp only [List.mem_cons, List.not_mem_nil, or_false] at ht
    obtain rfl | rfl | rfl := ht
    · exact h
    · exact hs.read
    · exact hs.read_line
  exact ⟨hread, fun dflt file c hfile => CommandLine.Command.run_parse dflt hfile hread⟩

/-- A text with comments, layout of its own, a number with leading zeros, and parentheses where none
are needed and none where the canonical text has some. -/
def looseText : String :=
  "pbes % two equations\n\tmu X(n:Nat)=((val(007<n)))&&X(n)||Y;\n" ++
    "nu Y=exists b:Bool.val(b)=>Y;init X(1)% the start\n; %"

def looseSystem : EqSystem :=
  ⟨[⟨.mu, "X", [⟨"n", .nat⟩],
      .bin .or (.bin .and (.val (.binary .less (.nat 7) (.var "n"))) (.inst ⟨"X", [.var "n"]⟩))
        (.inst ⟨"Y", []⟩)⟩,
    ⟨.nu, "Y", [], .quant .ex ⟨"b", .bool⟩ (.bin .imp (.val (.var "b")) (.inst ⟨"Y", []⟩))⟩],
    ⟨"X", [.nat 1]⟩⟩

theorem looseText_spells : ∃ ts, SpellsSystem ts looseSystem ∧ IsSpelled ts looseText.toList ∧
    ts.all Token.fits := by
  let b : LegalName := ⟨"b", by decide⟩
  let n : LegalName := ⟨"n", by decide⟩
  let x : LegalName := ⟨"X", by decide⟩
  let y : LegalName := ⟨"Y", by decide⟩
  let one : Numeral := ⟨['1'], List.cons_ne_nil _ _, List.all_eq_true.mp rfl⟩
  let seven : Numeral := ⟨['0', '0', '7'], List.cons_ne_nil _ _, List.all_eq_true.mp rfl⟩
  have hless : SpellsData .comparison _ (.binary .less (.nat seven.value) (.var n)) :=
    .compare (by decide) (.sum (.nat seven)) (.sum (.var n))
  have hval := (SpellsFormula.val hless).conjunction.disjunction.implication.group
  have hgroup := hval.conjunction.disjunction.implication.group
  have hx : SpellsFormula .operand false _ (.inst ⟨x, [.var n]⟩) :=
    .inst (.inst x (.some (.one (.comparison (.sum (.var n))))))
  have hy : SpellsFormula .operand false _ (.inst ⟨y, []⟩) := .inst (.inst y .none)
  have hor := (hgroup.conjunction.and hx).disjunction.or hy.conjunction
  have hb := SpellsFormula.val (.comparison (.sum (.var b)))
  have himp := hb.conjunction.disjunction.imp hy.conjunction.disjunction.implication
  have hex := SpellsFormula.quant (q := .ex) (.decl b .bool) himp
  have hinit : SpellsInstance _ ⟨x, [.nat 1]⟩ :=
    .inst x (.some (.one (.comparison (.sum (.nat one)))))
  -- the tokens are those of the derivation, and that the text spells them is computed
  refine ⟨_, .system (.cons (.equation .mu x (.some (.one (.decl n .nat))) hor.implication)
    (.cons (.equation .nu y .none hex.conjunction.disjunction.implication) .nil))
    (by decide) hinit, ?_, ?_⟩
  · decide +kernel
  · decide

theorem looseText_read : EqSystem.read looseText = .ok looseSystem := by
  obtain ⟨ts, hts, htext, hfits⟩ := looseText_spells
  have hcheck : looseSystem.check = .ok () := by decide
  rw [EqSystem.read_of_spells hts htext hfits, hcheck]

def looseEcho : String :=
  "pbes\n  mu X(n: Nat) =\n    ((val(7 < n) && X(n)) || Y);\n" ++
    "  nu Y =\n    (exists b: Bool. (val(b) => Y));\n\ninit X(1);\n"

def deskWith (text : String) : CommandLine.Console :=
  ⟨⟨⟨[(["in"], .file text.toUTF8 false)], []⟩, [], ()⟩, ""⟩

theorem deskWith_readText (text : String) :
    (deskWith text).bench.disk.readText ⟨"in"⟩ = .ok text := by
  apply Disk.readText_of_find (x := false)
  rfl

theorem looseText_echo_fixed_point : EqSystem.read looseText = .ok looseSystem ∧
    (deskWith looseText).bench.disk.readText ⟨"in"⟩ = .ok looseText ∧
    (deskWith looseEcho).bench.disk.readText ⟨"in"⟩ = .ok looseEcho ∧
    looseSystem.equations ≠ [] ∧ "X" ∈ looseSystem.names ∧ isLegalName "X" ∧
    EqSystem.read looseEcho = .ok looseSystem ∧
    CommandLine.Command.run 0 (.parse ⟨"in"⟩) (deskWith looseText) =
      (.ok (), { deskWith looseText with output := looseEcho }) ∧
    CommandLine.Command.run 0 (.parse ⟨"in"⟩) (deskWith looseEcho) =
      (.ok (), { deskWith looseEcho with output := looseEcho }) := by
  obtain ⟨hne, hlegal, htexts⟩ := EqSystem.echo_fixed_point looseText_read
  have hX : "X" ∈ looseSystem.names := by decide
  have hecho : looseSystem.text ++ "\n" = looseEcho := by decide
  have hloose := htexts looseText (by simp)
  have hagain := htexts (looseSystem.text ++ "\n") (by simp)
  have houtput : "" ++ looseSystem.text ++ "\n" = looseEcho := by rw [String.empty_append, hecho]
  have hrun := hloose.2 0 ⟨"in"⟩ (deskWith looseText) (deskWith_readText looseText)
  rw [hecho] at hagain
  have hrun' := hagain.2 0 ⟨"in"⟩ (deskWith looseEcho) (deskWith_readText looseEcho)
  rw [show (deskWith looseText).output = "" from rfl, houtput] at hrun
  rw [show (deskWith looseEcho).output = "" from rfl, houtput] at hrun'
  exact ⟨looseText_read, deskWith_readText looseText, deskWith_readText looseEcho, hne, hX,
    hlegal "X" hX, hagain.1, hrun, hrun'⟩

end PbesLab
