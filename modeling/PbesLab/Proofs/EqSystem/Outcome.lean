import PbesLab.Proofs.EqSystem.Conformity
import PbesLab.Proofs.EqSystem.RoundTrip

namespace PbesLab

/-- Some number is greater than those of 32 bits, however it is written. -/
def HasLargeNumber (ts : List Token) : Prop :=
  ∃ n : Numeral, Token.number n ∈ ts ∧ 4294967295 < Nat.ofDigitChars 10 n.val 0

theorem not_all_fits_iff {ts : List Token} : ¬ ts.all Token.fits ↔ HasLargeNumber ts := by
  simp only [List.all_eq_true, not_forall]
  constructor
  · rintro ⟨t, ht, hfits⟩
    cases t with
    | number n =>
      refine ⟨n, ht, ?_⟩
      simp only [Token.fits, decide_eq_true_eq, UInt32.size] at hfits
      omega
    | keyword | name | mark => exact absurd rfl hfits
  · rintro ⟨n, hn, hlarge⟩
    refine ⟨_, hn, ?_⟩
    simp only [Token.fits, decide_eq_true_eq, UInt32.size]
    omega

namespace EqSystem

variable {text : String} {t : Grammar.Tree SystemRule} {s : EqSystem} {ts : List Token}

theorem read_of_tree (h : EqSystem.tree text = .ok t) : EqSystem.read text = do
    let s ← EqSystem.ofTree t
    (s.check).mapError ReadFault.fault
    return s := by
  unfold EqSystem.read
  rw [h]
  rfl

/-- Of a text that has a tree, the numbers alone decide whether the tree gives a system. If one is
too large, reading fails on that, whatever else is wrong with the system. If all fit, reading gives
the system or the fault that the check finds. From the root down nothing else fails either: no node
is of another rule than asked for, and none is missing. The system has the symbols of the tree in
their order, and among them those of each node, so nothing of the tree is skipped. -/
theorem conversion_fails_only_on_large_numbers (h : EqSystem.tree text = .ok t) :
    (∃ ts, IsSpelled ts text.toList ∧ Derives (.rule .system) ts) ∧
      ∀ ts, IsSpelled ts text.toList → Derives (.rule .system) ts →
        (EqSystem.read text = .error (.unexpectedNode .number) ↔ HasLargeNumber ts) ∧
        (HasLargeNumber ts → EqSystem.ofTree t = .error (.unexpectedNode .number) ∧
          Conversion.ofTree t = .error (.unexpectedRule .number)) ∧
        (¬ HasLargeNumber ts → ∃ s, EqSystem.ofTree t = .ok s ∧ Conversion.ofTree t = .ok s ∧
          SpellsSystem ts s ∧ s.symbols = t.symbols ∧
            (∀ m, t.HasNode m → m.symbols <:+: s.symbols ∧
              (m.rule ∉ silentRules → m.symbols ≠ [])) ∧
            EqSystem.read text = match s.check with
              | .ok () => .ok s
              | .error f => .error (.fault f)) := by
  refine ⟨exists_tokens_of_tree h, fun ts htext hts => ?_⟩
  obtain ⟨s, hs⟩ := hts.exists_system
  obtain ⟨t', ht', hof⟩ := hs.tree htext
  obtain rfl : t = t' := Except.ok.inj (h.symm.trans ht')
  rw [← not_all_fits_iff]
  -- both conversions turn on the numbers alone: they agree with each other on the tree
  by_cases hfits : ts.all Token.fits
  · rw [if_pos hfits] at hof
    have hread := read_of_spells hs htext hfits
    refine ⟨iff_of_false ?_ (not_not.mpr hfits), fun hlarge => absurd hfits hlarge, fun _ => ?_⟩
    · rw [hread]
      split <;> simp
    · obtain ⟨s', hs', hconv⟩ | ⟨hnumber, -⟩ := Conversion.agree_ofTree h
      · obtain rfl := Except.ok.inj (hof.symm.trans hs')
        have hsymbols := symbols_of_ofTree h hof
        exact ⟨s, hof, hconv, hs, hsymbols, fun m hm => hsymbols ▸ symbols_of_hasNode h hm, hread⟩
      · cases hof.symm.trans hnumber
  · rw [if_neg hfits] at hof
    have hread : EqSystem.read text = .error (.unexpectedNode .number) := by
      rw [read_of_tree h, hof]
      rfl
    refine ⟨iff_of_true hread hfits, fun _ => ⟨hof, ?_⟩, fun hnot => absurd hfits hnot⟩
    obtain ⟨s', hs', -⟩ | ⟨-, hconv⟩ := Conversion.agree_ofTree h
    · cases hof.symm.trans hs'
    · exact hconv

end EqSystem

/-- A number that is too large, among undeclared names, behind zeros and behind a comment. -/
def largeText : String :=
  "pbes % 9999999999\nnu X = val(n < 0004294967296) && Y;\ninit Z(4294967295);"

theorem largeText_spells : ∃ ts s, SpellsSystem ts s ∧ IsSpelled ts largeText.toList ∧
    HasLargeNumber ts := by
  let n : LegalName := ⟨"n", by decide⟩
  let x : LegalName := ⟨"X", by decide⟩
  let y : LegalName := ⟨"Y", by decide⟩
  let z : LegalName := ⟨"Z", by decide⟩
  let large : Numeral := ⟨"0004294967296".toList, by decide, List.all_eq_true.mp rfl⟩
  let largest : Numeral := ⟨"4294967295".toList, by decide, List.all_eq_true.mp rfl⟩
  have hless : SpellsData .comparison _ (.binary .less (.var n) (.nat large.value)) :=
    .compare (by decide) (.sum (.var n)) (.sum (.nat large))
  have hy : SpellsFormula .operand false _ (.inst ⟨y, []⟩) := .inst (.inst y .none)
  have hand := (SpellsFormula.val hless).conjunction.and hy
  have hinit : SpellsInstance _ ⟨z, [.nat largest.value]⟩ :=
    .inst z (.some (.one (.comparison (.sum (.nat largest)))))
  refine ⟨_, _, .system (.cons (.equation .nu x .none hand.disjunction.implication) .nil)
    (by decide) hinit, ?_, large, ?_, ?_⟩
  · decide +kernel
  · simp
  · decide

theorem largeText_read : ∃ t, EqSystem.tree largeText = .ok t ∧
    EqSystem.read largeText = .error (.unexpectedNode .number) ∧
      Conversion.ofTree t = .error (.unexpectedRule .number) := by
  obtain ⟨ts, s, hs, htext, hlarge⟩ := largeText_spells
  obtain ⟨t, ht, -⟩ := hs.tree htext
  obtain ⟨hread, hfails, -⟩ :=
    (EqSystem.conversion_fails_only_on_large_numbers ht).2 ts htext hs.derives
  exact ⟨t, ht, hread.mpr hlarge, (hfails hlarge).2⟩

end PbesLab
