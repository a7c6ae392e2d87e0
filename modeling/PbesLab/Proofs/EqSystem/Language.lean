import PbesLab.Proofs.EqSystem.Acceptance
import PbesLab.Proofs.EqSystem.Building
import PbesLab.Proofs.EqSystem.Derivability
import PbesLab.Proofs.EqSystem.Printing

namespace PbesLab

open Grammar
open Grammar.Tree (meaningsOf meaningsOf_singleton)

theorem EqSystem.tree_eq_ok {text : String} {t : Grammar.Tree SystemRule}
    (h : read? SystemRule.rules .system text.toList = some t) : EqSystem.tree text = .ok t := by
  unfold EqSystem.tree
  rw [h]

/-- A text of tokens that spell a system has a tree. The tree means the system, unless a number does
not fit. -/
theorem SpellsSystem.tree {text : String} {ts : List Token} {s : EqSystem}
    (h : SpellsSystem ts s) (htext : IsSpelled ts text.toList) :
    ∃ t, EqSystem.tree text = .ok t ∧ EqSystem.ofTree t =
      if ts.all Token.fits then .ok s else .error (.unexpectedNode .number) := by
  obtain ⟨parts, rest, hsettles, hmeans⟩ := h.settles htext.reads
  have hread : read? SystemRule.rules .system text.toList = some (.node .system parts) :=
    read?_eq_some_of_settles SystemRule.layout_lossless SystemRule.ranking hsettles
  refine ⟨.node .system parts, EqSystem.tree_eq_ok hread, ?_⟩
  rw [meaningsOf_singleton] at hmeans
  rw [EqSystem.ofTree, hmeans, Yield]
  cases ts.all Token.fits <;> rfl

/-- The texts with a tree are those of tokens that the grammar derives, with layout between them. If
the numbers fit, the tree means the one system that the tokens spell by precedence. -/
theorem EqSystem.tree_iff_derives (text : String) :
    ((∃ t, EqSystem.tree text = .ok t) ↔
      ∃ ts, IsSpelled ts text.toList ∧ Derives (.rule .system) ts) ∧
    ∀ t ts, EqSystem.tree text = .ok t → IsSpelled ts text.toList → Derives (.rule .system) ts →
      ts.all Token.fits →
        ∃ s, EqSystem.ofTree t = .ok s ∧ SpellsSystem ts s ∧ ∀ s', SpellsSystem ts s' → s' = s := by
  have hmeans {t ts s} (ht : EqSystem.tree text = .ok t) (htext : IsSpelled ts text.toList)
      (hfits : ts.all Token.fits) (hs : SpellsSystem ts s) : EqSystem.ofTree t = .ok s := by
    obtain ⟨t', ht', hof⟩ := hs.tree htext
    obtain rfl : t = t' := Except.ok.inj (ht.symm.trans ht')
    rw [hof, if_pos hfits]
  refine ⟨⟨fun ⟨t, ht⟩ => exists_tokens_of_tree ht, ?_⟩, ?_⟩
  · rintro ⟨ts, htext, hts⟩
    obtain ⟨s, hs⟩ := derives_system_iff.mp hts
    obtain ⟨t, ht, -⟩ := hs.tree htext
    exact ⟨t, ht⟩
  · intro t ts ht htext hts hfits
    obtain ⟨s, hs⟩ := derives_system_iff.mp hts
    refine ⟨s, hmeans ht htext hfits hs, hs, fun s' hs' => ?_⟩
    have heq := (hmeans ht htext hfits hs').symm.trans (hmeans ht htext hfits hs)
    exact Except.ok.inj heq

/-- A system with each connective at another depth. -/
def layeredSystem : EqSystem :=
  ⟨[⟨.nu, "X", [⟨"b", .bool⟩],
    .bin .imp (.bin .and (.neg (.inst ⟨"X", [.var "b"]⟩)) (.val (.binary .less (.nat 0) (.nat 1))))
      (.bin .or (.const false) (.quant .ex ⟨"n'", .nat⟩ (.val (.var "b"))))⟩],
    ⟨"X", [.bool true]⟩⟩

theorem layeredSystem_tree_iff_derives : ∃ t ts, EqSystem.tree layeredSystem.text = .ok t ∧
    IsSpelled ts layeredSystem.text.toList ∧ Derives (.rule .system) ts ∧ ts.all Token.fits ∧
      ∃ s, EqSystem.ofTree t = .ok s ∧ SpellsSystem ts s ∧ ∀ s', SpellsSystem ts s' → s' = s := by
  obtain ⟨ts, hts, hprints⟩ := layeredSystem.prints (by decide) (by decide)
  obtain ⟨t, ht, -⟩ := hts.tree hprints.isSpelled
  exact ⟨t, ts, ht, hprints.isSpelled, hts.derives, hprints.fits,
    (EqSystem.tree_iff_derives layeredSystem.text).2 t ts ht hprints.isSpelled hts.derives
      hprints.fits⟩

end PbesLab
