import PbesLab.ClassTable.Reader
import PbesLab.Proofs.Grammar.Runs
import PbesLab.Proofs.Text.Lines
import Mathlib.Data.List.TakeDrop

namespace PbesLab

/-- A letter or an underscore, and only name characters. -/
def IsIdentifier (x : String) : Prop :=
  Grammar.IsRun ClassRule.isNameStart ClassRule.isNameChar x.toList

instance (x : String) : Decidable (IsIdentifier x) :=
  inferInstanceAs (Decidable (Grammar.IsRun _ _ _))

/-- Names as they can be read. Where no qualifier is read, the sort is not spelled like one. -/
structure Parameter.Legal (p : Parameter) : Prop where
  sort : IsIdentifier p.sort
  name : IsIdentifier p.name
  qualified : p.sort = "const" → p.isConst

instance (p : Parameter) : Decidable p.Legal :=
  decidable_of_iff (IsIdentifier p.sort ∧ IsIdentifier p.name ∧ (p.sort = "const" → p.isConst))
    ⟨fun ⟨hs, hx, hq⟩ => ⟨hs, hx, hq⟩, fun ⟨hs, hx, hq⟩ => ⟨hs, hx, hq⟩⟩

structure Constructor.Legal (c : Constructor) : Prop where
  name : IsIdentifier c.name
  base : ∀ x ∈ c.base, IsIdentifier x
  params : ∀ p ∈ c.params, p.Legal

instance (c : Constructor) : Decidable c.Legal :=
  decidable_of_iff (IsIdentifier c.name ∧ (∀ x ∈ c.base, IsIdentifier x) ∧ ∀ p ∈ c.params, p.Legal)
    ⟨fun ⟨hx, hb, hps⟩ => ⟨hx, hb, hps⟩, fun ⟨hx, hb, hps⟩ => ⟨hx, hb, hps⟩⟩

structure ClassRow.Legal (r : ClassRow) : Prop where
  tag : Grammar.IsRun ClassRule.isNameChar ClassRule.isNameChar r.tag.toList
  constructor : r.constructor.Legal
  description : Text.IsTrimmed r.description.toList
  description_inLine : ∀ c ∈ r.description.toList, Grammar.isInLine c

instance (r : ClassRow) : Decidable r.Legal :=
  decidable_of_iff (Grammar.IsRun ClassRule.isNameChar ClassRule.isNameChar r.tag.toList ∧
      r.constructor.Legal ∧ Text.IsTrimmed r.description.toList ∧
        r.description.toList.all Grammar.isInLine)
    ⟨fun ⟨ht, hc, hd, hl⟩ => ⟨ht, hc, hd, List.all_eq_true.mp hl⟩,
      fun ⟨ht, hc, hd, hl⟩ => ⟨ht, hc, hd, List.all_eq_true.mpr hl⟩⟩

namespace ClassRule

open Grammar

theorem isNameChar_of_isNameStart {c : Char} (h : isNameStart c) : isNameChar c := by
  simp only [isNameStart, isNameChar, Bool.or_eq_true, Char.isAlphanum] at h ⊢
  tauto

theorem isNameChar_const : ∀ c ∈ "const".toList, isNameChar c :=
  List.all_eq_true.mp (by decide)

theorem not_isBlank_of_isNameChar {c : Char} (h : isNameChar c) : ¬ Text.isBlank c := by
  have hc : 48 ≤ c.toNat ∧ c.toNat ≤ 122 := by
    simp only [isNameChar, Char.isAlphanum] at h
    delta Char.isAlpha Char.isUpper Char.isLower at h
    simp only [Char.isDigit, Bool.or_eq_true, Bool.and_eq_true, decide_eq_true_eq, beq_iff_eq,
      UInt32.le_iff_toNat_le] at h
    obtain h | rfl := h
    · simp only [Char.reduceVal, UInt32.reduceToNat, Char.toNat_val] at h
      omega
    · decide
  simp [Text.isBlank, Text.blankRanges]
  omega

def isLayout (c : Char) : Bool :=
  c = ' ' || c = '\t'

theorem isBlank_of_isLayout {c : Char} (h : isLayout c) : Text.isBlank c := by
  obtain rfl | rfl : c = ' ' ∨ c = '\t' := by simpa [isLayout] using h
  · decide
  · decide

def Flush (cs : List Char) : Prop :=
  ∀ c ∈ cs.head?, ¬ isLayout c

theorem layout_eq (cs : List Char) :
    layout cs = (cs.takeWhile isLayout, cs.dropWhile isLayout) :=
  List.span_eq_takeWhile_dropWhile isLayout cs

theorem layout_lossless (cs : List Char) : (layout cs).1 ++ (layout cs).2 = cs := by
  rw [layout_eq]
  exact List.takeWhile_append_dropWhile

theorem flush_layout (cs : List Char) : Flush (layout cs).2 := by
  rw [layout_eq]
  exact head?_dropWhile

theorem layout_append {gap rest : List Char} (hgap : ∀ c ∈ gap, isLayout c)
    (hrest : Flush rest) : layout (gap ++ rest) = (gap, rest) := by
  obtain ⟨hskipped, hstart⟩ := span_append hgap hrest
  rw [layout_eq, hskipped, hstart]

theorem layout_eq_nil {cs : List Char} (h : Flush cs) : layout cs = ([], cs) :=
  layout_append (show ∀ c ∈ [], isLayout c from by simp) h

theorem flush_of_isTrimmed {cs : List Char} (h : Text.IsTrimmed cs) : Flush cs :=
  fun c hc hlayout => h.1 c hc (isBlank_of_isLayout hlayout)

theorem flush_run {first : Char → Bool} {w : List Char} (hw : IsRun first isNameChar w)
    (rest : List Char) : Flush (w ++ rest) := by
  have hstart := hw.first
  cases w with
  | nil => simp at hstart
  | cons d w =>
    intro c hc hlayout
    obtain rfl := Option.some.inj hc
    exact not_isBlank_of_isNameChar (hw.all d List.mem_cons_self) (isBlank_of_isLayout hlayout)

end ClassRule

end PbesLab
