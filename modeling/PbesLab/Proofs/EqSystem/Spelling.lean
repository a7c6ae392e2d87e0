import PbesLab.Proofs.EqSystem.Words
import Mathlib.Data.List.Chain

namespace PbesLab

open SystemRule

namespace Token

theorem exists_chars_mark (m : Mark) : ∃ c rest, m.text.toList = c :: rest ∧
    ¬ isBlank c ∧ c ≠ '%' ∧ ¬ isNameChar c := by
  cases m <;> exact ⟨_, _, rfl, by decide, by decide, by decide⟩

theorem isNameChar_of_isDigit {c : Char} (h : c.isDigit) : isNameChar c := by
  simp [isNameChar, Char.isAlphanum, h]

theorem isNameChar_of_isWord {t : Token} (ht : t.isWord) :
    t.chars ≠ [] ∧ ∀ c ∈ t.chars, isNameChar c := by
  cases t with
  | keyword k => exact ⟨by cases k <;> decide, isNameChar_keyword k⟩
  | name x =>
    have h : isLegalName (String.ofList x.val.toList) := by
      rw [String.ofList_toList]
      exact x.property
    obtain ⟨⟨c, rest, hx, hc, hrest⟩, -⟩ := isLegalName_ofList.mp h
    change x.val.toList ≠ [] ∧ ∀ c ∈ x.val.toList, isNameChar c
    rw [hx]
    refine ⟨by simp, ?_⟩
    intro d hd
    obtain rfl | hd := List.mem_cons.mp hd
    · exact isNameChar_of_isNameStart hc
    · exact hrest d hd
  | number n => exact ⟨n.property.1, fun c hc => isNameChar_of_isDigit (n.property.2 c hc)⟩
  | mark m => cases ht

theorem not_layout_of_isNameChar {c : Char} (h : isNameChar c) : ¬ isBlank c ∧ c ≠ '%' := by
  constructor
  · intro hb
    have hc : c = ' ' ∨ c = '\t' ∨ c = '\n' ∨ c = '\r' := by
      simpa [isBlank, isLineEnd, or_assoc] using hb
    obtain rfl | rfl | rfl | rfl := hc <;> exact absurd h (by decide)
  · rintro rfl
    exact absurd h (by decide)

/-- A token starts with a character that is no layout, and a word with one of its own kind. -/
theorem exists_chars (t : Token) : ∃ c rest, t.chars = c :: rest ∧ ¬ isBlank c ∧ c ≠ '%' ∧
    (isNameChar c ↔ t.isWord) := by
  cases ht : t.isWord with
  | true =>
    obtain ⟨hne, hchars⟩ := isNameChar_of_isWord ht
    obtain ⟨c, rest, h⟩ := List.exists_cons_of_ne_nil hne
    have hc := hchars c (by simp [h])
    obtain ⟨hb, hp⟩ := not_layout_of_isNameChar hc
    exact ⟨c, rest, h, hb, hp, by simp [hc]⟩
  | false =>
    cases t with
    | mark m =>
      obtain ⟨c, rest, h, hb, hp, hn⟩ := exists_chars_mark m
      exact ⟨c, rest, h, hb, hp, by simp [hn]⟩
    | keyword k | name x | number n => cases ht

theorem flush_chars (t : Token) (cs : List Char) : Flush (t.chars ++ cs) := by
  obtain ⟨c, rest, h, hb, hp, -⟩ := t.exists_chars
  simp [h, Flush, hb, hp]

end Token

/-- The tokens of a text to its end, each after layout. No name goes on behind a token that is
marked as sharp. -/
def Reads (sharp : Token → Bool) : List Token → List Char → Prop
  | [], cs => skip cs = []
  | t :: ts, cs => ∃ rest, skip cs = t.chars ++ rest ∧ (sharp t → NoName rest) ∧ Reads sharp ts rest

theorem reads_skip {sharp : Token → Bool} {ts : List Token} {cs : List Char} :
    Reads sharp ts (skip cs) ↔ Reads sharp ts cs := by
  cases ts <;> simp [Reads]

theorem noName_of_layout {gap rest : List Char} (h : Layout gap rest) (hne : gap ≠ []) :
    NoName (gap ++ rest) := by
  intro c hc hname
  obtain ⟨hb, hp⟩ := Token.not_layout_of_isNameChar hname
  cases h with
  | nil => exact hne rfl
  | blank hblank =>
    obtain rfl := Option.some.inj hc
    exact hb hblank
  | comment =>
    obtain rfl := Option.some.inj hc
    exact hp rfl

theorem Spells.layout {ts : List Token} {gap body : List Char} (h : Spells ts gap body) :
    Layout gap body := by
  cases h with
  | nil h => exact h
  | cons before => exact before

theorem Spells.flush {ts : List Token} {gap body : List Char} (h : Spells ts gap body) :
    Flush body := by
  cases h with
  | nil => simp [Flush]
  | @cons t =>
    rw [List.append_assoc]
    exact t.flush_chars _

/-- Where nothing stands between a word and what follows, no name goes on. -/
theorem Spells.noName {ts : List Token} {gap body : List Char} (h : Spells ts gap body)
    (apart : ∀ u ∈ ts.head?, u.isWord → gap ≠ []) : NoName (gap ++ body) := by
  by_cases hgap : gap = []
  · -- nothing stands between, so what follows is no word
    subst hgap
    cases h with
    | nil => simp [NoName]
    | @cons u =>
      have hu : ¬ u.isWord := fun hu => apart u rfl hu rfl
      obtain ⟨c, rest, hc, -, -, hn⟩ := u.exists_chars
      have hname : ¬ isNameChar c := fun hname => hu (hn.mp hname)
      simp [NoName, hc, hname]
  · exact noName_of_layout h.layout hgap

theorem Spells.reads {ts : List Token} {gap body : List Char} (h : Spells ts gap body) :
    Reads Token.isWord ts (gap ++ body) := by
  have hskip := skip_append h.layout h.flush
  induction h with
  | nil h => exact hskip
  | @cons t ts gap next body before after apart ih =>
    refine ⟨next ++ body, ?_, ?_, ?_⟩
    · rw [hskip, List.append_assoc]
    · exact fun ht => after.noName (apart ht)
    · exact ih (skip_append after.layout after.flush)

theorem IsSpelled.reads {ts : List Token} {cs : List Char} (h : IsSpelled ts cs) :
    Reads Token.isWord ts cs := by
  obtain ⟨gap, body, rfl, hspells⟩ := h
  exact hspells.reads

/-- Words that stand side by side among the tokens are apart if the first is sharp. -/
theorem Reads.isSpelled {sharp : Token → Bool} {ts : List Token} {cs : List Char}
    (h : Reads sharp ts cs)
    (hsharp : ts.IsChain fun t u => t.isWord → u.isWord → sharp t) : IsSpelled ts cs := by
  refine ⟨(SystemRule.layout cs).1, skip cs, (layout_lossless cs).symm, ?_⟩
  induction ts generalizing cs with
  | nil =>
    have hskip : skip cs = [] := h
    have hlay := (layout_spec cs).2.1
    change Layout _ (skip cs) at hlay
    rw [hskip] at hlay ⊢
    exact .nil hlay
  | cons t ts ih =>
    obtain ⟨rest, hskip, hnoname, hrest⟩ := h
    have hsplit : (SystemRule.layout rest).1 ++ skip rest = rest := layout_lossless rest
    have hlay := (layout_spec cs).2.1
    change Layout _ (skip cs) at hlay
    have hbody : skip cs = t.chars ++ (SystemRule.layout rest).1 ++ skip rest := by
      rw [hskip, List.append_assoc, hsplit]
    rw [hbody] at hlay ⊢
    refine .cons hlay (ih hrest hsharp.tail) ?_
    -- without a gap the next word would go on right behind this one
    intro ht u hu hword hgap
    cases ts with
    | nil => cases hu
    | cons v ts =>
      obtain rfl : v = u := Option.some.inj hu
      have hv := (List.isChain_cons_cons.mp hsharp).1 ht hword
      obtain ⟨rest', hskip', -⟩ := hrest
      obtain ⟨c, cs', hc, -, -, hn⟩ := v.exists_chars
      rw [hgap, List.nil_append, hskip', hc] at hsplit
      refine hnoname hv c ?_ (hn.mpr hword)
      rw [← hsplit]
      rfl

theorem isSpelled_iff_reads {ts : List Token} {cs : List Char} :
    IsSpelled ts cs ↔ Reads Token.isWord ts cs :=
  ⟨IsSpelled.reads, fun h => h.isSpelled (List.pairwise_of_forall fun _ _ ht _ => ht).isChain⟩

theorem reads_cons {sharp : Token → Bool} {t : Token} {ts : List Token} {cs : List Char} :
    Reads sharp (t :: ts) cs ↔ t.chars <+: skip cs ∧
      (sharp t → NoName ((skip cs).drop t.chars.length)) ∧
        Reads sharp ts ((skip cs).drop t.chars.length) := by
  constructor
  · rintro ⟨rest, hskip, hno, hrest⟩
    rw [hskip, List.drop_left]
    exact ⟨List.prefix_append _ _, hno, hrest⟩
  · rintro ⟨⟨rest, hskip⟩, hno, hrest⟩
    rw [← hskip, List.drop_left] at hno hrest
    exact ⟨rest, hskip.symm, hno, hrest⟩

-- the next character alone is looked at: the search for instances may run through all of them
instance NoName.decidable (cs : List Char) : Decidable (NoName cs) :=
  Option.decidableForallMem cs.head?

instance Reads.decidable (sharp : Token → Bool) :
    (ts : List Token) → (cs : List Char) → Decidable (Reads sharp ts cs)
  | [], cs => inferInstanceAs (Decidable (skip cs = []))
  | _ :: ts, _ =>
    have := Reads.decidable sharp ts
    decidable_of_iff _ reads_cons.symm

instance IsSpelled.decidable (ts : List Token) (cs : List Char) : Decidable (IsSpelled ts cs) :=
  decidable_of_iff _ isSpelled_iff_reads.symm

end PbesLab
