import PbesLab.Proofs.EqSystem.Derivation
import PbesLab.Proofs.EqSystem.Intake

namespace PbesLab

open Grammar SystemRule
open Grammar.Tree (leaves meaningsOf meaningsOf_leaves meaningsOf_node)

def Follows (test : Token → Bool) (us : List Token) : Prop :=
  ∀ t ∈ us.head?, test t

@[simp] theorem follows_cons {test : Token → Bool} {t : Token} {us : List Token} :
    Follows test (t :: us) ↔ test t := by
  simp [Follows]

theorem Follows.mono {test test' : Token → Bool} {us : List Token} (h : Follows test us)
    (hle : ∀ t, test t → test' t) : Follows test' us :=
  fun t ht => hle t (h t ht)

def leadingWord : List Token → List Char
  | t :: _ => if t.isWord then t.chars else []
  | [] => []

theorem Reads.word {us : List Token} {cs : List Char} (h : Reads Token.isWord us cs) :
    word (skip cs) = leadingWord us := by
  cases us with
  | nil =>
    have hskip : skip cs = [] := h
    rw [hskip]
    rfl
  | cons t us =>
    obtain ⟨rest, hskip, hnoname, -⟩ := h
    rw [hskip, leadingWord]
    cases ht : t.isWord with
    | true => exact (word_append (Token.isNameChar_of_isWord ht).2 (hnoname ht)).1
    | false =>
      obtain ⟨c, cs', hc, -, -, hn⟩ := t.exists_chars
      have hname : ¬ isNameChar c := by simp [hn, ht]
      rw [hc]
      exact List.takeWhile_cons_of_neg hname

theorem Reads.afterWord {t : Token} {us : List Token} {cs : List Char}
    (h : Reads Token.isWord (t :: us) cs) (ht : t.isWord) :
    Reads Token.isWord us (afterWord (skip cs)) := by
  obtain ⟨rest, hskip, hnoname, hrest⟩ := h
  rw [hskip, (word_append (Token.isNameChar_of_isWord ht).2 (hnoname ht)).2]
  exact hrest

theorem not_isDigit_keyword (k : Keyword) : ∀ c ∈ k.text.toList, ¬ c.isDigit := by
  have hall : k.text.toList.all fun c => !c.isDigit := by cases k <;> decide
  simpa using hall

theorem not_isNameStart_of_isDigit {c : Char} (h : c.isDigit) : ¬ isNameStart c := by
  have hdigit : c.val.toNat ≤ 57 := of_decide_eq_true (Bool.and_eq_true_iff.mp h).2
  intro hs
  obtain hs | hs : c.isAlpha ∨ c = '_' := by simpa [isNameStart] using hs
  · obtain hs | hs := Bool.or_eq_true_iff.mp hs
    · have hupper : 65 ≤ c.val.toNat := (of_decide_eq_true hs).1
      omega
    · have hlower : 97 ≤ c.val.toNat := of_decide_eq_true (Bool.and_eq_true_iff.mp hs).1
      omega
  · subst hs
    exact absurd hdigit (by decide)

theorem not_mem_keywords {x : String} (h : isLegalName x) : x ∉ keywords := by
  rw [← x.ofList_toList] at h ⊢
  exact (isLegalName_ofList.mp h).2

theorem Token.standsFor_number {t : Token} {c : Char} {cs : List Char} (hc : t.chars = c :: cs)
    (hdigit : c.isDigit) : t.standsFor .number := by
  cases t with
  | number n => rfl
  | name x =>
    have h : isLegalName (String.ofList (c :: cs)) := by
      rw [← hc]
      exact x.val.ofList_toList.symm ▸ x.property
    obtain ⟨⟨d, _, hd, hstart, -⟩, -⟩ := isLegalName_ofList.mp h
    obtain rfl := (List.cons.inj hd).1
    exact absurd hstart (not_isNameStart_of_isDigit hdigit)
  | keyword k =>
    have hmem : c ∈ k.text.toList := by
      rw [Token.chars] at hc
      rw [hc]
      exact List.mem_cons_self
    exact absurd hdigit (not_isDigit_keyword k c hmem)
  | mark m =>
    obtain ⟨d, _, hd, -, -, hn⟩ := Token.exists_chars_mark m
    obtain rfl := (List.cons.inj (hc.symm.trans hd)).1
    exact absurd (Token.isNameChar_of_isDigit hdigit) hn

theorem isLegalName_leadingWord {us : List Token} :
    isLegalName (String.ofList (leadingWord us)) → ∃ x, us.head? = some (.name x) := by
  intro h
  cases us with
  | nil => cases h
  | cons t us =>
    cases t with
    | name x => exact ⟨x, rfl⟩
    | keyword k =>
      change isLegalName (String.ofList k.text.toList) at h
      rw [String.ofList_toList] at h
      exact absurd (text_mem_keywords k) (not_mem_keywords h)
    | number n =>
      obtain ⟨⟨c, cs, hn, hstart, -⟩, -⟩ := isLegalName_ofList.mp h
      have hdigit : c.isDigit := n.property.2 c (by
        change n.val = c :: cs at hn
        rw [hn]
        exact List.mem_cons_self)
      exact absurd hstart (not_isNameStart_of_isDigit hdigit)
    | mark m => cases h

theorem eq_keyword_of_leadingWord {us : List Token} {k : Keyword}
    (h : leadingWord us = k.text.toList) : us.head? = some (.keyword k) := by
  have hne : k.text.toList ≠ [] := by cases k <;> decide
  cases us with
  | nil => exact absurd h.symm hne
  | cons t us =>
    cases t with
    | keyword k' =>
      exact congrArg some (Token.eq_of_chars_eq (t := .keyword k') (u := .keyword k) rfl rfl h)
    | name x =>
      have hx : x.val = k.text := String.toList_inj.mp h
      exact absurd (hx ▸ text_mem_keywords k) (not_mem_keywords x.property)
    | number n =>
      have hn : n.val = k.text.toList := h
      obtain ⟨c, cs, hc⟩ := List.exists_cons_of_ne_nil n.property.1
      have hmem : c ∈ n.val := hc ▸ List.mem_cons_self
      exact absurd (n.property.2 c hmem) (not_isDigit_keyword k c (hn ▸ hmem))
    | mark m => exact absurd h.symm hne

def Token.meaning : Token → Meaning
  | keyword .mu => .fixpoint .mu
  | keyword .nu => .fixpoint .nu
  | keyword .all => .quantifier .all
  | keyword .ex => .quantifier .ex
  | keyword .true => .formula (.const true)
  | keyword .false => .formula (.const false)
  | name x => .name x.val
  | number n => .data (.nat n.value)
  | _ => .nothing

variable {us : List Token}

theorem takes_identifier (x : LegalName) : Takes (.rule identifier) [.name x] [.name x.val] us := by
  intro cs hcs
  have hword : word (skip cs) = x.val.toList := hcs.word
  have hlegal : isLegalName (String.ofList (word (skip cs))) := by
    rw [hword, String.ofList_toList]
    exact x.property
  refine ⟨_, _, settles_identifier hlegal, ?_, hcs.afterWord rfl⟩
  have hleaves : meaningsOf Meaning.ofNode? (leaves (word (skip cs))) =
      Yield [.name x] [] := meaningsOf_leaves _
  refine meaningsOf_node_eq hleaves ?_
  rw [hword]
  simp [Meaning.ofNode?]

theorem takes_of_keywordOf? {r : SystemRule} {k : Keyword} (hk : keywordOf? r = some k) :
    Takes (.rule r) [.keyword k] [(Token.keyword k).meaning] us := by
  intro cs hcs
  refine ⟨_, _, settles_of_keywordOf? hk hcs.word, ?_, hcs.afterWord rfl⟩
  refine meaningsOf_node_eq (m := (Token.keyword k).meaning) (meaningsOf_leaves _) ?_
  cases r <;> cases hk <;> rfl

theorem takes_number (n : Numeral) :
    Takes (.rule number) [.number n] [.data (.nat n.value)] us := by
  intro cs hcs
  obtain ⟨rest, hskip, hnoname, hrest⟩ := hcs
  have hnodigit : ∀ c ∈ rest.head?, ¬ c.isDigit := fun c hc hd =>
    hnoname rfl c hc (Token.isNameChar_of_isDigit hd)
  have hdigits : digits (skip cs) = n.val ∧ afterDigits (skip cs) = rest := by
    rw [hskip]
    exact span_append n.property.2 hnodigit
  have hsettles : Settles rules false (.rule number) (skip cs)
      (.matched [.node number (leaves n.val)] rest) := by
    obtain ⟨c, ds, hn⟩ := List.exists_cons_of_ne_nil n.property.1
    have hc : c.isDigit := n.property.2 c (by rw [hn]; exact List.mem_cons_self)
    have hstart : skip cs = c :: (ds ++ rest) := by
      rw [hskip, Token.chars, hn, List.cons_append]
    rw [← hdigits.1, ← hdigits.2, hstart]
    exact settles_number hc
  refine ⟨_, _, hsettles, ?_, hrest⟩
  rw [meaningsOf_node, meaningsOf_leaves]
  simp only [Except.bind, Meaning.ofNode?, Grammar.Tree.textOf_leaves, Meaning.number?, Yield,
    List.all_cons, List.all_nil, Token.fits, Bool.and_true, decide_eq_true_eq]
  by_cases hfits : Nat.ofDigitChars 10 n.val 0 < UInt32.size
  · simp only [if_pos hfits]
    rfl
  · simp only [if_neg hfits]
    rfl

/-- A rule of a single token takes each token that stands for it. -/
theorem takes_token {r : SystemRule} {t : Token} (h : t.standsFor r) :
    Takes (.rule r) [t] [t.meaning] us := by
  cases t with
  | keyword k => exact takes_of_keywordOf? (by simpa [Token.standsFor] using h)
  | name x =>
    obtain rfl : r = identifier := by simpa [Token.standsFor] using h
    exact takes_identifier x
  | number n =>
    obtain rfl : r = number := by simpa [Token.standsFor] using h
    exact takes_number n
  | mark m => cases h

/-- It refuses every other token. -/
theorem refuses_token {r : SystemRule} (hr : r.atomic) (hk : r ≠ keyword)
    (h : Follows (fun t => !t.standsFor r) us) : Refuses (.rule r) us := by
  intro cs hcs
  have hno {t : Token} (ht : us.head? = some t) : ¬ t.standsFor r := by simpa using h t ht
  have hkeyword {k : Keyword} (hk : keywordOf? r = some k) :
      Settles rules false (.rule r) (skip cs) .failed := by
    apply settles_of_keywordOf?_failed hk
    rw [hcs.word]
    exact fun hw => hno (eq_keyword_of_leadingWord hw) (decide_eq_true hk)
  cases r with
  | keyword => exact absurd rfl hk
  | identifier =>
    apply settles_identifier_failed
    rw [hcs.word]
    intro hlegal
    obtain ⟨x, hx⟩ := isLegalName_leadingWord hlegal
    exact hno hx rfl
  | number =>
    apply settles_number_failed
    intro c hc hdigit
    cases us with
    | nil =>
      have hskip : skip cs = [] := hcs
      rw [hskip] at hc
      cases hc
    | cons t us =>
      obtain ⟨rest, hskip, -⟩ := hcs
      obtain ⟨d, ds, hchars, -⟩ := t.exists_chars
      rw [hskip, hchars] at hc
      obtain rfl := Option.some.inj hc
      exact hno rfl (Token.standsFor_number hchars hdigit)
  | mu | nu | all | ex | trueLit | falseLit => exact hkeyword rfl
  | _ => cases hr

theorem takes_ahead_keyword (k : Keyword) :
    Takes (.ahead (.rule keyword)) [] [] (.keyword k :: us) := by
  intro cs hcs
  have hword : word (skip cs) = k.text.toList := hcs.word
  have hmem : String.ofList (word (skip cs)) ∈ keywords := by
    rw [hword, String.ofList_toList]
    exact text_mem_keywords k
  have hkeyword : ∃ parts, Settles rules false (.rule keyword) (skip cs)
      (.matched parts (afterWord (skip cs))) := settles_keyword hmem
  obtain ⟨parts, hparts⟩ := hkeyword
  exact ⟨[], skip cs, hparts.ahead, rfl, reads_skip.mpr hcs⟩

/-- Neither text is the start of the other. -/
def Token.clashes (m : Mark) : Token → Bool
  | mark m' => m.text.toList <+: m'.text.toList || m'.text.toList <+: m.text.toList
  | _ => false

theorem refuses_literal {s : List Char} (hs : s ≠ [])
    (h : ∀ t ∈ us.head?, ¬ s <+: t.chars ∧ ¬ t.chars <+: s) : Refuses (.literal s) us := by
  intro cs hcs
  apply Settles.literal_failed
  cases us with
  | nil =>
    have hskip : skip cs = [] := hcs
    rw [hskip, List.prefix_nil]
    exact hs
  | cons t us =>
    obtain ⟨rest, hskip, -⟩ := hcs
    obtain ⟨hst, hts⟩ := h t rfl
    intro hpre
    have ht : t.chars <+: skip cs := ⟨rest, hskip.symm⟩
    obtain hle | hle := List.prefix_or_prefix_of_prefix hpre ht
    · exact hst hle
    · exact hts hle

theorem refuses_mark {m : Mark} (h : Follows (fun t => !t.clashes m) us) :
    Refuses (.word m.text) us := by
  obtain ⟨c, rest, hm, -, -, hname⟩ := Token.exists_chars_mark m
  refine refuses_literal (by rw [hm]; exact List.cons_ne_nil _ _) fun t ht => ?_
  cases hw : t.isWord with
  | true =>
    obtain ⟨hne, hchars⟩ := Token.isNameChar_of_isWord hw
    obtain ⟨d, ds, hd⟩ := List.exists_cons_of_ne_nil hne
    have hcd : c ≠ d := by
      rintro rfl
      exact hname (hchars c (by rw [hd]; exact List.mem_cons_self))
    rw [hm, hd]
    simp [List.cons_prefix_cons, hcd, hcd.symm]
  | false =>
    cases t with
    | mark m' => simpa [Token.clashes, Token.chars] using h _ ht
    | keyword | name | number => cases hw

theorem takes_mark_rule {r : SystemRule} {m : Mark} {y : Meaning} (hr : r.atomic = false)
    (hbody : r.body = .word m.text) (hy : ∀ parts, Meaning.ofNode? r parts [] = some y) :
    Takes (.rule r) [.mark m] [y] us := by
  refine Takes.rule hr ?_ hy
  rw [hbody]
  exact .mark m

/-- A name may start with the letters of `val`, but then no parenthesis follows them. -/
theorem refuses_val (h : us.head? ≠ some (.keyword .val)) : Refuses (.rule val) us := by
  refine Refuses.rule rfl fun cs hcs => ?_
  by_cases hpre : Keyword.val.text.toList <+: skip cs
  · obtain ⟨rest, hrest⟩ := hpre
    -- otherwise the word would be `val` itself
    have hname : ¬ NoName rest := by
      intro hno
      have hword := (word_append (isNameChar_keyword .val) hno).1
      rw [hrest, hcs.word] at hword
      exact h (eq_keyword_of_leadingWord hword)
    obtain ⟨c, rest, rfl, hc⟩ : ∃ c rest', rest = c :: rest' ∧ isNameChar c := by
      cases rest with
      | nil => exact absurd (by simp [NoName]) hname
      | cons c rest => exact ⟨c, rest, rfl, by simpa [NoName] using hname⟩
    obtain ⟨hblank, hpercent⟩ := Token.not_layout_of_isNameChar hc
    have hskip : skip (c :: rest) = c :: rest := skip_eq_self (by simp [Flush, hblank, hpercent])
    have hopening : ¬ ['('] <+: c :: rest := by
      rw [List.cons_prefix_cons]
      rintro ⟨rfl, -⟩
      exact absurd hc (by decide)
    have hparens : Settles rules false (parenthesised (.rule dataExpr)) (skip (c :: rest))
        .failed := by
      rw [hskip]
      exact .seq_failed (.literal_failed hopening)
    have hval : Settles rules false (.literal Keyword.val.text.toList)
        (Keyword.val.text.toList ++ c :: rest)
        (.matched (leaves Keyword.val.text.toList) (c :: rest)) := .literal
    rw [← hrest]
    exact hval.seq hparens
  · exact .seq_failed (.literal_failed hpre)

end PbesLab
