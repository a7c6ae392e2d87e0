import PbesLab.Proofs.EqSystem.Derivation

namespace PbesLab

open Grammar

/-- Words that are read up to where no name goes on. -/
def Token.isSharp (t : Token) : Bool :=
  t.isWord && !t.isBlunt

/-- A match is accounted for by derived tokens: whatever the rest reads as, the text reads as them
and what the rest reads as. -/
def Accounts (p : Pattern SystemRule) (cs rest : List Char) : Prop :=
  ∃ ts, Derives p ts ∧ ∀ us, Reads Token.isSharp us rest → Reads Token.isSharp (ts ++ us) cs

namespace Accounts

variable {p q : Pattern SystemRule} {cs mid rest : List Char}

theorem of_derives_nil (h : Derives p []) : Accounts p cs cs :=
  ⟨[], h, fun _ hus => hus⟩

theorem single {t : Token} (h : Derives p [t]) (hcs : cs = t.chars ++ rest)
    (hsharp : t.isSharp → SystemRule.NoName rest) : Accounts p cs rest := by
  refine ⟨[t], h, fun us hus => ⟨rest, ?_, hsharp, hus⟩⟩
  rw [hcs]
  exact SystemRule.skip_eq_self (t.flush_chars rest)

theorem map {p' : Pattern SystemRule} (h : Accounts p cs rest)
    (hp : ∀ ts, Derives p ts → Derives p' ts) : Accounts p' cs rest := by
  obtain ⟨ts, hts, hreads⟩ := h
  exact ⟨ts, hp ts hts, hreads⟩

theorem skip_iff : Accounts p (SystemRule.skip cs) rest ↔ Accounts p cs rest := by
  unfold Accounts
  simp only [reads_skip]

theorem append {r : Pattern SystemRule} (hp : Accounts p cs mid)
    (hq : Accounts q (SystemRule.skip mid) rest)
    (h : ∀ ts us, Derives p ts → Derives q us → Derives r (ts ++ us)) : Accounts r cs rest := by
  obtain ⟨ts, hts, hpre⟩ := hp
  obtain ⟨us, hus, hpost⟩ := skip_iff.mp hq
  refine ⟨ts ++ us, h ts us hts hus, fun vs hvs => ?_⟩
  rw [List.append_assoc]
  exact hpre _ (hpost _ hvs)

end Accounts

namespace SystemRule

def literalTokens : List Token :=
  Token.fixedTokens.filter fun t => !t.isSharp

/-- A lookahead for keywords and then one of the words `pbes` and `init`. -/
def isKeywordIs : Pattern SystemRule → Bool
  | .seq (.ahead (.rule keyword)) (.literal s) =>
      s = Keyword.pbes.text.toList || s = Keyword.init.text.toList
  | _ => false

def isOpen : Pattern SystemRule → Bool
  | .empty | .finish => true
  | .literal s => literalTokens.any (·.chars = s)
  | .rule r => r ≠ keyword
  | .seq p q => isKeywordIs (.seq p q) || isOpen p && isOpen q
  | .choice p q => isOpen p && isOpen q
  | .opt p | .many p => isOpen p
  | _ => false

theorem exists_of_isKeywordIs {p : Pattern SystemRule} (h : isKeywordIs p) :
    ∃ k : Keyword, k.text ∈ keywords ∧
      p = .seq (.ahead (.rule keyword)) (.literal k.text.toList) := by
  unfold isKeywordIs at h
  split at h
  · next s =>
    obtain rfl | rfl : s = Keyword.pbes.text.toList ∨ s = Keyword.init.text.toList := by
      simpa using h
    · exact ⟨.pbes, by decide, rfl⟩
    · exact ⟨.init, by decide, rfl⟩
  · cases h

theorem literalTokens_plain : ∀ t ∈ literalTokens, t.isFixed ∧ ¬ t.isSharp := by decide

theorem isOpen_body (r : SystemRule) (hr : r.atomic = false) : isOpen r.body := by
  cases r <;> revert hr <;> decide

variable {cs rest : List Char}

theorem eq_of_settles {r : SystemRule} {res : Result SystemRule} {depth : Nat}
    {parts : List (Grammar.Tree SystemRule)} (h : Settles rules false (.rule r) cs res)
    (hm : matchRule rules depth false r cs = .matched parts rest) : res = .matched parts rest := by
  obtain ⟨n, hn⟩ := Filter.eventually_atTop.mp h
  have hdeep := hn (max n depth) (le_max_left _ _)
  rw [matchPattern, matchRule_of_le (le_max_right _ _) (by simp [hm]), hm] at hdeep
  exact hdeep.symm

theorem accounts_identifier {depth : Nat} {parts : List (Grammar.Tree SystemRule)}
    (hm : matchRule rules depth false identifier cs = .matched parts rest) :
    Accounts (.rule identifier) cs rest := by
  by_cases h : isLegalName (String.ofList (word cs))
  · obtain ⟨-, rfl⟩ := Result.matched.inj (eq_of_settles (settles_identifier h) hm)
    have hchars : cs = (Token.name ⟨_, h⟩).chars ++ afterWord cs := by
      simp [Token.chars, word_append_afterWord]
    have hderives : Derives (.rule identifier) [.name ⟨_, h⟩] := .token rfl
    exact .single hderives hchars fun _ => noName_afterWord cs
  · cases eq_of_settles (settles_identifier_failed h) hm

theorem accounts_of_keywordOf? {r : SystemRule} {k : Keyword} (hk : keywordOf? r = some k)
    {depth : Nat} {parts : List (Grammar.Tree SystemRule)}
    (hm : matchRule rules depth false r cs = .matched parts rest) : Accounts (.rule r) cs rest := by
  by_cases h : word cs = k.text.toList
  · obtain ⟨-, rfl⟩ := Result.matched.inj (eq_of_settles (settles_of_keywordOf? hk h) hm)
    have hchars : cs = (Token.keyword k).chars ++ afterWord cs := by
      rw [Token.chars, ← h, word_append_afterWord]
    have hderives : Derives (.rule r) [.keyword k] := .token (decide_eq_true hk)
    exact .single hderives hchars fun _ => noName_afterWord cs
  · cases eq_of_settles (settles_of_keywordOf?_failed hk h) hm

theorem accounts_number {depth : Nat} {parts : List (Grammar.Tree SystemRule)}
    (hm : matchRule rules depth false number cs = .matched parts rest) :
    Accounts (.rule number) cs rest := by
  by_cases h : ∀ c ∈ cs.head?, ¬ c.isDigit
  · cases eq_of_settles (settles_number_failed h) hm
  · obtain ⟨c, cs, rfl, hc⟩ : ∃ c cs', cs = c :: cs' ∧ c.isDigit := by
      cases cs with
      | nil => simp at h
      | cons c cs => exact ⟨c, cs, rfl, by simpa using h⟩
    obtain ⟨-, rfl⟩ := Result.matched.inj (eq_of_settles (settles_number hc) hm)
    have hdigits : digits (c :: cs) = c :: digits cs := List.takeWhile_cons_of_pos hc
    let n : Numeral := ⟨digits (c :: cs), by simp [hdigits], fun d hd => List.mem_takeWhile_imp hd⟩
    have hchars : c :: cs = (Token.number n).chars ++ afterDigits (c :: cs) :=
      List.takeWhile_append_dropWhile.symm
    have hderives : Derives (.rule number) [.number n] := .token rfl
    exact .single hderives hchars (fun hsharp => by cases hsharp)

/-- The rules of single tokens, but for `keyword`, which stands in lookaheads only. -/
theorem accounts_atomic {r : SystemRule} (hr : r.atomic) (hk : r ≠ keyword) {depth : Nat}
    {parts : List (Grammar.Tree SystemRule)}
    (hm : matchRule rules depth false r cs = .matched parts rest) : Accounts (.rule r) cs rest := by
  cases r with
  | keyword => exact absurd rfl hk
  | identifier => exact accounts_identifier hm
  | number => exact accounts_number hm
  | mu | nu | all | ex | trueLit | falseLit => exact accounts_of_keywordOf? rfl hm
  | _ => cases hr

theorem flush_of_keyword (h : String.ofList (word cs) ∈ keywords) : Flush cs := by
  intro c hc
  apply Token.not_layout_of_isNameChar
  by_contra hname
  have hword : word cs = [] := by
    cases cs with
    | nil => cases hc
    | cons d cs =>
      obtain rfl := Option.some.inj hc
      exact List.takeWhile_cons_of_neg hname
  rw [hword] at h
  revert h
  decide

/-- Where a keyword is ahead and a keyword is read, no name goes on behind it. -/
theorem accounts_keywordIs {k : Keyword} (hk : k.text ∈ keywords) {depth : Nat}
    {parts : List (Grammar.Tree SystemRule)}
    (hm : matchPattern rules (matchRule rules depth) false
      (.seq (.ahead (.rule keyword)) (.literal k.text.toList)) cs = .matched parts rest) :
    Accounts (.seq (.ahead (.rule keyword)) (.literal k.text.toList)) cs rest := by
  obtain ⟨xs, mid, ys, hahead, hlit, -⟩ := matchPattern_seq_eq_matched.mp hm
  obtain ⟨_, _, hkey, hmid⟩ := Result.andThen_eq_matched.mp hahead
  obtain ⟨-, rfl⟩ := Result.matched.inj hmid
  have hword : String.ofList (word cs) ∈ keywords := by
    by_contra hno
    cases eq_of_settles (settles_keyword_failed hno) hkey
  simp only [matchPattern] at hlit
  split at hlit
  · next after hd =>
    obtain ⟨-, rfl⟩ := Result.matched.inj hlit
    -- a keyword starts right here, so the gap before the literal is empty
    have hskip : skip cs = k.text.toList ++ after := dropText?_eq_some.mp hd
    have hcs : cs = k.text.toList ++ after := by
      rw [← hskip, skip_eq_self (flush_of_keyword hword)]
    have heq : word cs = k.text.toList := by
      rw [hcs] at hword ⊢
      exact word_eq_of_mem_keywords hk hword
    have hafter : afterWord cs = after := by
      have hsplit := word_append_afterWord cs
      rw [heq] at hsplit
      exact List.append_cancel_left (hsplit.trans hcs)
    have hderives : Derives (.literal k.text.toList) [.keyword k] :=
      .literal (t := .keyword k) rfl
    exact .single (.seq .ahead hderives) hcs fun _ => hafter ▸ noName_afterWord cs
  · cases hlit

/-- Repeated matches are accounted for by a repetition of what accounts for each. -/
theorem accounts_repeated {p : Pattern SystemRule} {step : List Char → Result SystemRule}
    (hstep : ∀ cs rest parts, step cs = .matched parts rest → Accounts p cs rest)
    {allowance : List Char} {parts : List (Grammar.Tree SystemRule)}
    (h : repeatStep (gap rules false) step allowance cs = .matched parts rest) :
    Accounts (.many p) cs rest := by
  induction allowance generalizing cs parts with
  | nil =>
    obtain ⟨-, rfl⟩ := Result.matched.inj h
    exact .of_derives_nil .manyNil
  | cons a allowance ih =>
    obtain ⟨-, -, rfl⟩ | ⟨xs, mid, ys, hxs, hys, -⟩ := repeatStep_cons_eq_matched.mp h
    · exact .of_derives_nil .manyNil
    · have hfirst : Accounts p cs mid := Accounts.skip_iff.mp (hstep _ _ _ hxs)
      exact hfirst.append (Accounts.skip_iff.mpr (ih hys)) fun _ _ => .manyCons

section Open

variable {depth : Nat}
  (hcall : ∀ r, r ≠ keyword → ∀ cs rest parts,
    matchRule rules depth false r cs = .matched parts rest → Accounts (.rule r) cs rest)
include hcall

theorem accounts_open {p : Pattern SystemRule} (hp : isOpen p)
    {parts : List (Grammar.Tree SystemRule)}
    (hm : matchPattern rules (matchRule rules depth) false p cs = .matched parts rest) :
    Accounts p cs rest := by
  induction p generalizing cs rest parts with
  | empty =>
    obtain ⟨-, rfl⟩ := Result.matched.inj hm
    exact .of_derives_nil .empty
  | finish =>
    simp only [matchPattern] at hm
    split at hm
    · obtain ⟨-, rfl⟩ := Result.matched.inj hm
      exact .of_derives_nil .finish
    · cases hm
  | literal s =>
    obtain ⟨t, ht, rfl⟩ : ∃ t ∈ literalTokens, t.chars = s := by simpa [isOpen] using hp
    obtain ⟨hfixed, hsharp⟩ := literalTokens_plain t ht
    simp only [matchPattern] at hm
    split at hm
    · next hd =>
      obtain ⟨-, rfl⟩ := Result.matched.inj hm
      exact .single (.literal hfixed) (dropText?_eq_some.mp hd) fun h => absurd h hsharp
    · cases hm
  | rule r => exact hcall r (by simpa [isOpen] using hp) _ _ _ hm
  | seq p q ihp ihq =>
    -- the lookahead of `pbes` and `init` accounts for nothing on its own
    obtain hkey | ⟨hp, hq⟩ : isKeywordIs (.seq p q) ∨ isOpen p ∧ isOpen q := by
      simpa [isOpen] using hp
    · obtain ⟨k, hk, hpq⟩ := exists_of_isKeywordIs hkey
      rw [hpq] at hm ⊢
      exact accounts_keywordIs hk hm
    · obtain ⟨xs, mid, ys, hxs, hys, -⟩ := matchPattern_seq_eq_matched.mp hm
      exact (ihp hp hxs).append (ihq hq hys) fun _ _ => .seq
  | choice p q ihp ihq =>
    obtain ⟨hp, hq⟩ : isOpen p ∧ isOpen q := by simpa [isOpen] using hp
    simp only [matchPattern] at hm
    split at hm
    · exact (ihq hq hm).map fun _ => .choiceRight
    · exact (ihp hp hm).map fun _ => .choiceLeft
  | opt p ih =>
    simp only [matchPattern] at hm
    split at hm
    · obtain ⟨-, rfl⟩ := Result.matched.inj hm
      exact .of_derives_nil .optNone
    · exact (ih hp hm).map fun _ => .optSome
  | many p ih =>
    obtain ⟨-, -, rfl⟩ | ⟨xs, mid, ys, hxs, hys, -⟩ := matchPattern_many_eq_matched.mp hm
    · exact .of_derives_nil .manyNil
    · have hmore := accounts_repeated (fun _ _ _ => ih hp) hys
      exact (ih hp hxs).append (Accounts.skip_iff.mpr hmore) fun _ _ => .manyCons
  | oneOf | lineEnd | ahead | notAhead => cases hp

end Open

theorem accounts_rule {depth : Nat} {r : SystemRule} (hr : r ≠ keyword)
    {parts : List (Grammar.Tree SystemRule)}
    (hm : matchRule rules depth false r cs = .matched parts rest) : Accounts (.rule r) cs rest := by
  induction depth generalizing r cs rest parts with
  | zero => cases hm
  | succ depth ih =>
    cases hatomic : r.atomic with
    | true => exact accounts_atomic hatomic hr hm
    | false =>
      obtain ⟨xs, mid, hbody, hk⟩ := Result.andThen_eq_matched.mp hm
      obtain ⟨-, rfl⟩ := Result.matched.inj hk
      have hopen : matchPattern rules (matchRule rules depth) false r.body cs =
          .matched xs mid := by
        rw [← hbody]
        exact congrArg (matchPattern rules (matchRule rules depth) · r.body cs) hatomic.symm
      exact (accounts_open (fun _ hr _ _ _ => ih hr) (isOpen_body r hatomic) hopen).map
        fun _ => .rule hatomic

/-- A match of a whole system leaves nothing. -/
theorem eq_nil_of_system {depth : Nat} {parts : List (Grammar.Tree SystemRule)}
    (hm : matchRule rules depth false system cs = .matched parts rest) : rest = [] := by
  cases depth with
  | zero => cases hm
  | succ depth =>
    obtain ⟨xs, mid, hbody, hk⟩ := Result.andThen_eq_matched.mp hm
    obtain ⟨-, rfl⟩ := Result.matched.inj hk
    obtain ⟨_, _, _, -, hkeyword, -⟩ := matchPattern_seq_eq_matched.mp hbody
    obtain ⟨_, _, _, -, hequations, -⟩ := matchPattern_seq_eq_matched.mp hkeyword
    obtain ⟨_, _, _, -, hinit, -⟩ := matchPattern_seq_eq_matched.mp hequations
    obtain ⟨_, after, _, -, hend, -⟩ := matchPattern_seq_eq_matched.mp hinit
    cases depth with
    | zero => cases hend
    | succ depth =>
      obtain ⟨_, _, hfinish, hk⟩ := Result.andThen_eq_matched.mp hend
      obtain ⟨-, rfl⟩ := Result.matched.inj hk
      change (if (skip after).isEmpty then Result.matched [] (skip after) else .failed) = _
        at hfinish
      split at hfinish
      · next hnil =>
        obtain ⟨-, rfl⟩ := Result.matched.inj hfinish
        exact List.isEmpty_iff.mp hnil
      · cases hfinish

end SystemRule

/-- A text that has a tree spells tokens that the grammar derives. -/
theorem EqSystem.exists_tokens_of_tree {text : String} {t : Grammar.Tree SystemRule}
    (h : EqSystem.tree text = .ok t) :
    ∃ ts, IsSpelled ts text.toList ∧ Derives (.rule .system) ts := by
  unfold EqSystem.tree at h
  split at h
  · next hread =>
    unfold read? at hread
    split at hread
    · next t' parts rest hm =>
      obtain rfl := SystemRule.eq_nil_of_system hm
      obtain ⟨ts, hts, hreads⟩ := SystemRule.accounts_rule (by decide) hm
      have hall : Reads Token.isSharp (ts ++ []) text.toList := hreads [] rfl
      rw [List.append_nil] at hall
      refine ⟨ts, hall.isSpelled ?_, hts⟩
      refine (hts.isChain rfl).imp fun t u hblunt ht hu => ?_
      have hno : ¬ t.isBlunt := fun hb => hblunt hb hu
      simp [Token.isSharp, ht, hno]
    · cases hread
  · cases h

end PbesLab
