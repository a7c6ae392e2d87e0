import PbesLab.Proofs.EqSystem.Token
import PbesLab.Proofs.Grammar.Runs
import PbesLab.Proofs.Grammar.Settling

namespace PbesLab.SystemRule

open Grammar
open Grammar.Tree (leaves)

def word (cs : List Char) : List Char :=
  cs.takeWhile isNameChar

def afterWord (cs : List Char) : List Char :=
  cs.dropWhile isNameChar

def NoName (cs : List Char) : Prop :=
  ∀ c ∈ cs.head?, ¬ isNameChar c

theorem word_append_afterWord (cs : List Char) : word cs ++ afterWord cs = cs :=
  List.takeWhile_append_dropWhile

theorem noName_afterWord (cs : List Char) : NoName (afterWord cs) :=
  head?_dropWhile

theorem word_append {w rest : List Char} (hw : ∀ c ∈ w, isNameChar c) (hrest : NoName rest) :
    word (w ++ rest) = w ∧ afterWord (w ++ rest) = rest :=
  span_append hw hrest

section Words

variable {call : Bool → SystemRule → List Char → Result SystemRule} {cs : List Char}

theorem matchPattern_anyKeyword (call : Bool → SystemRule → List Char → Result SystemRule)
    (k : String) (ks : List String) (cs : List Char) :
    matchPattern rules call true (anyKeyword (k :: ks)) cs = .failed ∧
        (∀ w ∈ k :: ks, ¬ w.toList <+: cs) ∨
      ∃ w ∈ k :: ks, ∃ rest, cs = w.toList ++ rest ∧
        matchPattern rules call true (anyKeyword (k :: ks)) cs =
          .matched (leaves w.toList) rest := by
  induction ks generalizing k with
  | nil =>
    simpa [anyKeyword] using matchPattern_word call k cs
  | cons k' ks ih =>
    have hchoice : anyKeyword (k :: k' :: ks) = .choice (.word k) (anyKeyword (k' :: ks)) := rfl
    rw [hchoice]
    simp only [matchPattern]
    obtain ⟨hfail, hpre⟩ | ⟨rest, hcs, hmatch⟩ := matchPattern_word call k cs
    · rw [hfail]
      obtain ⟨hfails, hnone⟩ | ⟨w, hw, rest, hcs, hmatch⟩ := ih k'
      · exact .inl ⟨hfails, by simpa [hpre] using hnone⟩
      · exact .inr ⟨w, List.mem_cons_of_mem _ hw, rest, hcs, hmatch⟩
    · rw [hmatch]
      exact .inr ⟨k, List.mem_cons_self, rest, hcs, rfl⟩

theorem eq_of_prefix_of_mem_keywords :
    ∀ k ∈ keywords, ∀ w ∈ keywords, k.toList <+: w.toList → k = w := by decide

theorem isNameChar_of_mem_keywords {w : String} (hw : w ∈ keywords) :
    ∀ c ∈ w.toList, isNameChar c := by
  have hall : keywords.all fun w => w.toList.all isNameChar := by decide
  exact List.all_eq_true.mp (List.all_eq_true.mp hall w hw)

/-- No keyword goes on where another one starts. -/
theorem word_eq_of_mem_keywords {w : String} (hw : w ∈ keywords) {rest : List Char}
    (h : String.ofList (word (w.toList ++ rest)) ∈ keywords) :
    word (w.toList ++ rest) = w.toList := by
  have hpre : w.toList <+: (String.ofList (word (w.toList ++ rest))).toList := by
    rw [String.toList_ofList, word, List.takeWhile_append_of_pos (isNameChar_of_mem_keywords hw)]
    exact List.prefix_append _ _
  have heq := congrArg String.toList (eq_of_prefix_of_mem_keywords w hw _ h hpre)
  rw [String.toList_ofList] at heq
  exact heq.symm

theorem matchPattern_keyword :
    matchPattern rules call true (body keyword) cs =
      if String.ofList (word cs) ∈ keywords then .matched (leaves (word cs)) (afterWord cs)
      else .failed := by
  -- the choice is between a first keyword and the others, as the list is
  have h := matchPattern_anyKeyword call "pbes" keywords.tail cs
  change (_ ∧ ∀ w ∈ keywords, _) ∨ ∃ w ∈ keywords, _ at h
  obtain ⟨hfail, hnone⟩ | ⟨w, hw, rest, rfl, hmatch⟩ := h
  · rw [if_neg]
    · exact matchPattern_bounded_failed hfail
    · intro hmem
      apply hnone _ hmem
      rw [String.toList_ofList]
      exact ⟨afterWord cs, word_append_afterWord cs⟩
  · have hchars := isNameChar_of_mem_keywords hw
    have hbounded : matchPattern rules call true (body keyword) (w.toList ++ rest) =
        if word (w.toList ++ rest) = w.toList then
          .matched (leaves w.toList) (afterWord (w.toList ++ rest))
        else .failed :=
      matchPattern_bounded hchars hmatch
    rw [hbounded]
    by_cases hword : word (w.toList ++ rest) = w.toList
    · rw [if_pos hword, hword, String.ofList_toList, if_pos hw]
    · rw [if_neg hword, if_neg]
      exact fun hmem => hword (word_eq_of_mem_keywords hw hmem)

end Words

variable {cs : List Char}

theorem settles_keyword {atomic : Bool} (h : String.ofList (word cs) ∈ keywords) :
    ∃ parts, Settles rules atomic (.rule keyword) cs (.matched parts (afterWord cs)) := by
  have hbody : Settles rules (atomic || rules.atomic keyword) (rules.body keyword) cs
      (.matched (leaves (word cs)) (afterWord cs)) := by
    rw [show (atomic || rules.atomic keyword) = true from Bool.or_true atomic]
    exact .of_forall fun _ => matchPattern_keyword.trans (if_pos h)
  exact ⟨_, Settles.rule hbody⟩

theorem settles_keyword_failed {atomic : Bool} (h : String.ofList (word cs) ∉ keywords) :
    Settles rules atomic (.rule keyword) cs .failed := by
  apply Settles.rule_failed
  rw [show (atomic || rules.atomic keyword) = true from Bool.or_true atomic]
  exact .of_forall fun _ => matchPattern_keyword.trans (if_neg h)

theorem isLegalName_ofList {w : List Char} : isLegalName (String.ofList w) ↔
    (∃ c rest, w = c :: rest ∧ isNameStart c ∧ ∀ d ∈ rest, isNameChar d) ∧
      String.ofList w ∉ keywords := by
  unfold isLegalName
  rw [String.toList_ofList]
  cases w <;> simp [and_assoc]

theorem isNameChar_of_isNameStart {c : Char} (h : isNameStart c) : isNameChar c := by
  simp only [isNameStart, isNameChar, Bool.or_eq_true] at h ⊢
  obtain h | h := h
  · simp [Char.isAlphanum, h]
  · simp [h]

theorem word_cons {c : Char} (h : isNameChar c) :
    word (c :: cs) = c :: word cs ∧ afterWord (c :: cs) = afterWord cs :=
  ⟨List.takeWhile_cons_of_pos h, List.dropWhile_cons_of_pos h⟩

/-- The longest run is a legal name if it starts like one and is no keyword. -/
theorem isLegalName_word {c : Char} : isLegalName (String.ofList (word (c :: cs))) ↔
    isNameStart c ∧ String.ofList (word (c :: cs)) ∉ keywords := by
  rw [isLegalName_ofList]
  refine and_congr_left fun _ => ?_
  constructor
  · rintro ⟨d, rest, hw, hd, -⟩
    have hhead := congrArg List.head? (word_append_afterWord (c :: cs))
    rw [hw] at hhead
    obtain rfl : d = c := by simpa using hhead
    exact hd
  · intro hc
    refine ⟨c, word cs, (word_cons (isNameChar_of_isNameStart hc)).1, hc, ?_⟩
    exact fun d hd => List.mem_takeWhile_imp hd

theorem settles_identifier (h : isLegalName (String.ofList (word cs))) :
    Settles rules false (.rule identifier) cs
      (.matched [.node identifier (leaves (word cs))] (afterWord cs)) := by
  cases cs with
  | nil => simp [word, isLegalName] at h
  | cons c cs =>
    obtain ⟨hc, hkey⟩ := isLegalName_word.mp h
    obtain ⟨hword, hafter⟩ : word (c :: cs) = c :: word cs ∧ afterWord (c :: cs) = afterWord cs :=
      word_cons (isNameChar_of_isNameStart hc)
    have hmany : Settles rules true (.many nameChar) cs
        (.matched (leaves (word cs)) (afterWord cs)) :=
      .of_forall fun _ => matchPattern_many_oneOf isNameChar cs
    have hbody : Settles rules true (body identifier) (c :: cs)
        (.matched ([] ++ [] ++ ([.leaf c] ++ [] ++ leaves (word cs))) (afterWord cs)) :=
      .seq (.notAhead (settles_keyword_failed hkey)) (.seq (.oneOf hc) hmany)
    rw [hword, hafter]
    exact .rule_matched hbody

theorem settles_identifier_failed (h : ¬ isLegalName (String.ofList (word cs))) :
    Settles rules false (.rule identifier) cs .failed := by
  have hbody : Settles rules true (body identifier) cs .failed := by
    -- no name is read if the lookahead finds a keyword, or else the first character is wrong
    by_cases hkey : String.ofList (word cs) ∈ keywords
    · have hk : ∃ parts, Settles rules true (.rule keyword) cs (.matched parts (afterWord cs)) :=
        settles_keyword hkey
      obtain ⟨parts, hk⟩ := hk
      exact .seq_failed (.notAhead_failed hk)
    · refine Settles.seq (.notAhead (settles_keyword_failed hkey)) (.seq_failed (.oneOf_failed ?_))
      intro c hc
      obtain ⟨cs, rfl⟩ : ∃ cs', cs = c :: cs' := by
        cases cs with
        | nil => cases hc
        | cons d cs => exact ⟨cs, by rw [Option.some.inj hc]⟩
      simpa [isLegalName_word, hkey] using h
  exact .rule_failed hbody

def keywordOf? : SystemRule → Option Keyword
  | mu => some .mu
  | nu => some .nu
  | all => some .all
  | ex => some .ex
  | trueLit => some .true
  | falseLit => some .false
  | _ => none

theorem text_mem_keywords (k : Keyword) : k.text ∈ keywords := by
  cases k <;> decide

theorem isNameChar_keyword (k : Keyword) : ∀ c ∈ k.text.toList, isNameChar c :=
  isNameChar_of_mem_keywords (text_mem_keywords k)

theorem rules_of_keywordOf? {r : SystemRule} {k : Keyword} (h : keywordOf? r = some k) :
    rules.body r = wholeWord k.text ∧ rules.atomic r = true := by
  cases r <;> simp only [keywordOf?, Option.some.injEq, reduceCtorEq] at h <;>
    exact h ▸ ⟨rfl, rfl⟩

theorem settles_of_keywordOf? {r : SystemRule} {k : Keyword} (h : keywordOf? r = some k)
    (hw : word cs = k.text.toList) : Settles rules false (.rule r) cs
      (.matched [.node r (leaves k.text.toList)] (afterWord cs)) := by
  obtain ⟨hbody, hatomic⟩ := rules_of_keywordOf? h
  apply Settles.rule_matched
  rw [hbody, hatomic]
  exact .of_forall fun _ =>
    (matchPattern_wholeWord (isNameChar_keyword k)).trans (if_pos hw)

theorem settles_of_keywordOf?_failed {r : SystemRule} {k : Keyword} (h : keywordOf? r = some k)
    (hw : word cs ≠ k.text.toList) : Settles rules false (.rule r) cs .failed := by
  obtain ⟨hbody, hatomic⟩ := rules_of_keywordOf? h
  apply Settles.rule_failed
  rw [hbody, hatomic]
  exact .of_forall fun _ =>
    (matchPattern_wholeWord (isNameChar_keyword k)).trans (if_neg hw)

def digits (cs : List Char) : List Char :=
  cs.takeWhile Char.isDigit

def afterDigits (cs : List Char) : List Char :=
  cs.dropWhile Char.isDigit

theorem settles_number {c : Char} (hc : c.isDigit) : Settles rules false (.rule number) (c :: cs)
    (.matched [.node number (leaves (digits (c :: cs)))] (afterDigits (c :: cs))) := by
  have hmany : Settles rules true (.many (.oneOf Char.isDigit)) cs
      (.matched (leaves (digits cs)) (afterDigits cs)) :=
    .of_forall fun _ => matchPattern_many_oneOf Char.isDigit cs
  have hbody : Settles rules true (body number) (c :: cs)
      (.matched ([.leaf c] ++ [] ++ leaves (digits cs)) (afterDigits cs)) :=
    .seq (.oneOf hc) hmany
  have hdigits : digits (c :: cs) = c :: digits cs := List.takeWhile_cons_of_pos hc
  have hafter : afterDigits (c :: cs) = afterDigits cs := List.dropWhile_cons_of_pos hc
  rw [hdigits, hafter]
  exact .rule_matched hbody

theorem settles_number_failed (h : ∀ c ∈ cs.head?, ¬ c.isDigit) :
    Settles rules false (.rule number) cs .failed := by
  have hbody : Settles rules true (body number) cs .failed :=
    .seq_failed (.oneOf_failed fun c hc => by simpa using h c hc)
  exact .rule_failed hbody

end PbesLab.SystemRule
