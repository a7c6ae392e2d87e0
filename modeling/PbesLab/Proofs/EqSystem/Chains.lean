import PbesLab.Proofs.EqSystem.SingleTokens
import PbesLab.Proofs.EqSystem.Precedence

namespace PbesLab

open Grammar SystemRule

/-- How loosely an operator binds. A parenthesis or an equals sign goes on with a name or with an
operator and is counted as the tightest; other marks end every operand. -/
def Mark.looseness : Mark → Nat
  | opening | equals => 0
  | and => 1
  | or => 2
  | arrow => 3
  | plus => 4
  | equal | less | greater => 5
  | _ => 6

def Token.looserThan (n : Nat) : Token → Bool
  | mark m => n < m.looseness
  | _ => true

theorem Follows.looserThan_mono {n n' : Nat} {us : List Token}
    (h : Follows (Token.looserThan n') us) (hle : n ≤ n') : Follows (Token.looserThan n) us := by
  refine h.mono fun t ht => ?_
  cases t with
  | mark m =>
    simp only [Token.looserThan, decide_eq_true_eq] at ht ⊢
    omega
  | _ => rfl

theorem not_clashes_of_looseness_lt : ∀ m ∈ Mark.list, ∀ m' ∈ Mark.list, m ≠ .equals →
    m.looseness < m'.looseness → ¬ (Token.mark m').clashes m := by decide

theorem not_clashes_of_looserThan {m : Mark} (hm : m ≠ .equals) {t : Token}
    (h : t.looserThan m.looseness) : ¬ t.clashes m := by
  cases t with
  | mark m' =>
    exact not_clashes_of_looseness_lt m m.mem_list m' m'.mem_list hm (of_decide_eq_true h)
  | _ => exact Bool.false_ne_true

/-- An operator is not read where everything that follows is looser. -/
theorem refuses_operator {m : Mark} (hm : m ≠ .equals) {us : List Token}
    (h : Follows (Token.looserThan m.looseness) us) : Refuses (.word m.text) us := by
  refine refuses_mark (h.mono fun t ht => ?_)
  simpa using not_clashes_of_looserThan hm ht

section Lists

variable {α : Type} {p : Pattern SystemRule} {item : List Token → α → Prop}
  {get? : Meaning → Option α} {test : Token → Bool} {ts us : List Token} {xs : List α}

theorem consumes_after_mark (m : Mark) (p : Pattern SystemRule) :
    (Pattern.seq (.word m.text) p).consumes ranking.reads := by
  have h : (Pattern.word m.text : Pattern SystemRule).consumes ranking.reads := by
    cases m <;> decide
  simp [Pattern.consumes, h]

theorem takesMore_separated {m : Mark}
    (hitem : ∀ {ts x us}, item ts x → Follows test us → ∃ y, get? y = some x ∧ Takes p ts [y] us)
    (hmark : test (.mark m)) (h : Separated m item ts xs) (hus : Follows test us)
    (hstop : Follows (fun t => !t.clashes m) us) :
    ∃ ms, ms.mapM get? = some xs ∧ TakesMore (.seq (.word m.text) p) (.mark m :: ts) ms us := by
  induction h with
  | one h =>
    obtain ⟨y, hy, hp⟩ := hitem h hus
    refine ⟨[y], by simp [hy], ?_⟩
    have hstep : Takes (.seq (.word m.text) p) (.mark m :: _) [y] ([] ++ us) :=
      (Takes.mark m).seq hp
    have hend : Refuses (.seq (.word m.text) p) us := (refuses_mark hstop).seq
    have hmore := TakesMore.step (consumes_after_mark m p) hstep (.stop hend)
    rwa [List.append_nil] at hmore
  | @cons ts vs x xs h _ ih =>
    obtain ⟨ms, hms, hmore⟩ := ih
    have hnext : Follows test (.mark m :: vs ++ us) := follows_cons.mpr hmark
    obtain ⟨y, hy, hp⟩ := hitem h hnext
    refine ⟨y :: ms, by simp [hy, hms], ?_⟩
    have hstep : Takes (.seq (.word m.text) p) (.mark m :: _) [y] _ := (Takes.mark m).seq hp
    exact TakesMore.step (consumes_after_mark m p) hstep hmore

theorem takes_separated {m : Mark}
    (hitem : ∀ {ts x us}, item ts x → Follows test us → ∃ y, get? y = some x ∧ Takes p ts [y] us)
    (hmark : test (.mark m)) (h : Separated m item ts xs) (hus : Follows test us)
    (hstop : Follows (fun t => !t.clashes m) us) :
    ∃ ms, ms.mapM get? = some xs ∧ Takes (.seq p (.many (.seq (.word m.text) p))) ts ms us := by
  cases h with
  | one h =>
    obtain ⟨y, hy, hp⟩ := hitem h hus
    have hnone := (TakesMore.stop (Refuses.seq (q := p) (refuses_mark hstop))).many
    have htakes : Takes (.seq p (.many (.seq (.word m.text) p))) (ts ++ []) [y] us := hp.seq hnone
    rw [List.append_nil] at htakes
    exact ⟨[y], by simp [hy], htakes⟩
  | cons h more =>
    obtain ⟨ms, hms, hmore⟩ := takesMore_separated hitem hmark more hus hstop
    obtain ⟨y, hy, hp⟩ := hitem h (follows_cons.mpr hmark)
    exact ⟨y :: ms, by simp [hy, hms], hp.seq hmore.many⟩

theorem takes_parenthesised {ms : List Meaning} (h : Takes p ts ms (.mark .closing :: us)) :
    Takes (parenthesised p) (.mark .opening :: (ts ++ [.mark .closing])) ms us := by
  have hclosing : Takes (.seq p (.word ")")) (ts ++ [.mark .closing]) (ms ++ []) us :=
    Takes.seq h (.mark .closing)
  have hopening := Takes.seq (Takes.mark .opening) hclosing
  rwa [List.nil_append, List.append_nil] at hopening

/-- A list of items that end before a comma and before a parenthesis. -/
theorem takes_listed
    (hitem : ∀ {ts x us}, item ts x → Follows test us → ∃ y, get? y = some x ∧ Takes p ts [y] us)
    (hcomma : test (.mark .comma)) (hclosing : test (.mark .closing)) (h : Listed item ts xs)
    (hus : Follows (fun t => !t.clashes .opening) us) :
    ∃ ms, ms.mapM get? = some xs ∧ Takes (.opt (parenthesised (.commaList p))) ts ms us := by
  cases h with
  | none => exact ⟨[], rfl, .opt_none (Refuses.seq (refuses_mark (m := .opening) hus))⟩
  | some h =>
    have hnext : Follows test (.mark .closing :: us) := follows_cons.mpr hclosing
    obtain ⟨ms, hms, htakes⟩ := takes_separated hitem hcomma h hnext (follows_cons.mpr (by decide))
    exact ⟨ms, hms, .opt_some (takes_parenthesised htakes)⟩

/-- Items one after the other, up to tokens that start none. -/
theorem takesMore_joined
    (hitem : ∀ {ts x us}, item ts x → ∃ y, get? y = some x ∧ Takes p ts [y] us)
    (hreads : p.consumes ranking.reads) (h : Joined item ts xs) (hus : Refuses p us) :
    ∃ ms, ms.mapM get? = some xs ∧ TakesMore p ts ms us := by
  induction h with
  | nil => exact ⟨[], rfl, .stop hus⟩
  | cons h _ ih =>
    obtain ⟨ms, hms, hmore⟩ := ih
    obtain ⟨y, hy, hp⟩ := hitem h
    exact ⟨y :: ms, by simp [hy, hms], .step hreads hp hmore⟩

theorem takes_many1
    (hitem : ∀ {ts x us}, item ts x → ∃ y, get? y = some x ∧ Takes p ts [y] us)
    (hreads : p.consumes ranking.reads) (h : Joined item ts xs) (hne : xs ≠ [])
    (hus : Refuses p us) :
    ∃ ms, ms.mapM get? = some xs ∧ Takes (.many1 p) ts ms us := by
  cases h with
  | nil => exact absurd rfl hne
  | cons h more =>
    obtain ⟨ms, hms, hmore⟩ := takesMore_joined hitem hreads more hus
    obtain ⟨y, hy, hp⟩ := hitem h
    exact ⟨y :: ms, by simp [hy, hms], hp.seq hmore.many⟩

end Lists

section Chains

variable {α : Type} {p : Pattern SystemRule} {m : Mark} {get? : Meaning → Option α}
  {op : α → α → α} {n k : Nat} {ts us : List Token} {x y : α}

/-- The meanings of operands, combined from left to right. -/
def Folds (get? : Meaning → Option α) (op : α → α → α) (ms : List Meaning) (x : α) : Prop :=
  (ms.mapM get?).bind (Meaning.chain op) = some x

theorem Folds.one {y : Meaning} (h : get? y = some x) : Folds get? op [y] x := by
  simp [Folds, h, Meaning.chain]

theorem Folds.snoc {ms : List Meaning} {z : Meaning} (h : Folds get? op ms x)
    (hz : get? z = some y) : Folds get? op (ms ++ [z]) (op x y) := by
  unfold Folds at h ⊢
  obtain ⟨xs, hms, hchain⟩ := Option.bind_eq_some_iff.mp h
  have hall : (ms ++ [z]).mapM get? = some (xs ++ [y]) := by simp [hms, hz]
  rw [hall]
  cases xs with
  | nil => cases hchain
  | cons x' xs =>
    obtain rfl := Option.some.inj hchain
    simp [Meaning.chain]

theorem Folds.bind {ms : List Meaning} (h : Folds get? op ms x) (f : α → Meaning) :
    (do return f (← Meaning.chain op (← ms.mapM get?))) = some (f x) := by
  obtain ⟨xs, hms, hchain⟩ := Option.bind_eq_some_iff.mp h
  simp [hms, hchain]

/-- A chain of operands is taken before whatever further operands, of which each ends as the
chain does. -/
def TakesChain (p : Pattern SystemRule) (m : Mark) (get? : Meaning → Option α) (op : α → α → α)
    (n : Nat) (ts : List Token) (x : α) : Prop :=
  ∀ us ns vs, Follows (Token.looserThan n) (us ++ vs) → TakesMore (.seq (.word m.text) p) us ns vs →
    ∃ ms, Folds get? op ms x ∧
      Takes (.seq p (.many (.seq (.word m.text) p))) (ts ++ us) (ms ++ ns) vs

theorem TakesChain.one (h : ∀ us, Follows (Token.looserThan n) us →
    ∃ y, get? y = some x ∧ Takes p ts [y] us) : TakesChain p m get? op n ts x := by
  intro us ns vs hus hmore
  obtain ⟨y, hy, hp⟩ := h (us ++ vs) hus
  exact ⟨[y], .one hy, hp.seq hmore.many⟩

theorem TakesChain.snoc (h : TakesChain p m get? op n ts x) (hn : n < m.looseness)
    (hitem : ∀ vs, Follows (Token.looserThan k) vs → ∃ z, get? z = some y ∧ Takes p us [z] vs) :
    TakesChain p m get? op k (ts ++ .mark m :: us) (op x y) := by
  intro vs ns ws hvs hmore
  -- the new operand becomes the first of those behind the shorter chain
  obtain ⟨z, hz, hp⟩ := hitem (vs ++ ws) hvs
  have hstep : Takes (.seq (.word m.text) p) (.mark m :: us) [z] (vs ++ ws) := (Takes.mark m).seq hp
  have hall := TakesMore.step (consumes_after_mark m p) hstep hmore
  obtain ⟨ms, hms, htakes⟩ := h (.mark m :: us ++ vs) ([z] ++ ns) ws
    (follows_cons.mpr (decide_eq_true hn)) hall
  refine ⟨ms ++ [z], hms.snoc hz, ?_⟩
  rwa [← List.append_assoc, ← List.append_assoc] at htakes

/-- Before a token that binds looser than the operator, the chain ends, and its rule gives what the
operands fold to. -/
theorem TakesChain.rule {r : SystemRule} {f : α → Meaning} (h : TakesChain p m get? op n ts x)
    (hm : m ≠ .equals) (hus : Follows (Token.looserThan (max n m.looseness)) us)
    (hr : r.atomic = false) (hbody : r.body = .seq p (.many (.seq (.word m.text) p)))
    (hy : ∀ parts ms, Meaning.ofNode? r parts ms =
      (do return f (← Meaning.chain op (← ms.mapM get?)))) : Takes (.rule r) ts [f x] us := by
  have hstop := refuses_operator hm (hus.looserThan_mono (Nat.le_max_right _ _))
  obtain ⟨ms, hms, htakes⟩ := h [] [] us (hus.looserThan_mono (Nat.le_max_left _ _))
    (.stop hstop.seq)
  rw [List.append_nil, List.append_nil, ← hbody] at htakes
  exact Takes.rule hr htakes fun parts => (hy parts ms).trans (hms.bind f)

end Chains

end PbesLab
