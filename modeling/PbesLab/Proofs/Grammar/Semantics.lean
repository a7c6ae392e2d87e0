import PbesLab.Proofs.Grammar.Depth
import PbesLab.Proofs.Grammar.Runs

namespace PbesLab.Grammar

open Grammar.Tree (leaves)

variable {ρ : Type}

/-- A pattern to match now, or one that may match again and again, each time behind a gap. -/
inductive Goal (ρ : Type)
  | once (p : Pattern ρ)
  | again (p : Pattern ρ)

/-- A line feed, with or without a carriage return before it, or a carriage return alone. -/
def IsLineEnd (t rest : List Char) : Prop :=
  t = ['\n'] ∨ t = ['\r', '\n'] ∨ t = ['\r'] ∧ rest.head? ≠ some '\n'

/-- The answer to a goal on a text, in an atomic context or not. The first part of a choice that
matches decides it, a repetition goes on as long as it can, and neither is taken back. -/
inductive Parses (g : Rules ρ) : Bool → Goal ρ → List Char → Result ρ → Prop
  | empty {a cs} : Parses g a (.once .empty) cs (.matched [] cs)
  | finish {a} : Parses g a (.once .finish) [] (.matched [] [])
  | finish_failed {a cs} (h : cs ≠ []) : Parses g a (.once .finish) cs .failed
  | literal {a t cs rest} (h : cs = t ++ rest) :
      Parses g a (.once (.literal t)) cs (.matched (leaves t) rest)
  | literal_failed {a t cs} (h : ¬ t <+: cs) : Parses g a (.once (.literal t)) cs .failed
  | oneOf {a test c cs} (h : test c = true) :
      Parses g a (.once (.oneOf test)) (c :: cs) (.matched [.leaf c] cs)
  | oneOf_failed {a test cs} (h : ∀ c ∈ cs.head?, test c = false) :
      Parses g a (.once (.oneOf test)) cs .failed
  | lineEnd {a t cs rest} (h : cs = t ++ rest) (ht : IsLineEnd t rest) :
      Parses g a (.once .lineEnd) cs (.matched (leaves t) rest)
  | lineEnd_failed {a cs} (h : ∀ c ∈ cs.head?, isInLine c) :
      Parses g a (.once .lineEnd) cs .failed
  | rule {a r cs xs rest}
      (h : Parses g (a || g.atomic r) (.once (g.body r)) cs (.matched xs rest)) :
      Parses g a (.once (.rule r)) cs
        (.matched (if a then leaves (Tree.textOf xs) else [.node r xs]) rest)
  | rule_failed {a r cs} (h : Parses g (a || g.atomic r) (.once (g.body r)) cs .failed) :
      Parses g a (.once (.rule r)) cs .failed
  | seq {a p q cs mid rest xs ys} (hp : Parses g a (.once p) cs (.matched xs mid))
      (hq : Parses g a (.once q) (gap g a mid).2 (.matched ys rest)) :
      Parses g a (.once (.seq p q)) cs (.matched (xs ++ leaves (gap g a mid).1 ++ ys) rest)
  | seq_first {a p q cs} (hp : Parses g a (.once p) cs .failed) :
      Parses g a (.once (.seq p q)) cs .failed
  | seq_second {a p q cs mid xs} (hp : Parses g a (.once p) cs (.matched xs mid))
      (hq : Parses g a (.once q) (gap g a mid).2 .failed) :
      Parses g a (.once (.seq p q)) cs .failed
  | choice_first {a p q cs xs rest} (hp : Parses g a (.once p) cs (.matched xs rest)) :
      Parses g a (.once (.choice p q)) cs (.matched xs rest)
  | choice_second {a p q cs res} (hp : Parses g a (.once p) cs .failed)
      (hq : Parses g a (.once q) cs res) : Parses g a (.once (.choice p q)) cs res
  | opt {a p cs xs rest} (hp : Parses g a (.once p) cs (.matched xs rest)) :
      Parses g a (.once (.opt p)) cs (.matched xs rest)
  | opt_none {a p cs} (hp : Parses g a (.once p) cs .failed) :
      Parses g a (.once (.opt p)) cs (.matched [] cs)
  | many {a p cs mid rest xs ys} (hp : Parses g a (.once p) cs (.matched xs mid))
      (more : Parses g a (.again p) mid (.matched ys rest)) :
      Parses g a (.once (.many p)) cs (.matched (xs ++ ys) rest)
  | many_none {a p cs} (hp : Parses g a (.once p) cs .failed) :
      Parses g a (.once (.many p)) cs (.matched [] cs)
  | again {a p cs mid rest xs ys}
      (hp : Parses g a (.once p) (gap g a cs).2 (.matched xs mid))
      (more : Parses g a (.again p) mid (.matched ys rest)) :
      Parses g a (.again p) cs (.matched (leaves (gap g a cs).1 ++ xs ++ ys) rest)
  /-- The gap before the step that fails is given back. -/
  | again_none {a p cs} (hp : Parses g a (.once p) (gap g a cs).2 .failed) :
      Parses g a (.again p) cs (.matched [] cs)
  | ahead {a p cs xs rest} (hp : Parses g a (.once p) cs (.matched xs rest)) :
      Parses g a (.once (.ahead p)) cs (.matched [] cs)
  | ahead_failed {a p cs} (hp : Parses g a (.once p) cs .failed) :
      Parses g a (.once (.ahead p)) cs .failed
  | notAhead {a p cs} (hp : Parses g a (.once p) cs .failed) :
      Parses g a (.once (.notAhead p)) cs (.matched [] cs)
  | notAhead_failed {a p cs xs rest} (hp : Parses g a (.once p) cs (.matched xs rest)) :
      Parses g a (.once (.notAhead p)) cs .failed

theorem IsLineEnd.unique {t t' rest rest' : List Char} (h : IsLineEnd t rest)
    (h' : IsLineEnd t' rest') (heq : t ++ rest = t' ++ rest') : t = t' ∧ rest = rest' := by
  obtain rfl | rfl | ⟨rfl, hrest⟩ := h <;> obtain rfl | rfl | ⟨rfl, hrest'⟩ := h' <;>
    simp at heq ⊢ <;> grind

theorem IsLineEnd.not_isInLine {t rest : List Char} (h : IsLineEnd t rest) :
    ¬ ∀ c ∈ (t ++ rest).head?, isInLine c := by
  obtain rfl | rfl | ⟨rfl, -⟩ := h <;> simp [isInLine]

variable {g : Rules ρ} {a : Bool} {goal : Goal ρ} {cs : List Char} {res res' : Result ρ}

theorem Parses.unique (h : Parses g a goal cs res) (h' : Parses g a goal cs res') : res = res' := by
  -- Where `h'` ends with another rule than `h`, one of them needs a part to match and the other
  -- needs the same part to fail.
  induction h generalizing res' with
  | empty => cases h'; rfl
  | finish => cases h' with
    | finish => rfl
    | finish_failed h => exact absurd rfl h
  | finish_failed h => cases h' with
    | finish => exact absurd rfl h
    | finish_failed => rfl
  | literal h => cases h' with
    | literal h' => rw [List.append_cancel_left (h.symm.trans h')]
    | literal_failed h' => exact absurd ⟨_, h.symm⟩ h'
  | literal_failed h => cases h' with
    | literal h' => exact absurd ⟨_, h'.symm⟩ h
    | literal_failed => rfl
  | oneOf h => cases h' with
    | oneOf => rfl
    | oneOf_failed h' => exact absurd h (by simpa using h' _ rfl)
  | oneOf_failed h => cases h' with
    | oneOf h' => exact absurd h' (by simpa using h _ rfl)
    | oneOf_failed => rfl
  | lineEnd h ht => cases h' with
    | lineEnd h' ht' =>
      obtain ⟨rfl, rfl⟩ := ht.unique ht' (h.symm.trans h')
      rfl
    | lineEnd_failed h' => exact absurd (h ▸ h') ht.not_isInLine
  | lineEnd_failed h => cases h' with
    | lineEnd h' ht => exact absurd (h' ▸ h) ht.not_isInLine
    | lineEnd_failed => rfl
  | rule _ ih => cases h' with
    | rule h' =>
      obtain ⟨rfl, rfl⟩ := Result.matched.inj (ih h')
      rfl
    | rule_failed h' => cases ih h'
  | rule_failed _ ih => cases h' with
    | rule h' => cases ih h'
    | rule_failed => rfl
  | seq _ _ ihp ihq => cases h' with
    | seq hp hq =>
      obtain ⟨rfl, rfl⟩ := Result.matched.inj (ihp hp)
      obtain ⟨rfl, rfl⟩ := Result.matched.inj (ihq hq)
      rfl
    | seq_first hp => cases ihp hp
    | seq_second hp hq =>
      obtain ⟨rfl, rfl⟩ := Result.matched.inj (ihp hp)
      cases ihq hq
  | seq_first _ ihp => cases h' with
    | seq hp | seq_second hp => cases ihp hp
    | seq_first => rfl
  | seq_second _ _ ihp ihq => cases h' with
    | seq hp hq =>
      obtain ⟨rfl, rfl⟩ := Result.matched.inj (ihp hp)
      cases ihq hq
    | seq_first | seq_second => rfl
  | choice_first _ ihp => cases h' with
    | choice_first hp => exact ihp hp
    | choice_second hp => cases ihp hp
  | choice_second _ _ ihp ihq => cases h' with
    | choice_first hp => cases ihp hp
    | choice_second _ hq => exact ihq hq
  | opt _ ihp => cases h' with
    | opt hp => exact ihp hp
    | opt_none hp => cases ihp hp
  | opt_none _ ihp => cases h' with
    | opt hp => cases ihp hp
    | opt_none => rfl
  | many _ _ ihp ihmore => cases h' with
    | many hp more =>
      obtain ⟨rfl, rfl⟩ := Result.matched.inj (ihp hp)
      obtain ⟨rfl, rfl⟩ := Result.matched.inj (ihmore more)
      rfl
    | many_none hp => cases ihp hp
  | many_none _ ihp => cases h' with
    | many hp => cases ihp hp
    | many_none => rfl
  | again _ _ ihp ihmore => cases h' with
    | again hp more =>
      obtain ⟨rfl, rfl⟩ := Result.matched.inj (ihp hp)
      obtain ⟨rfl, rfl⟩ := Result.matched.inj (ihmore more)
      rfl
    | again_none hp => cases ihp hp
  | again_none _ ihp => cases h' with
    | again hp => cases ihp hp
    | again_none => rfl
  | ahead _ ihp => cases h' with
    | ahead => rfl
    | ahead_failed hp => cases ihp hp
  | ahead_failed _ ihp => cases h' with
    | ahead hp => cases ihp hp
    | ahead_failed => rfl
  | notAhead _ ihp => cases h' with
    | notAhead => rfl
    | notAhead_failed hp => cases ihp hp
  | notAhead_failed _ ihp => cases h' with
    | notAhead hp => cases ihp hp
    | notAhead_failed => rfl

theorem Parses.exists_of_again {p : Pattern ρ} (h : Parses g a (.again p) cs res) :
    ∃ xs rest, res = .matched xs rest := by
  cases h with
  | again | again_none => exact ⟨_, _, rfl⟩

theorem Parses.ne_starved (h : Parses g a goal cs res) : res ≠ .starved := by
  induction h with
  | choice_second _ _ _ ihq => exact ihq
  | _ => simp

namespace Pattern

/-- Whatever may be repeated reads a character each time. -/
def repeatsRead (reads : ρ → Bool) : Pattern ρ → Bool
  | seq p q | choice p q => p.repeatsRead reads && q.repeatsRead reads
  | many p => p.consumes reads && p.repeatsRead reads
  | opt p | ahead p | notAhead p => p.repeatsRead reads
  | _ => true

end Pattern

variable {call : Bool → ρ → List Char → Result ρ} {p : Pattern ρ}

theorem parses_lineEnd : Parses g a (.once .lineEnd) cs (matchPattern g call a .lineEnd cs) := by
  unfold matchPattern
  split <;> first | contradiction | skip
  · exact .lineEnd (t := ['\n']) rfl (.inl rfl)
  · exact .lineEnd (t := ['\r', '\n']) rfl (.inr (.inl rfl))
  · next rest hno _ =>
    refine .lineEnd (t := ['\r']) rfl (.inr (.inr ⟨rfl, fun hhead => ?_⟩))
    obtain ⟨ds, rfl⟩ := List.head?_eq_some_iff.mp hhead
    exact hno ds rfl
  · next hfeed _ hreturn =>
    refine .lineEnd_failed fun c hc => ?_
    obtain ⟨ds, rfl⟩ := List.head?_eq_some_iff.mp hc
    have hc' : c ≠ '\n' ∧ c ≠ '\r' :=
      ⟨fun h => hfeed ds (h ▸ rfl), fun h => hreturn ds (h ▸ rfl)⟩
    simpa [isInLine] using hc'

theorem parses_terminal (hp : p.isTerminal) :
    Parses g a (.once p) cs (matchPattern g call a p cs) := by
  cases p with
  | empty => exact .empty
  | finish =>
    cases cs with
    | nil => exact .finish
    | cons c cs => exact .finish_failed (List.cons_ne_nil c cs)
  | literal t =>
    simp only [matchPattern]
    split
    · next rest h => exact .literal (dropText?_eq_some.mp h)
    · next h =>
      refine .literal_failed ?_
      rintro ⟨rest, hrest⟩
      cases h.symm.trans (dropText?_eq_some.mpr hrest.symm)
  | oneOf test =>
    cases cs with
    | nil => exact .oneOf_failed (by simp)
    | cons c cs =>
      simp only [matchPattern]
      split
      · next h => exact .oneOf h
      · next h => exact .oneOf_failed (by simpa using h)
  | lineEnd => exact parses_lineEnd
  | rule | seq | choice | opt | many | ahead | notAhead => cases hp

section Ranked

variable (hg : ∀ cs, (g.layout cs).1 ++ (g.layout cs).2 = cs)
include hg

/-- Further steps are found with a character of allowance for each character left. -/
theorem parses_repeatStep {n : Nat} (hcall : Within call) {reads : ρ → Bool}
    (hreads : ∀ a r cs parts rest, reads r → call a r cs = .matched parts rest →
      rest.length < cs.length)
    (hp : p.consumes reads)
    (hparse : ∀ cs, cs.length ≤ n → Parses g a (.once p) cs (matchPattern g call a p cs))
    {allowance : List Char} (hallowance : cs.length ≤ allowance.length) (hcs : cs.length ≤ n) :
    Parses g a (.again p) cs (repeatStep (gap g a) (matchPattern g call a p) allowance cs) := by
  have hgap := length_gap_le hg a cs
  have hstep := hparse (gap g a cs).2 (by omega)
  induction allowance generalizing cs with
  | nil =>
    -- nothing is left, so a step that reads a character fails
    obtain rfl := List.length_eq_zero_iff.mp (Nat.le_zero.mp hallowance)
    refine .again_none ?_
    cases hres : matchPattern g call a p (gap g a []).2 with
    | starved => exact absurd hres hstep.ne_starved
    | failed => exact hres ▸ hstep
    | matched xs mid =>
      have hlt := length_lt_of_consumes hg hcall hreads hp hres
      simp only [List.length_nil] at hgap
      omega
  | cons c allowance ih =>
    rw [repeatStep_cons]
    cases hres : matchPattern g call a p (gap g a cs).2 with
    | starved => exact absurd hres hstep.ne_starved
    | failed => exact .again_none (hres ▸ hstep)
    | matched xs mid =>
      have hlt := length_lt_of_consumes hg hcall hreads hp hres
      simp only [List.length_cons] at hallowance
      have hmid := length_gap_le hg a mid
      have hmore : Parses g a (.again p) mid _ :=
        ih (by omega) (by omega) hmid (hparse _ (by omega))
      rw [hres] at hstep
      obtain ⟨ys, rest, hys⟩ := hmore.exists_of_again
      rw [hys] at hmore
      simp only [hys]
      exact .again hstep hmore

theorem parses_matchPattern (hcall : Within call) {reads : ρ → Bool} {rank : ρ → Nat}
    {bound n : Nat}
    (hreads : ∀ a r cs parts rest, reads r → call a r cs = .matched parts rest →
      rest.length < cs.length)
    (hparse : ∀ a r cs, cs.length < n ∨ cs.length ≤ n ∧ rank r < bound →
      Parses g a (.once (.rule r)) cs (call a r cs))
    (hrepeats : p.repeatsRead reads) (hcs : cs.length ≤ n)
    (hp : cs.length < n ∨ p.startsBelow reads rank bound) :
    Parses g a (.once p) cs (matchPattern g call a p cs) := by
  have hle {p cs rest parts} (h : matchPattern g call a p cs = .matched parts rest) :
      rest.length ≤ cs.length := length_le_of_lossless (matchPattern_lossless hg hcall h)
  induction p generalizing cs with
  | empty | finish | literal | oneOf | lineEnd => exact parses_terminal rfl
  | rule r =>
    apply hparse
    simpa [Pattern.startsBelow, hcs] using hp
  | seq p q ihp ihq =>
    obtain ⟨hrp, hrq⟩ : p.repeatsRead reads ∧ q.repeatsRead reads := by
      simpa [Pattern.repeatsRead] using hrepeats
    have hp' : cs.length < n ∨ p.startsBelow reads rank bound ∧
        (p.consumes reads ∨ q.startsBelow reads rank bound) := by
      simpa [Pattern.startsBelow] using hp
    have hfirst := ihp hrp hcs (hp'.imp_right And.left)
    rw [matchPattern_seq]
    cases hres : matchPattern g call a p cs with
    | starved => exact absurd hres hfirst.ne_starved
    | failed => exact .seq_first (hres ▸ hfirst)
    | matched xs mid =>
      rw [hres] at hfirst
      have hgap := length_gap_le hg a mid
      have hmid := hle hres
      have hstart : (gap g a mid).2.length < n ∨ q.startsBelow reads rank bound := by
        -- behind a character that was read, any rule may be tried again
        obtain hlt | ⟨-, hc | hq⟩ := hp'
        · exact .inl (by omega)
        · have := length_lt_of_consumes hg hcall hreads hc hres
          exact .inl (by omega)
        · exact .inr hq
      have hsecond := ihq hrq (by omega) hstart
      simp only [Result.andThen]
      cases hres' : matchPattern g call a q (gap g a mid).2 with
      | starved => exact absurd hres' hsecond.ne_starved
      | failed => exact .seq_second hfirst (hres' ▸ hsecond)
      | matched ys rest => exact .seq hfirst (hres' ▸ hsecond)
  | choice p q ihp ihq =>
    obtain ⟨hrp, hrq⟩ : p.repeatsRead reads ∧ q.repeatsRead reads := by
      simpa [Pattern.repeatsRead] using hrepeats
    have hp' : cs.length < n ∨ p.startsBelow reads rank bound ∧ q.startsBelow reads rank bound := by
      simpa [Pattern.startsBelow] using hp
    have hfirst := ihp hrp hcs (hp'.imp_right And.left)
    simp only [matchPattern]
    cases hres : matchPattern g call a p cs with
    | starved => exact absurd hres hfirst.ne_starved
    | failed => exact .choice_second (hres ▸ hfirst) (ihq hrq hcs (hp'.imp_right And.right))
    | matched xs rest => exact .choice_first (hres ▸ hfirst)
  | opt p ih =>
    have hbody := ih hrepeats hcs hp
    simp only [matchPattern]
    cases hres : matchPattern g call a p cs with
    | starved => exact absurd hres hbody.ne_starved
    | failed => exact .opt_none (hres ▸ hbody)
    | matched xs rest => exact .opt (hres ▸ hbody)
  | many p ih =>
    obtain ⟨hreading, hrp⟩ : p.consumes reads ∧ p.repeatsRead reads := by
      simpa [Pattern.repeatsRead] using hrepeats
    have hbody := ih hrp hcs hp
    simp only [matchPattern]
    cases hres : matchPattern g call a p cs with
    | starved => exact absurd hres hbody.ne_starved
    | failed => exact .many_none (hres ▸ hbody)
    | matched xs mid =>
      rw [hres] at hbody
      have hmid := hle hres
      -- the later steps start no further left than the first
      have hmore := parses_repeatStep hg hcall hreads hreading (n := cs.length)
        (fun cs' hcs' => ih hrp (by omega) (hp.imp_left fun hlt => by omega)) (Nat.le_refl _) hmid
      obtain ⟨ys, rest, hys⟩ := hmore.exists_of_again
      rw [hys] at hmore
      simp only [Result.andThen, hys]
      exact .many hbody hmore
  | ahead p ih =>
    have hbody := ih hrepeats hcs hp
    simp only [matchPattern]
    cases hres : matchPattern g call a p cs with
    | starved => exact absurd hres hbody.ne_starved
    | failed => exact .ahead_failed (hres ▸ hbody)
    | matched xs rest => exact .ahead (hres ▸ hbody)
  | notAhead p ih =>
    have hbody := ih hrepeats hcs hp
    simp only [matchPattern]
    cases hres : matchPattern g call a p cs with
    | starved => exact absurd hres hbody.ne_starved
    | failed => exact .notAhead (hres ▸ hbody)
    | matched xs rest => exact .notAhead_failed (hres ▸ hbody)

namespace Ranking

variable (R : Ranking g) (hrepeats : ∀ r, (g.body r).repeatsRead R.reads) {r : ρ}
include hrepeats

theorem parses_matchRule {depth : Nat}
    (h : depthPerCharacter * cs.length + R.rank r < depth) :
    Parses g a (.once (.rule r)) cs (matchRule g depth a r cs) := by
  induction depth generalizing a r cs with
  | zero => omega
  | succ depth ih =>
    have hwithin : Within (matchRule g depth) := fun _ _ _ _ _ => matchRule_lossless hg
    have hbody : Parses g (a || g.atomic r) (.once (g.body r)) cs
        (matchPattern g (matchRule g depth) (a || g.atomic r) (g.body r) cs) := by
      apply parses_matchPattern hg hwithin (fun _ _ _ _ _ hr h => R.length_lt hg hr h)
        (n := cs.length) _ (hrepeats r) (Nat.le_refl _) (.inr (R.startsBelow_body r))
      -- a shorter text pays for any rank, a lower rank for one step
      intro a r' cs' hlt
      apply ih
      have hr' := R.rank_lt r'
      unfold depthPerCharacter at h hr' ⊢
      omega
    rw [matchRule]
    cases hres : matchPattern g (matchRule g depth) (a || g.atomic r) (g.body r) cs with
    | starved => exact absurd hres hbody.ne_starved
    | failed => exact .rule_failed (hres ▸ hbody)
    | matched xs rest => exact .rule (hres ▸ hbody)

/-- The depth for a text is one at which a rule has its answer. -/
theorem parses_iff {res : Result ρ} :
    Parses g false (.once (.rule r)) cs res ↔ matchRule g (depthFor cs) false r cs = res := by
  have hdepth : depthPerCharacter * cs.length + R.rank r < depthFor cs := by
    have := R.rank_lt r
    unfold depthFor depthPerCharacter at *
    omega
  have hanswer := R.parses_matchRule hg hrepeats (a := false) hdepth
  exact ⟨hanswer.unique, fun h => h ▸ hanswer⟩

theorem read?_eq_some_iff {t : Tree ρ} :
    read? g r cs = some t ↔ ∃ rest, Parses g false (.once (.rule r)) cs (.matched [t] rest) := by
  simp only [R.parses_iff hg hrepeats]
  unfold read?
  constructor
  · intro h
    split at h
    · next u us rest hm =>
      obtain rfl := Option.some.inj h
      obtain ⟨xs, hparts⟩ := exists_node_of_matchRule hm
      obtain ⟨-, rfl⟩ := List.cons.inj hparts
      exact ⟨rest, hm⟩
    · cases h
  · rintro ⟨rest, hm⟩
    rw [hm]

theorem read?_eq_none_iff :
    read? g r cs = none ↔ Parses g false (.once (.rule r)) cs .failed := by
  rw [R.parses_iff hg hrepeats]
  unfold read?
  cases hm : matchRule g (depthFor cs) false r cs with
  | starved => exact absurd hm (R.matchRule_depthFor_ne_starved hg r cs)
  | failed => simp
  | matched parts rest =>
    obtain ⟨xs, rfl⟩ := exists_node_of_matchRule hm
    simp

end Ranking

end Ranked

end PbesLab.Grammar
