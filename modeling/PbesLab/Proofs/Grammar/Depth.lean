import PbesLab.Proofs.Grammar.Matching

namespace PbesLab.Grammar

variable {ρ : Type} {g : Rules ρ}

theorem repeatStep_mono {between : List Char → List Char × List Char}
    {step step' : List Char → Result ρ}
    (h : ∀ cs, step cs ≠ .starved → step' cs = step cs) {allowance cs : List Char}
    (hr : repeatStep between step allowance cs ≠ .starved) :
    repeatStep between step' allowance cs = repeatStep between step allowance cs := by
  induction allowance generalizing cs with
  | nil => rfl
  | cons a allowance ih =>
    simp only [repeatStep] at hr ⊢
    cases hs : step (between cs).2 with
    | starved => simp [hs] at hr
    | failed => rw [h _ (by simp [hs]), hs]
    | matched parts rest =>
      rw [h _ (by simp [hs]), hs]
      rw [hs] at hr
      have hne : repeatStep between step allowance rest ≠ .starved :=
        fun he => hr (Result.prepend_eq_starved.mpr he)
      simp only [ih hne]

theorem matchPattern_mono {call call' : Bool → ρ → List Char → Result ρ}
    (h : ∀ a r cs, call a r cs ≠ .starved → call' a r cs = call a r cs)
    {atomic : Bool} {p : Pattern ρ} {cs : List Char}
    (hp : matchPattern g call atomic p cs ≠ .starved) :
    matchPattern g call' atomic p cs = matchPattern g call atomic p cs := by
  -- What does not run out of depth has no part that does, so every part comes out the same.
  induction p generalizing cs with
  | empty | finish | literal t => rfl
  | oneOf test => cases cs <;> rfl
  | lineEnd => exact matchPattern_lineEnd_call call'
  | rule r => exact h _ _ _ hp
  | seq a b iha ihb =>
    rw [matchPattern_seq] at hp ⊢
    rw [matchPattern_seq]
    cases ha : matchPattern g call atomic a cs with
    | starved => simp [ha, Result.andThen] at hp
    | failed => rw [iha (by simp [ha]), ha]; rfl
    | matched xs mid =>
      rw [iha (by simp [ha]), ha]
      rw [ha] at hp
      have hne : matchPattern g call atomic b (gap g atomic mid).2 ≠ .starved :=
        fun he => hp (Result.prepend_eq_starved.mpr he)
      simp only [Result.andThen, ihb hne]
  | choice a b iha ihb =>
    simp only [matchPattern] at hp ⊢
    cases ha : matchPattern g call atomic a cs with
    | starved => simp [ha] at hp
    | failed =>
      rw [iha (by simp [ha]), ha]
      rw [ha] at hp
      exact ihb hp
    | matched xs mid => rw [iha (by simp [ha]), ha]
  | opt a ih =>
    simp only [matchPattern] at hp ⊢
    cases ha : matchPattern g call atomic a cs with
    | starved => simp [ha] at hp
    | failed | matched xs mid => rw [ih (by simp [ha]), ha]
  | many a ih =>
    simp only [matchPattern] at hp ⊢
    cases ha : matchPattern g call atomic a cs with
    | starved => simp [ha, Result.andThen] at hp
    | failed => rw [ih (by simp [ha]), ha]
    | matched xs mid =>
      rw [ih (by simp [ha]), ha]
      rw [ha] at hp
      have hne : repeatStep (gap g atomic) (matchPattern g call atomic a) mid mid ≠ .starved :=
        fun he => hp (Result.prepend_eq_starved.mpr he)
      simp only [Result.andThen, repeatStep_mono (fun _ => ih) hne]
  | ahead a ih =>
    simp only [matchPattern] at hp ⊢
    cases ha : matchPattern g call atomic a cs with
    | starved => simp [ha, Result.andThen] at hp
    | failed | matched xs mid => rw [ih (by simp [ha]), ha]
  | notAhead a ih =>
    simp only [matchPattern] at hp ⊢
    cases ha : matchPattern g call atomic a cs with
    | starved => simp [ha] at hp
    | failed | matched xs mid => rw [ih (by simp [ha]), ha]

theorem matchRule_succ {depth : Nat} {atomic : Bool} {r : ρ} {cs : List Char}
    (h : matchRule g depth atomic r cs ≠ .starved) :
    matchRule g (depth + 1) atomic r cs = matchRule g depth atomic r cs := by
  induction depth generalizing atomic r cs with
  | zero => exact absurd rfl h
  | succ depth ih =>
    rw [matchRule, matchRule]
    rw [matchRule] at h
    rw [matchPattern_mono (fun _ _ _ => ih)]
    intro he
    rw [he] at h
    exact h rfl

theorem matchRule_of_le {depth depth' : Nat} {atomic : Bool} {r : ρ} {cs : List Char}
    (hle : depth ≤ depth') (h : matchRule g depth atomic r cs ≠ .starved) :
    matchRule g depth' atomic r cs = matchRule g depth atomic r cs := by
  induction hle with
  | refl => rfl
  | step _ ih => rw [matchRule_succ (ih ▸ h), ih]

namespace Pattern

/-- The rules that may be tried before a character is read rank below the bound. -/
def startsBelow (reads : ρ → Bool) (rank : ρ → Nat) (bound : Nat) : Pattern ρ → Bool
  | rule r => rank r < bound
  | seq p q => p.startsBelow reads rank bound &&
      (p.consumes reads || q.startsBelow reads rank bound)
  | choice p q => p.startsBelow reads rank bound && q.startsBelow reads rank bound
  | opt p | many p | ahead p | notAhead p => p.startsBelow reads rank bound
  | _ => true

end Pattern

/-- A rank for each rule that falls from a rule to those it may try before a character is read. -/
structure Ranking (g : Rules ρ) where
  rank : ρ → Nat
  reads : ρ → Bool
  rank_lt : ∀ r, rank r < depthPerCharacter
  reads_body : ∀ r, reads r → (g.body r).consumes reads
  startsBelow_body : ∀ r, (g.body r).startsBelow reads rank (rank r)

section Ranked

variable (hg : ∀ cs, (g.layout cs).1 ++ (g.layout cs).2 = cs)
include hg

theorem length_gap_le (atomic : Bool) (cs : List Char) :
    (gap g atomic cs).2.length ≤ cs.length := by
  have h := congrArg List.length (gap_append hg atomic cs)
  rw [List.length_append] at h
  omega

def Within (call : Bool → ρ → List Char → Result ρ) : Prop :=
  ∀ a r cs parts rest, call a r cs = .matched parts rest → Tree.textOf parts ++ rest = cs

omit hg in
theorem length_le_of_lossless {parts : List (Tree ρ)} {cs rest : List Char}
    (h : Tree.textOf parts ++ rest = cs) : rest.length ≤ cs.length := by
  rw [← h, List.length_append]
  omega

theorem length_lt_of_consumes {call : Bool → ρ → List Char → Result ρ} (hcall : Within call)
    {reads : ρ → Bool}
    (hreads : ∀ a r cs parts rest, reads r → call a r cs = .matched parts rest →
      rest.length < cs.length)
    {atomic : Bool} {p : Pattern ρ} (hp : p.consumes reads) {cs rest : List Char}
    {parts : List (Tree ρ)} (h : matchPattern g call atomic p cs = .matched parts rest) :
    rest.length < cs.length := by
  have hle {atomic p cs rest parts} (h : matchPattern g call atomic p cs = .matched parts rest) :
      rest.length ≤ cs.length := length_le_of_lossless (matchPattern_lossless hg hcall h)
  -- No part of a match gives text back, so one part that consumes is enough.
  induction p generalizing cs rest parts with
  | empty | finish | opt | many | ahead | notAhead => simp [Pattern.consumes] at hp
  | literal | oneOf | lineEnd =>
    obtain ⟨t, ht, rfl, -⟩ := exists_of_matchPattern_terminal h rfl reads
    have := List.length_pos_iff.mpr (ht hp)
    rw [List.length_append]
    omega
  | rule r => exact hreads _ _ _ _ _ hp h
  | seq a b iha ihb =>
    obtain ⟨xs, mid, ys, hxs, hys, -⟩ := matchPattern_seq_eq_matched.mp h
    have hgap := length_gap_le hg atomic mid
    have hx := hle hxs
    have hy := hle hys
    obtain ha | hb : a.consumes reads ∨ b.consumes reads := by simpa [Pattern.consumes] using hp
    · have := iha ha hxs
      omega
    · have := ihb hb hys
      omega
  | choice a b iha ihb =>
    obtain ⟨ha, hb⟩ : a.consumes reads ∧ b.consumes reads := by simpa [Pattern.consumes] using hp
    simp only [matchPattern] at h
    split at h
    · exact ihb hb h
    · exact iha ha h

theorem repeatStep_ne_starved {atomic : Bool} {step : List Char → Result ρ} {n : Nat}
    (hstep : ∀ cs parts rest, step cs = .matched parts rest → rest.length ≤ cs.length)
    (hne : ∀ cs, cs.length ≤ n → step cs ≠ .starved) {allowance cs : List Char}
    (hcs : cs.length ≤ n) : repeatStep (gap g atomic) step allowance cs ≠ .starved := by
  induction allowance generalizing cs with
  | nil => simp [repeatStep]
  | cons a allowance ih =>
    have hgap := length_gap_le hg atomic cs
    rw [repeatStep_cons]
    split
    · next hs => exact absurd hs (hne _ (by omega))
    · simp
    · next hs =>
      have := hstep _ _ _ hs
      exact fun he => ih (by omega) (Result.prepend_eq_starved.mp he)

theorem matchPattern_ne_starved {call : Bool → ρ → List Char → Result ρ} (hcall : Within call)
    {reads : ρ → Bool} {rank : ρ → Nat} {bound n : Nat}
    (hreads : ∀ a r cs parts rest, reads r → call a r cs = .matched parts rest →
      rest.length < cs.length)
    (hne : ∀ a r cs, cs.length < n ∨ cs.length ≤ n ∧ rank r < bound → call a r cs ≠ .starved)
    {atomic : Bool} {p : Pattern ρ} {cs : List Char} (hcs : cs.length ≤ n)
    (hp : cs.length < n ∨ p.startsBelow reads rank bound) :
    matchPattern g call atomic p cs ≠ .starved := by
  have hle {atomic p cs rest parts} (h : matchPattern g call atomic p cs = .matched parts rest) :
      rest.length ≤ cs.length := length_le_of_lossless (matchPattern_lossless hg hcall h)
  induction p generalizing cs with
  | empty | finish | literal | oneOf | lineEnd => exact matchPattern_terminal_ne_starved rfl
  | rule r =>
    apply hne
    simpa [Pattern.startsBelow, hcs] using hp
  | seq a b iha ihb =>
    have hp' : cs.length < n ∨ a.startsBelow reads rank bound ∧
        (a.consumes reads ∨ b.startsBelow reads rank bound) := by
      simpa [Pattern.startsBelow] using hp
    rw [matchPattern_seq]
    cases ha : matchPattern g call atomic a cs with
    | starved => exact absurd ha (iha hcs (hp'.imp_right And.left))
    | failed => simp [Result.andThen]
    | matched xs mid =>
      have hgap := length_gap_le hg atomic mid
      have hmid := hle ha
      intro he
      refine ihb (by omega) ?_ (Result.prepend_eq_starved.mp he)
      -- behind a character that was read, any rule may be tried again
      obtain hlt | ⟨-, hc | hb⟩ := hp'
      · exact .inl (by omega)
      · have := length_lt_of_consumes hg hcall hreads hc ha
        exact .inl (by omega)
      · exact .inr hb
  | choice a b iha ihb =>
    have hp' : cs.length < n ∨ a.startsBelow reads rank bound ∧ b.startsBelow reads rank bound := by
      simpa [Pattern.startsBelow] using hp
    simp only [matchPattern]
    cases ha : matchPattern g call atomic a cs with
    | starved => exact absurd ha (iha hcs (hp'.imp_right And.left))
    | failed => exact ihb hcs (hp'.imp_right And.right)
    | matched xs mid => simp
  | opt a ih =>
    simp only [matchPattern]
    cases ha : matchPattern g call atomic a cs with
    | starved => exact absurd ha (ih hcs hp)
    | failed | matched xs mid => simp
  | many a ih =>
    simp only [matchPattern]
    cases ha : matchPattern g call atomic a cs with
    | starved => exact absurd ha (ih hcs hp)
    | failed => simp
    | matched xs mid =>
      have hmid := hle ha
      intro he
      -- the later steps start no further left than the first
      refine repeatStep_ne_starved hg (n := cs.length) (fun _ _ _ => hle) ?_ hmid
        (Result.prepend_eq_starved.mp he)
      intro cs' hcs'
      exact ih (by omega) (hp.imp_left fun hlt => by omega)
  | ahead a ih =>
    simp only [matchPattern]
    cases ha : matchPattern g call atomic a cs with
    | starved => exact absurd ha (ih hcs hp)
    | failed | matched xs mid => simp [Result.andThen]
  | notAhead a ih =>
    simp only [matchPattern]
    cases ha : matchPattern g call atomic a cs with
    | starved => exact absurd ha (ih hcs hp)
    | failed | matched xs mid => simp

theorem Ranking.length_lt (R : Ranking g) {depth : Nat} {atomic : Bool} {r : ρ}
    (hr : R.reads r) {cs rest : List Char} {parts : List (Tree ρ)}
    (h : matchRule g depth atomic r cs = .matched parts rest) : rest.length < cs.length := by
  induction depth generalizing atomic r cs rest parts with
  | zero => cases h
  | succ depth ih =>
    obtain ⟨xs, mid, hxs, hk⟩ := Result.andThen_eq_matched.mp h
    obtain ⟨-, rfl⟩ := Result.matched.inj hk
    have hwithin : Within (matchRule g depth) := fun _ _ _ _ _ => matchRule_lossless hg
    exact length_lt_of_consumes hg hwithin (fun _ _ _ _ _ hr h => ih hr h) (R.reads_body r hr) hxs

/-- A rank and the length of the text bound the depth that a match needs. -/
theorem Ranking.matchRule_ne_starved (R : Ranking g) {depth : Nat} {atomic : Bool} {r : ρ}
    {cs : List Char} (h : depthPerCharacter * cs.length + R.rank r < depth) :
    matchRule g depth atomic r cs ≠ .starved := by
  induction depth generalizing atomic r cs with
  | zero => omega
  | succ depth ih =>
    have hwithin : Within (matchRule g depth) := fun _ _ _ _ _ => matchRule_lossless hg
    have hne : matchPattern g (matchRule g depth) (atomic || g.atomic r) (g.body r) cs ≠
        .starved := by
      apply matchPattern_ne_starved hg hwithin (fun _ _ _ _ _ hr h => R.length_lt hg hr h)
        (n := cs.length) _ (Nat.le_refl _) (.inr (R.startsBelow_body r))
      -- a shorter text pays for any rank, a lower rank for one step
      intro a r' cs' hlt
      apply ih
      have hr' := R.rank_lt r'
      unfold depthPerCharacter at h hr' ⊢
      omega
    rw [matchRule]
    cases hb : matchPattern g (matchRule g depth) (atomic || g.atomic r) (g.body r) cs with
    | starved => exact absurd hb hne
    | failed | matched xs mid => simp [Result.andThen]

theorem Ranking.matchRule_depthFor_ne_starved (R : Ranking g) (r : ρ) (cs : List Char) :
    matchRule g (depthFor cs) false r cs ≠ .starved := by
  apply R.matchRule_ne_starved hg
  have := R.rank_lt r
  unfold depthFor depthPerCharacter at *
  omega

end Ranked

end PbesLab.Grammar
