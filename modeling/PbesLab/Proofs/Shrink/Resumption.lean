import PbesLab.Proofs.Shrink.Minimum
import PbesLab.Proofs.Shrink.Termination
import PbesLab.Proofs.Trial.Action
import Mathlib.Data.List.Induction

namespace PbesLab.Search

variable {σ τ ε : Type}

theorem answer_of_mem_passing {qs : List EqSystem} {c : Call ε} (hc : c ∈ passing qs) :
    c.answer = .ok true := by
  obtain ⟨q, -, rfl⟩ := List.mem_map.mp hc
  rfl

/-- A run ends well after answers only, or else right after the one call that breaks. -/
theorem Run.ends {s : EqSystem} {calls : List (Call ε)} {result : Except ε EqSystem}
    (h : Run s calls result) :
    (∃ r, result = .ok r ∧ ∀ c ∈ calls, ∃ b, c.answer = .ok b) ∨
      ∃ before q e, calls = before ++ [⟨q, .error e⟩] ∧ result = .error e ∧
        ∀ c ∈ before, ∃ b, c.answer = .ok b := by
  induction h with
  | exhausted s => exact .inl ⟨s, rfl, fun c hc => ⟨true, answer_of_mem_passing hc⟩⟩
  | @found s before q after calls result split rest ih =>
    -- the sweep before the rest of the run consists of answers
    have hsweep {cs : List (Call ε)} (hcs : ∀ c ∈ cs, ∃ b, c.answer = .ok b) :
        ∀ c ∈ passing before ++ ⟨q, .ok false⟩ :: cs, ∃ b, c.answer = .ok b :=
      List.forall_mem_append.mpr ⟨fun c hc => ⟨true, answer_of_mem_passing hc⟩,
        List.forall_mem_cons.mpr ⟨⟨false, rfl⟩, hcs⟩⟩
    obtain ⟨r, hr, hok⟩ | ⟨init, x, e, rfl, hr, hok⟩ := ih
    · exact .inl ⟨r, hr, hsweep hok⟩
    · exact .inr ⟨passing before ++ ⟨q, .ok false⟩ :: init, x, e, by simp, hr, hsweep hok⟩
  | @broken s before q after e split =>
    exact .inr ⟨passing before, q, e, rfl, rfl, fun c hc => ⟨true, answer_of_mem_passing hc⟩⟩

theorem Run.of_broken {s : EqSystem} {before after : List (Call ε)} {c : Call ε}
    {result : Except ε EqSystem} (h : Run s (before ++ c :: after) result) {e : ε}
    (he : c.answer = .error e) : after = [] ∧ result = .error e := by
  have hnot {cs : List (Call ε)} (hok : ∀ d ∈ cs, ∃ b, d.answer = .ok b) : c ∉ cs := by
    intro hc
    obtain ⟨b, hb⟩ := hok c hc
    rw [he] at hb
    cases hb
  obtain ⟨r, -, hok⟩ | ⟨init, q, e', hcalls, rfl, hok⟩ := h.ends
  · exact absurd (by simp) (hnot hok)
  · obtain rfl | ⟨rest, d, rfl⟩ := List.eq_nil_or_concat after
    · obtain ⟨-, hlast⟩ := List.append_inj' hcalls rfl
      obtain rfl := List.singleton_inj.mp hlast
      exact ⟨rfl, congrArg _ (Except.error.inj he)⟩
    · have hcalls' : (before ++ c :: rest) ++ [d] = init ++ [⟨q, .error e'⟩] := by
        rw [← hcalls]
        simp
      obtain ⟨rfl, -⟩ := List.append_inj' hcalls' rfl
      exact absurd (by simp) (hnot hok)

/-- The system of the last call that failed, if any did, and else the start. -/
def lastFailure (s : EqSystem) (calls : List (Call ε)) : EqSystem :=
  ((calls.filter Call.fails).getLast?.map Call.system).getD s

theorem next_of_not_fails {s : EqSystem} {c : Call ε} (h : ¬ c.fails) : c.next s = s := by
  unfold Call.fails at h
  unfold Call.next
  split
  · next hanswer =>
    rw [hanswer] at h
    exact absurd rfl h
  · rfl

theorem currentAfter_eq_lastFailure (s : EqSystem) (calls : List (Call ε)) :
    currentAfter s calls = lastFailure s calls := by
  induction calls using List.reverseRecOn with
  | nil => rfl
  | append_singleton calls c ih =>
    rw [currentAfter_append, lastFailure, List.filter_append]
    change c.next (currentAfter s calls) = _
    by_cases hc : c.fails
    · rw [c.next_of_fails hc, List.filter_cons_of_pos hc]
      simp
    · rw [next_of_not_fails hc, List.filter_cons_of_neg hc, ih]
      simp [lastFailure]

/-- What is stored after a search is what is current then. -/
theorem write_current (m : Search) (dir : Path) (b : Bench τ) {disk : Disk}
    (h : b.disk.writeText (dir.join ⟨m.resultName⟩) m.current.text = .ok disk) :
    ∃ b', m.write dir b = (.ok (dir.join ⟨m.resultName⟩), b') ∧ b'.disk = disk := by
  have hwrite : (Bench.change (·.writeText (dir.join ⟨m.resultName⟩) m.current.text) :
      Action (Bench τ) Unit) b = (.ok (), { b with disk }) := by
    unfold Bench.change
    dsimp only
    rw [h]
  unfold write
  rw [Action.bind_apply, hwrite]
  exact ⟨_, rfl, rfl⟩

/-- A run from where another has broken, put behind the answers of the other, is a run. -/
theorem Run.resume {s : EqSystem} {e : ε} {calls calls' : List (Call ε)}
    {result : Except ε EqSystem} (h : Run s calls (.error e))
    (h' : Run (currentAfter s calls) calls' result) :
    ∃ all, Run s all result ∧
      ∀ c ∈ all, (c ∈ calls ∧ ∃ b, c.answer = .ok b) ∨ c ∈ calls' := by
  generalize hres : Except.error e = broken at h
  induction h with
  | exhausted s => cases hres
  | @found s before q after calls result split rest ih =>
    rw [currentAfter_append, currentAfter_passing] at h'
    obtain ⟨all, hall, hmem⟩ := ih h' hres
    refine ⟨_, .found split hall, List.forall_mem_append.mpr ⟨fun c hc => ?_,
      List.forall_mem_cons.mpr ⟨.inl ⟨by simp, false, rfl⟩, fun c hc => ?_⟩⟩⟩
    · exact .inl ⟨List.mem_append_left _ hc, true, answer_of_mem_passing hc⟩
    · obtain ⟨hc, hok⟩ | hc := hmem c hc
      · exact .inl ⟨List.mem_append_right _ (List.mem_cons_of_mem _ hc), hok⟩
      · exact .inr hc
  | broken split =>
    rw [currentAfter_append, currentAfter_passing] at h'
    exact ⟨calls', h', fun c hc => .inr hc⟩

def AnswersBy (passes : EqSystem → Bool) (calls : List (Call ε)) : Prop :=
  ∀ c ∈ calls, c.answer = .ok (passes c.system)

/-- With the answers of a predicate a sweep moves on to the first system on which it fails. -/
theorem find?_lighter {passes : EqSystem → Bool} {s q : EqSystem} {before after : List EqSystem}
    {rest : List (Call ε)} (split : lighter s = before ++ q :: after)
    (h : AnswersBy passes (passing before ++ ⟨q, .ok false⟩ :: rest)) :
    (lighter s).find? (fun x => !passes x) = some q := by
  rw [List.find?_eq_some_iff_append]
  have hq : Except.ok false = .ok (passes q) := h ⟨q, .ok false⟩ (by simp)
  refine ⟨by simp [← Except.ok.inj hq], before, after, split, fun x hx => ?_⟩
  have hx : Except.ok true = .ok (passes x) :=
    h ⟨x, .ok true⟩ (List.mem_append_left _ (List.mem_map.mpr ⟨x, hx, rfl⟩))
  simp [← Except.ok.inj hx]

theorem find?_lighter_eq_none {passes : EqSystem → Bool} {s : EqSystem}
    (h : AnswersBy passes (passing (lighter s) : List (Call ε))) :
    (lighter s).find? (fun x => !passes x) = none := by
  rw [List.find?_eq_none]
  intro x hx
  have hx : Except.ok true = .ok (passes x) := h ⟨x, .ok true⟩ (List.mem_map.mpr ⟨x, hx, rfl⟩)
  simp [← Except.ok.inj hx]

/-- The answers of a predicate leave one run only. -/
theorem Run.unique {passes : EqSystem → Bool} {s : EqSystem} {calls calls' : List (Call ε)}
    {result result' : Except ε EqSystem} (h : Run s calls result) (hcalls : AnswersBy passes calls)
    (h' : Run s calls' result') (hcalls' : AnswersBy passes calls') : result' = result := by
  have hbroken {before : List EqSystem} {q : EqSystem} {e : ε} :
      ¬ AnswersBy passes (passing before ++ [⟨q, .error e⟩]) :=
    fun hanswers => nomatch hanswers ⟨q, .error e⟩ (by simp)
  induction h generalizing calls' with
  | exhausted s =>
    have hnone := find?_lighter_eq_none hcalls
    cases h' with
    | exhausted => rfl
    | found split rest => cases hnone.symm.trans (find?_lighter split hcalls')
    | broken split => exact absurd hcalls' hbroken
  | @found s before q after calls result split rest ih =>
    have hfirst := find?_lighter split hcalls
    have hrest : AnswersBy passes calls :=
      fun c hc => hcalls c (List.mem_append_right _ (List.mem_cons_of_mem _ hc))
    cases h' with
    | exhausted => cases hfirst.symm.trans (find?_lighter_eq_none hcalls')
    | @found _ _ q' _ calls' _ split' rest' =>
      obtain rfl : q = q' := Option.some.inj (hfirst.symm.trans (find?_lighter split' hcalls'))
      exact ih hrest rest' fun c hc =>
        hcalls' c (List.mem_append_right _ (List.mem_cons_of_mem _ hc))
    | broken split' => exact absurd hcalls' hbroken
  | broken split => exact absurd hcalls hbroken

/-- A search whose test breaks ends with that break, right after the call. It stands on the system
of the last call before that failed, or else on its start, and this is what is stored. If apart from
the break the answers are those of a predicate, in this search and when it goes on from where it
stands, the result then is that of a search with the predicate. -/
theorem run_breaks_and_resumes (p : Probe σ ε) (name : String) (s : EqSystem) (st : σ) :
    (∀ before c after e, calls p (start name s) st = before ++ c :: after → c.answer = .error e →
      after = [] ∧ (run p (start name s) st).1 = .error e ∧
        (run p (start name s) st).2.1.current = lastFailure s before ∧
        ∀ (dir : Path) (b : Bench τ) disk,
          b.disk.writeText (dir.join ⟨name ++ "_minimized.txt"⟩) (lastFailure s before).text =
            .ok disk →
          ∃ b', (run p (start name s) st).2.1.write dir b =
            (.ok (dir.join ⟨name ++ "_minimized.txt"⟩), b') ∧ b'.disk = disk) ∧
    ∀ passes e m st', run p (start name s) st = (.error e, m, st') →
      (∀ c ∈ calls p (start name s) st, ∀ b, c.answer = .ok b → b = passes c.system) →
      AnswersBy passes (calls p m st') →
      ∃ r, (run p m st').1 = .ok r ∧ ∀ (p' : Probe τ ε) (st'' : τ), p'.Pure passes →
        (run p' (start name s) st'').1 = .ok r := by
  have hrun := run_calls p (start name s) st
  have hreached := reached_run p name s st
  have hname := (run_place p (start name s) st).1
  constructor
  · intro before c after e hcalls he
    rw [hcalls] at hrun hreached
    obtain ⟨rfl, hresult⟩ := hrun.of_broken he
    have hcurrent : (run p (start name s) st).2.1.current = lastFailure s before := by
      rw [hreached.current, currentAfter_append, ← currentAfter_eq_lastFailure]
      exact next_of_not_fails (by simp [Call.fails, he])
    refine ⟨rfl, hresult, hcurrent, fun dir b disk hwrite => ?_⟩
    have hresultName : (run p (start name s) st).2.1.resultName = name ++ "_minimized.txt" := by
      rw [resultName, hname]
      rfl
    rw [← hresultName] at hwrite ⊢
    rw [← hcurrent] at hwrite
    exact write_current _ dir b hwrite
  · intro passes e m st' hend hanswers hanswers'
    rw [hend] at hrun hreached
    have hrun' := run_calls p m st'
    rw [hreached.current] at hrun'
    -- without the call that broke, the calls of both searches are those of one run
    obtain ⟨all, hall, hmem⟩ := hrun.resume hrun'
    have hpure : AnswersBy passes all := by
      intro c hc
      obtain ⟨hc, b, hb⟩ | hc := hmem c hc
      · rw [hb, hanswers c hc b hb]
      · exact hanswers' c hc
    -- in that run every call has an answer, so it ends as the run of any pure test does
    obtain ⟨r, hr, -⟩ | ⟨init, q, e', rfl, -, -⟩ := hall.ends
    · refine ⟨r, hr, fun p' st'' hp' => ?_⟩
      have hcalls' : AnswersBy passes (calls p' (start name s) st'') := by
        intro c hc
        obtain ⟨x, hx⟩ := answers_of_mem_calls hc
        rw [← hx, hp' c.system x]
      rw [← hr]
      exact hall.unique hpure (run_calls p' (start name s) st'') hcalls'
    · exact nomatch hpure ⟨q, .error e'⟩ (by simp)

/-- Fails as long as some equation has two nodes. The fourth call breaks. -/
def brittleProbe : Probe Nat String where
  passes q n := (if n = 3 then .error "lost" else .ok (q.equations.all fun e => e.rhs.size < 2),
    n + 1)
  note _ n := n

def onlyEquation (f : Formula) : EqSystem :=
  ⟨[⟨.mu, "X", [], f⟩], ⟨"X", []⟩⟩

theorem brittleProbe_resumes :
    let s := onlyEquation (.neg (.neg (.const true)))
    let passes := fun q : EqSystem => q.equations.all fun e => e.rhs.size < 2
    let before : List (Call String) := [⟨onlyEquation (.const true), .ok true⟩,
      ⟨onlyEquation (.const false), .ok true⟩, ⟨onlyEquation (.neg (.const true)), .ok false⟩]
    let lost : Call String := ⟨onlyEquation (.const true), .error "lost"⟩
    let room : Bench Nat := ⟨⟨[(["w"], .directory)], []⟩, [], 0⟩
    ∃ m st', calls brittleProbe (start "x" s) 0 = before ++ [lost] ∧
      run brittleProbe (start "x" s) 0 = (.error "lost", m, st') ∧
      m.current = onlyEquation (.neg (.const true)) ∧
      (∃ b', m.write ⟨"w"⟩ room = (.ok ⟨"w/x_minimized.txt"⟩, b') ∧
        room.disk.writeText ⟨"w/x_minimized.txt"⟩ m.current.text = .ok b'.disk) ∧
      (∀ c ∈ before ++ [lost], ∀ b, c.answer = .ok b → b = passes c.system) ∧
      AnswersBy passes (calls brittleProbe m st') ∧
      ∃ r, (run brittleProbe m st').1 = .ok r ∧ ∀ (p' : Probe Nat String) (st'' : Nat),
        p'.Pure passes → (run p' (start "x" s) st'').1 = .ok r := by
  intro s passes before lost room
  let m : Search := ⟨"x", onlyEquation (.neg (.const true)), 4⟩
  let again : List (Call String) := [⟨onlyEquation (.const true), .ok true⟩,
    ⟨onlyEquation (.const false), .ok true⟩, ⟨onlyEquation (.const true), .ok true⟩]
  have hnote : ∀ line st, brittleProbe.recording.note line st = st := fun _ _ => rfl
  have hbreak : run brittleProbe.recording (start "x" s) (0, []) =
      (.error "lost", m, 4, before ++ [lost]) := by
    have hdescend : descend brittleProbe.recording (start "x" s) (0, []) =
        (.error "lost", m, 4, before ++ [lost]) :=
      Option.some.inj ((descendWithin_eq (k := 5) _ _ (by decide)).symm.trans rfl)
    unfold run
    dsimp only
    rw [hnote, hdescend]
  have hagain : run brittleProbe.recording m (4, []) =
      (.ok m.current, { m with attempts := 7 }, 7, again) := by
    have hdescend : descend brittleProbe.recording m (4, []) =
        (.ok m.current, { m with attempts := 7 }, 7, again) :=
      Option.some.inj ((descendWithin_eq (k := 4) _ _ (by decide)).symm.trans rfl)
    unfold run
    dsimp only
    rw [hnote, hdescend]
    rfl
  have hrun : run brittleProbe (start "x" s) 0 = (.error "lost", m, 4) := by
    have hforget := run_forget brittleProbe (start "x" s) (0, [])
    rw [hbreak] at hforget
    exact hforget.symm
  have hcalls : calls brittleProbe (start "x" s) 0 = before ++ [lost] :=
    congrArg (fun x => x.2.2.2) hbreak
  have hcalls' : calls brittleProbe m 4 = again := congrArg (fun x => x.2.2.2) hagain
  have hanswers : ∀ c ∈ before ++ [lost], ∀ b, c.answer = .ok b → b = passes c.system := by
    decide
  have hanswers' : AnswersBy passes again := by
    unfold AnswersBy
    decide
  obtain ⟨hbreaks, hresumes⟩ := run_breaks_and_resumes (τ := Nat) brittleProbe "x" s 0
  obtain ⟨-, -, hcurrent, hstore⟩ := hbreaks before lost [] "lost" hcalls rfl
  rw [hrun] at hcurrent hstore
  obtain ⟨disk, hdisk⟩ : ∃ disk, room.disk.writeText ⟨"w/x_minimized.txt"⟩
      (lastFailure s before).text = .ok disk := ⟨_, rfl⟩
  obtain ⟨b', hwrite, rfl⟩ := hstore ⟨"w"⟩ room disk hdisk
  exact ⟨m, 4, hcalls, hrun, hcurrent, ⟨b', hwrite, hdisk⟩, hanswers, hcalls'.symm ▸ hanswers',
    hresumes passes "lost" m 4 hrun (hcalls.symm ▸ hanswers) (hcalls'.symm ▸ hanswers')⟩

end PbesLab.Search
