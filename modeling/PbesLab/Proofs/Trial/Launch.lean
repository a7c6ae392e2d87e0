import PbesLab.Proofs.Trial.Confinement

namespace PbesLab

open PbesLab.Action

variable {τ α : Type}

/-- From the disk `d` the action gives `x` and leaves `d'`, whatever has been logged. -/
def Leads (a : Action (Bench τ) α) (d : Disk) (x : α) (d' : Disk) : Prop :=
  ∀ b : Bench τ, b.disk = d → Ends (fun y b' => y = x ∧ b'.disk = d') (fun _ _ => False) (a b)

theorem leads_pure (x : α) (d : Disk) : Leads (pure x : Action (Bench τ) α) d x d :=
  fun _ hb => ends_pure ⟨rfl, hb⟩

section

variable {a : Action (Bench τ) α} {d d' d'' : Disk} {x : α}

theorem Leads.bind {β : Type} {f : α → Action (Bench τ) β} {y : β} (h : Leads a d x d')
    (hf : Leads (f x) d' y d'') : Leads (a >>= f) d y d'' := by
  intro b hb
  apply ends_bind
  refine (h b hb).imp ?_ fun _ _ => False.elim
  rintro _ b' ⟨rfl, hb'⟩
  exact hf b' hb'

theorem Leads.tryCatch {f : Failure → Action (Bench τ) α} (h : Leads a d x d') :
    Leads (tryCatch a f) d x d' := by
  intro b hb
  apply ends_tryCatch
  exact (h b hb).imp (fun _ _ => id) fun _ _ => False.elim

theorem leads_change {change : Disk → Except FileFault Disk} (h : change d = .ok d') :
    Leads (Bench.change change : Action (Bench τ) Unit) d () d' := by
  rintro b rfl
  apply Bench.ends_change
  · intro disk hdisk
    exact ⟨rfl, Except.ok.inj (hdisk.symm.trans h)⟩
  · intro e herror
    cases h.symm.trans herror

theorem Leads.recorded (h : Leads a d x d') (call : Disk → Except Failure α → ToolCall)
    {b : Bench (τ × List ToolCall)} (hb : b.disk = d) :
    Ends (fun y b' => y = x ∧ b'.disk = d' ∧ b'.record = b.record ++ [call d (.ok x)])
      (fun _ _ => False) (Bench.recorded call a b) := by
  subst hb
  refine ⟨fun y hy => ?_, (h b.forget rfl).error⟩
  have hvalue : (a b.forget).1 = .ok y := hy
  obtain ⟨rfl, hdisk⟩ := (h b.forget rfl).ok y hvalue
  refine ⟨rfl, hdisk, ?_⟩
  rw [← hvalue]
  rfl

end

namespace Installation

variable {i : Installation} {input output : Path} {strategy : Strategy} {d d' made : Disk}
  {l : Location} {text : String}

theorem leads_launch {tool : Path} {args : List String} {sink : Shell.Sink} {ending : Shell.Ending}
    (h : Shell.runTool? d tool.text args sink i.timeout = some (ending, d'))
    (hcurrent : d'.current = d.current) : Leads (i.launch tool args sink) d ending d' := by
  rintro b rfl
  apply ends_launch
  · intro hrun
    cases h.symm.trans hrun
  · intro ending' left hrun b' hb'
    cases h.symm.trans hrun
    refine ⟨rfl, ?_⟩
    rw [hb', ← hcurrent]

theorem leads_convert (h : Shell.runTool? d i.converter.text [input.text, output.text] .nowhere
    i.timeout = some (.exited 0, d')) (hcurrent : d'.current = d.current) :
    Leads (i.tools.convert input output) d () d' := by
  have hconvert : i.tools.convert = i.convert := rfl
  rw [hconvert, convert]
  refine (leads_launch h hcurrent).bind ?_
  exact leads_pure () d'

theorem leads_abstract (h : Shell.runTool? d i.abstractor.text
    ["--strategy=" ++ strategy.text, input.text, output.text] .nowhere i.timeout =
      some (.exited 0, d')) (hcurrent : d'.current = d.current) :
    Leads (i.tools.abstract input output strategy) d true d' := by
  have habstract : i.tools.abstract = i.abstract := rfl
  rw [habstract, abstract]
  refine (leads_launch h hcurrent).bind ?_
  exact leads_pure true d'

/-- The program prints `text` to the file for its answer. -/
theorem leads_solve {printed : Disk} (hmake : d.writeText (answerPath input) "" = .ok made)
    (hl : made.locate (answerPath input) = .ok l)
    (hrun : Shell.runTool? made i.solver.text [input.text] (.file l) i.timeout =
      some (.exited 0, printed)) (hcurrent : printed.current = made.current)
    (hread : printed.readText (answerPath input) = .ok text)
    (hremove : printed.remove (answerPath input) = .ok d') :
    Leads (i.tools.solve input) d (readAnswer? text) d' := by
  have hattempt : Leads (tryCatch (some <$> i.launch i.solver [input.text] (.file l))
      fun _ => pure none) made (some (.exited 0)) printed := by
    rw [map_eq_pure_bind]
    exact ((leads_launch hrun hcurrent).bind (leads_pure (some _) printed)).tryCatch
  have hcollect : Leads (collect (answerPath input)) printed text d' := by
    rintro b rfl
    unfold collect
    rw [hread, hremove]
    exact ends_ok ⟨rfl, rfl⟩
  have hsolve : i.tools.solve = i.solve := rfl
  have hmade : Leads (Bench.change (·.writeText (answerPath input) "") : Action (Bench Unit) Unit)
      d () made := leads_change hmake
  rw [hsolve, solve]
  apply hmade.bind
  -- where the output goes is looked up on the disk with the file for the answer
  intro b hb
  apply ends_bind
  apply ends_ok
  rw [hb, hl]
  refine hattempt.bind ?_ b hb
  refine hcollect.bind ?_
  exact leads_pure (readAnswer? text) d'

end Installation

namespace Tools

variable {tools : Tools τ} {name : String} {strategy : Strategy} {d₁ d₂ d₃ d₄ d₅ : Disk}
  {x y : Option Bool}

/-- The calls of a test that finds these disks and answers. -/
def testCalls (source concrete abstracted : Path) (strategy : Strategy) (d₁ d₂ d₃ d₄ : Disk)
    (x y : Option Bool) : List ToolCall :=
  [.convert d₁ source concrete (.ok ()), .abstract d₂ concrete abstracted strategy (.ok true),
    .solve d₃ concrete (.ok x), .solve d₄ abstracted (.ok y)]

variable {source concrete abstracted : Path}

theorem ends_compare_of_leads {b : Bench (τ × List ToolCall)}
    (hconvert : Leads (tools.convert source concrete) d₁ () d₂)
    (habstract : Leads (tools.abstract concrete abstracted strategy) d₂ true d₃)
    (hbefore : Leads (tools.solve concrete) d₃ x d₄)
    (hafter : Leads (tools.solve abstracted) d₄ y d₅) (hb : b.disk = d₁) :
    Ends (fun outcome b' => outcome = .ofAnswers x y ∧
        b'.record = b.record ++ testCalls source concrete abstracted strategy d₁ d₂ d₃ d₄ x y)
      (fun _ _ => False)
      (tools.recording.compare name strategy source concrete abstracted b) := by
  apply ends_bind
  refine (hconvert.recorded (fun disk => .convert disk source concrete) hb).imp ?_ fun _ _ => id
  rintro - b₂ ⟨-, hb₂, hrecord₂⟩
  apply ends_bind
  refine (habstract.recorded (fun disk => .abstract disk concrete abstracted strategy) hb₂).imp ?_
    fun _ _ => id
  rintro done b₃ ⟨hdone, hb₃, hrecord₃⟩
  subst hdone
  apply ends_bind
  refine (hbefore.recorded (fun disk => .solve disk concrete) hb₃).imp ?_ fun _ _ => id
  rintro before b₄ ⟨hx, hb₄, hrecord₄⟩
  apply ends_bind
  refine (hafter.recorded (fun disk => .solve disk abstracted) hb₄).imp ?_ fun _ _ => id
  rintro after b₅ ⟨hy, -, hrecord₅⟩
  refine ends_bind (ends_ok (ends_pure ⟨by rw [hx, hy], ?_⟩))
  have hlogged (line : LogLine) : (b₅.tell line).record = b₅.record := rfl
  rw [hlogged, hrecord₅, hrecord₄, hrecord₃, hrecord₂]
  simp only [testCalls, List.append_assoc, List.cons_append, List.nil_append]

/-- If the answers agree, these are the calls of the whole operation. -/
theorem record_checkAndMinimize_of_leads {dir : Path} {bench : Bench τ} {s : EqSystem}
    (hsource : dir.join ⟨sourceName (name ++ "_check")⟩ = source)
    (hconcrete : dir.join ⟨concreteName (name ++ "_check")⟩ = concrete)
    (habstracted : dir.join ⟨abstractedName (name ++ "_check")⟩ = abstracted)
    (hwrite : bench.disk.writeText source s.text = .ok d₁)
    (hconvert : Leads (tools.convert source concrete) d₁ () d₂)
    (habstract : Leads (tools.abstract concrete abstracted strategy) d₂ true d₃)
    (hbefore : Leads (tools.solve concrete) d₃ x d₄)
    (hafter : Leads (tools.solve abstracted) d₄ y d₅)
    (hpassed : (Outcome.ofAnswers x y).passed = true) (keepFiles : Bool) :
    (tools.recording.checkAndMinimize keepFiles s name strategy
        (Session.recorded ⟨bench, .within dir⟩)).2.record =
      testCalls source concrete abstracted strategy d₁ d₂ d₃ d₄ x y := by
  let P (st : Session (τ × List ToolCall)) : Prop :=
    st.record = testCalls source concrete abstracted strategy d₁ d₂ d₃ d₄ x y
  subst hsource hconcrete habstracted
  have hend : Ends (fun _ => P) (fun _ => P)
      (tools.recording.check s name strategy (Session.recorded ⟨bench, .within dir⟩)) := by
    apply ends_bind
    apply ends_test
    · intro disk hdisk
      cases hwrite.symm.trans hdisk
      refine (ends_compare_of_leads hconvert habstract hbefore hafter rfl).imp ?_
        fun _ _ => False.elim
      rintro outcome b ⟨rfl, hrecord⟩
      apply ends_bind
      apply ends_ok
      -- a test that passes is not followed by a search
      rw [if_pos hpassed]
      exact ends_pure hrecord
    · intro e herror
      cases hwrite.symm.trans herror
  rw [checkAndMinimize_eq, Session.record_finishing]
  exact hend.final

end Tools

end PbesLab
