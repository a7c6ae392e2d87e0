import PbesLab.Proofs.Trial.Recording
import PbesLab.Proofs.Trial.Traces
import PbesLab.Trial.Installation

namespace PbesLab

open PbesLab.Action

variable {τ : Type}

/-- What happens twice at the place of one path happens there only. -/
theorem Disk.OnlyAt.again {d d' d'' : Disk} {p : Path} {l : Location} (hl : d.locate p = .ok l)
    (h : OnlyAt (d.locate p = .ok ·) d d') (h' : OnlyAt (d'.locate p = .ok ·) d' d'') :
    OnlyAt (d.locate p = .ok ·) d d'' where
  current := h'.current.trans h.current
  elsewhere k hk := by
    have hk' : d'.locate p ≠ .ok k := by
      rw [h.locate hl]
      rintro ⟨⟩
      exact hk hl
    exact (h'.elsewhere k hk').trans (h.elsewhere k hk)
  directory k hk := h'.directory k (h.directory k hk)

/-- On the disk that this call finds, the tools leave things at its output only, and a solver where
its answer belongs. -/
def Tools.Confines (tools : Tools τ) : ToolCall → Prop
  | .convert disk input output _ => ∀ b : Bench τ, b.disk = disk →
    disk.OnlyAt (disk.locate output = .ok ·) (tools.convert input output b).2.disk
  | .abstract disk input output strategy _ => ∀ b : Bench τ, b.disk = disk →
    disk.OnlyAt (disk.locate output = .ok ·) (tools.abstract input output strategy b).2.disk
  | .solve disk input _ => ∀ b : Bench τ, b.disk = disk →
    disk.OnlyAt (disk.locate (Installation.answerPath input) = .ok ·) (tools.solve input b).2.disk

namespace Installation

variable {i : Installation} {b : Bench Unit}

/-- What a program leaves on a disk when it is launched. -/
def LeavesOnly (i : Installation) (tool : Path) (args : List String) (output : Shell.Sink)
    (d : Disk) (P : Location → Prop) : Prop :=
  ∀ ending d', Shell.runTool? d tool.text args output i.timeout = some (ending, d') →
    d.OnlyAt P { d' with current := d.current }

instance {tool : Path} {args : List String} {output : Shell.Sink} {d : Disk} {P : Location → Prop}
    [DecidablePred P] : Decidable (i.LeavesOnly tool args output d P) :=
  match h : Shell.runTool? d tool.text args output i.timeout with
  | none => isTrue fun _ _ hrun => nomatch h.symm.trans hrun
  | some (_, d') =>
    decidable_of_iff (d.OnlyAt P { d' with current := d.current })
      ⟨fun honly _ _ hrun => by cases h.symm.trans hrun; exact honly, fun hleaves => hleaves _ _ h⟩

/-- On the disk that this call finds, the program that it launches leaves things at its output only.
The output of a solver is the file that is made for its answer. -/
def ConfinedAt (i : Installation) : ToolCall → Prop
  | .convert d input output _ =>
    i.LeavesOnly i.converter [input.text, output.text] .nowhere d (d.locate output = .ok ·)
  | .abstract d input output strategy _ =>
    i.LeavesOnly i.abstractor ["--strategy=" ++ strategy.text, input.text, output.text] .nowhere d
      (d.locate output = .ok ·)
  | .solve d input _ => ∀ made l, d.writeText (answerPath input) "" = .ok made →
    made.locate (answerPath input) = .ok l →
      i.LeavesOnly i.solver [input.text] (.file l) made (· = l)

instance : DecidablePred i.ConfinedAt
  | .convert d input output _ =>
    inferInstanceAs (Decidable (i.LeavesOnly i.converter [input.text, output.text] .nowhere d
      (d.locate output = .ok ·)))
  | .abstract d input output strategy _ =>
    inferInstanceAs (Decidable (i.LeavesOnly i.abstractor
      ["--strategy=" ++ strategy.text, input.text, output.text] .nowhere d
      (d.locate output = .ok ·)))
  | .solve d input _ =>
    match hmade : d.writeText (answerPath input) "" with
    | .error _ => isTrue fun _ _ hwrite _ => nomatch hmade.symm.trans hwrite
    | .ok made =>
      match hl : made.locate (answerPath input) with
      | .error _ => isTrue fun _ _ hwrite hplace => by
        cases hmade.symm.trans hwrite
        cases hl.symm.trans hplace
      | .ok l =>
        decidable_of_iff (i.LeavesOnly i.solver [input.text] (.file l) made (· = l))
          ⟨fun hleaves _ _ hwrite hplace => by
            cases hmade.symm.trans hwrite
            cases hl.symm.trans hplace
            exact hleaves, fun hconfined => hconfined made l hmade hl⟩

/-- What a program leaves is there after its launch, but for where relative paths start. -/
theorem ends_launch {tool : Path} {args : List String} {output : Shell.Sink}
    {Q : Shell.Ending → Bench Unit → Prop} {E : Failure → Bench Unit → Prop}
    (hnone : Shell.runTool? b.disk tool.text args output i.timeout = none →
      ∀ b', b'.disk = b.disk → E (.notExecutable tool.text) b')
    (hsome : ∀ ending d, Shell.runTool? b.disk tool.text args output i.timeout = some (ending, d) →
      ∀ b', b'.disk = { d with current := b.disk.current } → Q ending b') :
    Ends Q E (i.launch tool args output b) := by
  have hdisk (line : LogLine) : (b.tell line).disk = b.disk := rfl
  unfold launch
  apply ends_bind
  apply ends_ok
  apply ends_bind
  apply ends_ok
  rw [hdisk]
  cases hrun : Shell.runTool? b.disk tool.text args output i.timeout with
  | none => exact ends_error (hnone hrun _ rfl)
  | some ended =>
    have hended := hsome ended.1 ended.2 hrun
    dsimp only
    apply ends_bind
    apply ends_ok
    split
    · exact ends_bind (ends_ok (ends_pure (hended _ rfl)))
    · exact ends_pure (hended _ rfl)

theorem onlyAt_launch {tool : Path} {args : List String} {output : Shell.Sink}
    {P : Location → Prop} (h : i.LeavesOnly tool args output b.disk P) :
    b.disk.OnlyAt P (i.launch tool args output b).2.disk := by
  apply Ends.final (P := fun b' : Bench Unit => b.disk.OnlyAt P b'.disk)
  apply ends_launch
  · intro _ b' hb'
    rw [hb']
    exact .refl P b.disk
  · intro ending d hrun b' hb'
    rw [hb']
    exact h ending d hrun

theorem onlyAt_collect (path : Path) (b : Bench Unit) :
    b.disk.OnlyAt (b.disk.locate path = .ok ·) (collect path b).2.disk := by
  unfold collect
  -- whether or not there is an output to read, the disk is the one without it
  cases b.disk.readText path <;> cases hremove : b.disk.remove path with
  | error e => exact .refl _ b.disk
  | ok disk =>
    obtain ⟨l, hl, -, hdir, rfl⟩ := Disk.remove_eq_ok.mp hremove
    exact ((Disk.changedIn_drop hdir).mono fun k hk => hk ▸ hl).onlyAt

/-- What comes after a program does not matter to the disk. -/
theorem onlyAt_launch_bind {α : Type} {tool : Path} {args : List String} {output : Shell.Sink}
    {P : Location → Prop} {f : Shell.Ending → Action (Bench Unit) α}
    (h : i.LeavesOnly tool args output b.disk P)
    (hf : ∀ ending b', (f ending b').2.disk = b'.disk) :
    b.disk.OnlyAt P ((i.launch tool args output >>= f) b).2.disk := by
  have hlaunch := onlyAt_launch h
  rw [bind_apply]
  rcases hend : i.launch tool args output b with ⟨e | ending, b'⟩
  · rw [hend] at hlaunch
    exact hlaunch
  · rw [hend] at hlaunch
    dsimp only
    rw [hf]
    exact hlaunch

/-- The answer of a solver comes and goes at one place. -/
theorem ConfinedAt.onlyAt_solve {input : Path} {result : Except Failure (Option Bool)}
    (h : i.ConfinedAt (.solve b.disk input result)) :
    b.disk.OnlyAt (b.disk.locate (answerPath input) = .ok ·) (i.solve input b).2.disk := by
  let path := answerPath input
  let P := fun b' : Bench Unit => b.disk.OnlyAt (b.disk.locate path = .ok ·) b'.disk
  apply Ends.final (P := P)
  unfold solve
  apply ends_bind
  apply Bench.ends_change
  · intro made hwrite
    have hwritten : P ⟨made, b.log, b.tools⟩ := Disk.onlyAt_write hwrite
    obtain ⟨l, hl, -⟩ := Disk.write_eq_ok.mp hwrite
    have hplace : b.disk.locate path = .ok l := (Disk.writable_eq_ok.mp hl).1
    have hplace' : made.locate path = .ok l := hwritten.locate hplace
    have hleft := onlyAt_launch (b := ⟨made, b.log, b.tools⟩) (h made l hwrite hplace')
    have hlaunch : Ends (fun _ => P) (fun _ => P)
        (i.launch i.solver [input.text] (.file l) ⟨made, b.log, b.tools⟩) := by
      have hend := hwritten.again hplace (hleft.mono fun k hk => hk ▸ hplace')
      exact ⟨fun _ _ => hend, fun _ _ => hend⟩
    have hcollect : Keeps P (collect path) := fun b' hb' =>
      hb'.again hplace (onlyAt_collect path b')
    have hattempt : Ends (fun _ => P) (fun _ => P)
        ((tryCatch (some <$> i.launch i.solver [input.text] (.file l)) fun _ => pure none :
          Action (Bench Unit) (Option Shell.Ending)) ⟨made, b.log, b.tools⟩) := by
      apply ends_tryCatch
      rw [map_eq_pure_bind]
      apply ends_bind
      exact hlaunch.imp (fun _ _ hb' => ends_pure hb') fun _ _ hb' => ends_pure hb'
    apply ends_bind
    apply ends_ok
    dsimp only
    rw [hplace']
    apply ends_bind
    refine hattempt.imp (fun ending b' hb' => ?_) fun _ _ => id
    -- whether or not the program could be launched, what it has left is collected
    refine Keeps.ends (hcollect.bind fun output => ?_) hb'
    split
    · exact fun _ => id
    · exact keeps_pure P _
    · exact keeps_pure P none
    · exact Keeps.bind (fun _ => id) fun _ => keeps_pure P none
  · exact fun e _ => .refl _ b.disk

/-- Around confined programs the tools are confined. -/
theorem ConfinedAt.confines {call : ToolCall} (h : i.ConfinedAt call) : i.tools.Confines call := by
  cases call with
  | convert disk input output result =>
    rintro b rfl
    have hconvert : i.tools.convert = i.convert := rfl
    rw [hconvert, convert]
    refine onlyAt_launch_bind h fun ending b' => ?_
    split
    · rfl
    · rfl
  | abstract disk input output strategy result =>
    rintro b rfl
    have habstract : i.tools.abstract = i.abstract := rfl
    rw [habstract, abstract]
    refine onlyAt_launch_bind h fun ending b' => ?_
    split
    · rfl
    · split
      · rfl
      · rfl
  | solve disk input result =>
    rintro b rfl
    have hsolve : i.tools.solve = i.solve := rfl
    rw [hsolve]
    exact h.onlyAt_solve

end Installation

end PbesLab
