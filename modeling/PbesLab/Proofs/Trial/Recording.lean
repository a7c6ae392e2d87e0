import PbesLab.Proofs.Shrink.Run
import PbesLab.Proofs.Trial.Action

namespace PbesLab

open PbesLab.Action

variable {τ α : Type}

/-- A call of a tool, with the disk that it finds, and what comes of it. -/
inductive ToolCall
  | convert (disk : Disk) (input output : Path) (result : Except Failure Unit)
  | abstract (disk : Disk) (input output : Path) (strategy : Strategy)
    (result : Except Failure Bool)
  | solve (disk : Disk) (input : Path) (result : Except Failure (Option Bool))

namespace Bench

def forget (b : Bench (τ × List ToolCall)) : Bench τ :=
  ⟨b.disk, b.log, b.tools.1⟩

def recorded (call : Disk → Except Failure α → ToolCall) (a : Action (Bench τ) α) :
    Action (Bench (τ × List ToolCall)) α := fun b =>
  let (r, b') := a b.forget
  (r, ⟨b'.disk, b'.log, b'.tools, b.tools.2 ++ [call b.disk r]⟩)

theorem over_recorded (call : Disk → Except Failure α → ToolCall) (a : Action (Bench τ) α) :
    Over forget (recorded call a) a :=
  fun _ => rfl

theorem over_change (f : Disk → Except FileFault Disk) :
    Over (forget : Bench (τ × List ToolCall) → Bench τ) (change f) (change f) := by
  intro b
  unfold change
  cases h : f b.disk with
  | ok disk => simp [forget, h]
  | error e => simp [forget, h]

theorem over_say (area : Area) (level : Level) (message : String) :
    Over (forget : Bench (τ × List ToolCall) → Bench τ) (say area level message)
      (say area level message) :=
  fun _ => rfl

theorem forget_tellAll (b : Bench (τ × List ToolCall)) (lines : List LogLine) :
    (b.tellAll lines).forget = b.forget.tellAll lines := by
  induction lines generalizing b with
  | nil => rfl
  | cons line lines ih => exact ih (b.tell line)

end Bench

def Bench.record (b : Bench (τ × List ToolCall)) : List ToolCall :=
  b.tools.2

def Session.record (st : Session (τ × List ToolCall)) : List ToolCall :=
  st.bench.record

theorem Bench.record_tellAll (b : Bench (τ × List ToolCall)) (lines : List LogLine) :
    (b.tellAll lines).record = b.record := by
  induction lines generalizing b with
  | nil => rfl
  | cons line lines ih => exact ih (b.tell line)

theorem Session.record_finish (keepFiles : Bool) (st : Session (τ × List ToolCall)) :
    (st.finish keepFiles).record = st.record := by
  cases keepFiles with
  | true => rfl
  | false => exact Bench.record_tellAll _ _

theorem Session.record_finishing (keepFiles : Bool) (a : Action (Session (τ × List ToolCall)) α)
    (st : Session (τ × List ToolCall)) : (finishing keepFiles a st).2.record = (a st).2.record :=
  record_finish keepFiles (a st).2

theorem Bench.keeps_record_change (f : Disk → Except FileFault Disk) (record : List ToolCall) :
    Keeps (fun b : Bench (τ × List ToolCall) => b.record = record) (change f) := by
  intro b hb
  unfold change
  split
  · exact hb
  · exact hb

/-- Storing the result of a search involves no tool. -/
theorem Search.keeps_record_write (m : Search) (dir : Path) (record : List ToolCall) :
    Keeps (fun b => b.record = record)
      (m.write dir : Action (Bench (τ × List ToolCall)) Path) :=
  Keeps.bind (Bench.keeps_record_change _ _) fun _ =>
    Keeps.bind (fun _ h => h) fun _ => keeps_pure _ _

def Session.recorded (st : Session τ) : Session (τ × List ToolCall) :=
  ⟨⟨st.bench.disk, st.bench.log, st.bench.tools, []⟩, st.registry⟩

def Session.forget (st : Session (τ × List ToolCall)) : Session τ :=
  st.map Bench.forget

theorem Session.forget_recorded (st : Session τ) : st.recorded.forget = st :=
  rfl

theorem Session.forget_finish (keepFiles : Bool) (st : Session (τ × List ToolCall)) :
    (st.finish keepFiles).forget = st.forget.finish keepFiles := by
  cases keepFiles with
  | true => rfl
  | false =>
    exact congrArg (fun bench => Session.mk bench st.registry.cleared) (Bench.forget_tellAll _ _)

theorem Session.over_finishing {a : Action (Session (τ × List ToolCall)) α}
    {a' : Action (Session τ) α} (keepFiles : Bool) (h : Over forget a a') :
    Over forget (finishing keepFiles a) (finishing keepFiles a') := by
  intro st
  unfold finishing
  rw [h st]
  exact congrArg _ (forget_finish keepFiles (a st).2).symm

namespace Tools

/-- The same tools with a record, the latest call at the end. -/
def recording (tools : Tools τ) : Tools (τ × List ToolCall) where
  convert input output :=
    Bench.recorded (fun disk => .convert disk input output) (tools.convert input output)
  abstract input output strategy :=
    Bench.recorded (fun disk => .abstract disk input output strategy)
      (tools.abstract input output strategy)
  solve input := Bench.recorded (fun disk => .solve disk input) (tools.solve input)

variable (tools : Tools τ)

theorem over_judge (name : String) (strategy : Strategy) (concrete abstracted : Path)
    (done : Bool) :
    Over Bench.forget (tools.recording.judge name strategy concrete abstracted done)
      (tools.judge name strategy concrete abstracted done) := by
  have hsolve (input : Path) :
      Over Bench.forget (tools.recording.solve input) (tools.solve input) :=
    Bench.over_recorded _ _
  unfold judge
  refine Over.bind (hsolve concrete) fun before => ?_
  refine Over.bind ?_ fun after => Over.bind (Bench.over_say _ _ _) fun _ => over_pure _
  cases done with
  | false => exact over_pure none
  | true => exact hsolve abstracted

theorem over_compare (name : String) (strategy : Strategy) (source concrete abstracted : Path) :
    Over Bench.forget (tools.recording.compare name strategy source concrete abstracted)
      (tools.compare name strategy source concrete abstracted) := by
  unfold compare
  refine Over.bind (Bench.over_recorded _ _) fun _ => ?_
  refine Over.bind (Bench.over_recorded _ _) fun done => ?_
  exact tools.over_judge name strategy concrete abstracted done

theorem over_test (s : EqSystem) (name : String) (strategy : Strategy) :
    Over Session.forget (tools.recording.test s name strategy) (tools.test s name strategy) := by
  rw [test_eq, test_eq]
  exact (Session.over_register _ _).bind fun source =>
    (Session.over_onBench (Bench.over_change _)).bind fun _ =>
      (Session.over_register _ _).bind fun concrete =>
        (Session.over_register _ _).bind fun abstracted =>
          Session.over_onBench (tools.over_compare name strategy source concrete abstracted)

theorem probe_simulates (name : String) (strategy : Strategy) :
    (tools.recording.probe name strategy).Simulates (fun st st' => st.forget = st')
      (fun st st' => st.forget = st') (tools.probe name strategy) where
  passes s := by
    rintro st st' rfl
    have h : Over Session.forget _ _ := Over.bind
      (tools.over_test s (name ++ "_minimize") strategy) fun outcome => over_pure outcome.passed
    exact h.sameEnd st
  note line := by
    rintro st st' rfl
    rfl

theorem over_write (m : Search) (dir : Path) :
    Over Bench.forget (m.write dir : Action (Bench (τ × List ToolCall)) Path) (m.write dir) :=
  Over.bind (Bench.over_change _) fun _ => Over.bind (Bench.over_say _ _ _) fun _ => over_pure _

theorem over_minimize (s : EqSystem) (name : String) (strategy : Strategy) :
    Over Session.forget (tools.recording.minimize s name strategy)
      (tools.minimize s name strategy) := by
  intro st
  obtain ⟨hend, hplace⟩ := Search.run_simulates (tools.probe_simulates name strategy)
    (Search.start name s) (a := st) rfl
  have hresult := hend.result
  have hstate := hend.states
  unfold minimize
  rcases hrun : Search.run (tools.recording.probe name strategy) (Search.start name s) st with
    ⟨r, m, st'⟩
  rcases hrun' : Search.run (tools.probe name strategy) (Search.start name s) st.forget with
    ⟨r', m', st''⟩
  rw [hrun, hrun'] at hresult hstate hplace
  obtain rfl : r = r' := hresult
  obtain rfl : m = m' := hplace
  obtain rfl : st'.forget = st'' := hstate
  cases r with
  | error e => rfl
  | ok small =>
    exact Over.bind (Session.over_onBench (over_write m st'.registry.dir))
      (fun _ => over_pure small)
      st'

/-- The calls of a minimisation are those of its search. -/
theorem record_minimize (s : EqSystem) (name : String) (strategy : Strategy)
    (st : Session (τ × List ToolCall)) :
    (tools.recording.minimize s name strategy st).2.record =
      ((Search.start name s).run (tools.recording.probe name strategy) st).2.2.record := by
  unfold minimize
  rcases Search.run (tools.recording.probe name strategy) (Search.start name s) st with ⟨r, m, st'⟩
  cases r with
  | error e => rfl
  | ok small =>
    have hend : Keeps (fun x => x.record = st'.record) (do
        let _ ← Session.onBench (m.write st'.registry.dir)
        return small : Action (Session (τ × List ToolCall)) EqSystem) :=
      Keeps.bind (Session.keeps_onBench (m.keeps_record_write _ _)) fun _ => keeps_pure _ small
    exact hend st' rfl

theorem over_iterate (plan : Plan) (left i : Nat) (draws : Sampling.Draws) :
    Over Session.forget (tools.recording.iterate plan left i draws)
      (tools.iterate plan left i draws) := by
  induction left generalizing i draws with
  | zero => exact over_pure ()
  | succ left ih =>
    unfold iterate
    refine Over.bind (tools.over_test _ _ _) fun outcome => ?_
    dsimp only
    split
    · exact ih _ _
    · split
      · exact Over.bind (tools.over_minimize _ _ _) fun _ => over_throw _
      · exact over_throw _

theorem over_runSeries (keepFiles : Bool) (plan : Plan) (draws : Sampling.Draws) :
    Over Session.forget (tools.recording.runSeries keepFiles plan draws)
      (tools.runSeries keepFiles plan draws) :=
  Session.over_finishing keepFiles (tools.over_iterate plan plan.iterations 0 draws)

theorem over_checkAndMinimize (keepFiles : Bool) (s : EqSystem) (name : String)
    (strategy : Strategy) :
    Over Session.forget (tools.recording.checkAndMinimize keepFiles s name strategy)
      (tools.checkAndMinimize keepFiles s name strategy) := by
  refine Session.over_finishing keepFiles ?_
  refine Over.bind (tools.over_test _ _ _) fun outcome => ?_
  refine Over.bind (Session.over_onBench (Bench.over_say _ _ _)) fun _ => ?_
  split
  · exact over_pure none
  · exact Over.bind (tools.over_minimize s name strategy) fun q => over_pure (some q)

end Tools

end PbesLab
