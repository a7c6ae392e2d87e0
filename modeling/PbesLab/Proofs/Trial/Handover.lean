import PbesLab.Proofs.Disk.Frame
import PbesLab.Proofs.Sampling.System
import PbesLab.Proofs.Shrink.Names
import PbesLab.Proofs.Trial.Recording

namespace PbesLab

open PbesLab.Action

variable {τ α : Type}

/-- An input for conversion: its path, and the disk at that moment. -/
structure Handover where
  disk : Disk
  input : Path

def ToolCall.handover? : ToolCall → Option Handover
  | convert disk input _ _ => some ⟨disk, input⟩
  | _ => none

def Bench.handovers (b : Bench (τ × List ToolCall)) : List Handover :=
  b.tools.2.filterMap ToolCall.handover?

def Session.handovers (st : Session (τ × List ToolCall)) : List Handover :=
  st.bench.handovers

namespace Handover

/-- The input is the text of a system, unless it is a device. -/
def Carries (h : Handover) (s : EqSystem) : Prop :=
  h.disk.find h.input = .ok .sink ∨ h.disk.readText h.input = .ok s.text

/-- Each system is handed over in turn, except perhaps the last. -/
def InTurn (hs : List Handover) (ss : List EqSystem) : Prop :=
  ∃ tested unwritten, ss = tested ++ unwritten ∧ unwritten.length ≤ 1 ∧
    List.Forall₂ Carries hs tested

variable {h : Handover} {hs : List Handover} {s : EqSystem} {ss : List EqSystem}

theorem inTurn_of_forall₂ (h : List.Forall₂ Carries hs ss) : InTurn hs ss :=
  ⟨ss, [], (List.append_nil ss).symm, Nat.zero_le 1, h⟩

theorem inTurn_unwritten (h : List.Forall₂ Carries hs ss) (s : EqSystem) : InTurn hs (ss ++ [s]) :=
  ⟨ss, [s], rfl, Nat.le_refl 1, h⟩

theorem InTurn.cons (hrest : InTurn hs ss) (hs' : h.Carries s) : InTurn (h :: hs) (s :: ss) := by
  obtain ⟨tested, unwritten, rfl, hlength, hcarries⟩ := hrest
  exact ⟨s :: tested, unwritten, rfl, hlength, .cons hs' hcarries⟩

theorem forall₂_snoc (hrest : List.Forall₂ Carries hs ss) (hs' : h.Carries s) :
    List.Forall₂ Carries (hs ++ [h]) (ss ++ [s]) :=
  List.rel_append hrest (.cons hs' .nil)

end Handover

/-- One more text has been handed over, that of `s`. -/
def Session.HandedOver (st : Session (τ × List ToolCall)) (s : EqSystem)
    (st' : Session (τ × List ToolCall)) : Prop :=
  ∃ h, st'.handovers = st.handovers ++ [h] ∧ h.Carries s

/-- The texts of these systems have been handed over in turn. -/
def Session.HandedInTurn (st : Session (τ × List ToolCall)) (ss : List EqSystem)
    (st' : Session (τ × List ToolCall)) : Prop :=
  ∃ hs, st'.handovers = st.handovers ++ hs ∧ Handover.InTurn hs ss

namespace Session

variable {st st' st'' : Session (τ × List ToolCall)} {s : EqSystem} {ss : List EqSystem}

theorem handedInTurn_nil (h : st'.handovers = st.handovers) : st.HandedInTurn [] st' :=
  ⟨[], h.trans (List.append_nil _).symm, Handover.inTurn_of_forall₂ .nil⟩

theorem handedInTurn_unwritten (h : st'.handovers = st.handovers) (s : EqSystem) :
    st.HandedInTurn [s] st' :=
  ⟨[], h.trans (List.append_nil _).symm, Handover.inTurn_unwritten .nil s⟩

theorem HandedOver.cons (h : st.HandedOver s st') (hnext : st'.HandedInTurn ss st'') :
    st.HandedInTurn (s :: ss) st'' := by
  obtain ⟨first, hst', hs⟩ := h
  obtain ⟨rest, hst'', hss⟩ := hnext
  refine ⟨first :: rest, ?_, hss.cons hs⟩
  rw [hst'', hst', List.append_assoc]
  rfl

end Session

/-- Only conversions are handed a text. -/
theorem Bench.keeps_recorded {call : Disk → Except Failure α → ToolCall}
    (hcall : ∀ disk r, (call disk r).handover? = none) (a : Action (Bench τ) α)
    (hs : List Handover) : Keeps (fun b => b.handovers = hs) (recorded call a) := by
  intro b hb
  change (b.tools.2 ++ [call b.disk (a b.forget).1]).filterMap ToolCall.handover? = hs
  rw [List.filterMap_append, List.filterMap_cons, hcall]
  exact (List.append_nil _).trans hb

namespace Tools

open Handover

variable (tools : Tools τ)

theorem keeps_judge (name : String) (strategy : Strategy) (concrete abstracted : Path) (done : Bool)
    (hs : List Handover) : Keeps (fun b => b.handovers = hs)
      (tools.recording.judge name strategy concrete abstracted done) := by
  have hsolve (input : Path) : Keeps (fun b => b.handovers = hs) (tools.recording.solve input) :=
    Bench.keeps_recorded (fun _ _ => rfl) _ hs
  have hsay (message : String) : Keeps (fun b : Bench (τ × List ToolCall) => b.handovers = hs)
      (Bench.say .trial .info message) := fun _ h => h
  unfold judge
  refine Keeps.bind (hsolve concrete) fun before => Keeps.bind ?_ fun after =>
    Keeps.bind (hsay _) fun _ => keeps_pure _ _
  split
  · exact hsolve abstracted
  · exact keeps_pure _ none

/-- The tools' part of a test hands over the source, however it ends. -/
theorem handovers_compare (name : String) (strategy : Strategy)
    (source concrete abstracted : Path) (b : Bench (τ × List ToolCall)) :
    (tools.recording.compare name strategy source concrete abstracted b).2.handovers =
      b.handovers ++ [⟨b.disk, source⟩] := by
  let handed := b.handovers ++ [⟨b.disk, source⟩]
  have hconvert : (tools.recording.convert source concrete b).2.handovers = handed :=
    List.filterMap_append
  -- after the conversion nothing is handed over
  have hrest : Keeps (fun b' => b'.handovers = handed) (do
      let done ← tools.recording.abstract concrete abstracted strategy
      tools.recording.judge name strategy concrete abstracted done) :=
    Keeps.bind (Bench.keeps_recorded (fun _ _ => rfl) _ handed) fun done =>
      tools.keeps_judge name strategy concrete abstracted done handed
  unfold compare
  rw [bind_apply]
  rcases hr : tools.recording.convert source concrete b with ⟨_ | _, b'⟩
  · rw [hr] at hconvert
    exact hconvert
  · rw [hr] at hconvert
    exact hrest b' hconvert

/-- A test hands over the text of its system. Without that it fails. -/
theorem ends_test_recording (s : EqSystem) (name : String) (strategy : Strategy)
    (st : Session (τ × List ToolCall)) :
    Ends (fun _ st' => st.HandedOver s st')
      (fun _ st' => st'.handovers = st.handovers ∨ st.HandedOver s st')
      (tools.recording.test s name strategy st) := by
  apply ends_test
  · intro disk hdisk
    let h : Handover := ⟨disk, st.registry.pathOf (sourceName name)⟩
    have hcarries : h.Carries s := by
      obtain hsink | ⟨x, hfile⟩ := Disk.find_of_writeText hdisk
      · exact .inl hsink
      · exact .inr (Disk.readText_of_find hfile)
    have hhanded := tools.handovers_compare name strategy (st.registry.pathOf (sourceName name))
      (st.registry.pathOf (concreteName name)) (st.registry.pathOf (abstractedName name))
      { st.bench with disk }
    exact ⟨fun _ _ => ⟨h, hhanded, hcarries⟩, fun _ _ => .inr ⟨h, hhanded, hcarries⟩⟩
  · exact fun _ _ => .inl rfl

/-- A search hands over the systems of its calls in turn. -/
theorem handovers_run (name : String) (strategy : Strategy) (m : Search)
    (st : Session (τ × List ToolCall)) :
    let p := tools.recording.probe name strategy
    st.HandedInTurn ((Search.calls p m st).map Call.system) (Search.run p m st).2.2 := by
  intro p
  let handed := fun (Good : List Handover → List EqSystem → Prop)
    (st' : Session (τ × List ToolCall)) (calls : List (Call Failure)) =>
      ∃ hs, st'.handovers = st.handovers ++ hs ∧ Good hs (calls.map Call.system)
  -- Calls that succeed have handed over one text each; the last call may fail before it does.
  have hpasses : ∀ s st' before, handed (List.Forall₂ Carries) st' before →
      (∀ b, (p.passes s st').1 = .ok b →
        handed (List.Forall₂ Carries) (p.passes s st').2 (before ++ [⟨s, .ok b⟩])) ∧
      ∀ e, (p.passes s st').1 = .error e →
        handed InTurn (p.passes s st').2 (before ++ [⟨s, .error e⟩]) := by
    rintro s st' before ⟨hs, hst', hcarries⟩
    have hprobe : Ends (fun _ st'' => st'.HandedOver s st'')
        (fun _ st'' => st''.handovers = st'.handovers ∨ st'.HandedOver s st'')
        (p.passes s st') :=
      ends_bind ((tools.ends_test_recording s (name ++ "_minimize") strategy st').imp
        (fun _ _ h => ends_pure h) fun _ _ h => h)
    refine ⟨fun b hb => ?_, fun e he => ?_⟩
    · obtain ⟨h, hh, hs'⟩ := hprobe.ok b hb
      refine ⟨hs ++ [h], by rw [hh, hst', List.append_assoc], ?_⟩
      rw [List.map_append]
      exact forall₂_snoc hcarries hs'
    · obtain hh | ⟨h, hh, hs'⟩ := hprobe.error e he
      · refine ⟨hs, hh.trans hst', ?_⟩
        rw [List.map_append]
        exact inTurn_unwritten hcarries s
      · refine ⟨hs ++ [h], by rw [hh, hst', List.append_assoc], ?_⟩
        rw [List.map_append]
        exact inTurn_of_forall₂ (forall₂_snoc hcarries hs')
  obtain ⟨hok, herror⟩ := Search.run_keeps_calls hpasses (fun _ _ _ h => h) m
    ⟨[], (List.append_nil _).symm, .nil⟩
  cases hr : (Search.run p m st).1 with
  | ok r =>
    obtain ⟨hs, hst', hcarries⟩ := hok r hr
    exact ⟨hs, hst', inTurn_of_forall₂ hcarries⟩
  | error e => exact herror e hr

theorem handovers_minimize (s : EqSystem) (name : String) (strategy : Strategy)
    (st : Session (τ × List ToolCall)) :
    st.HandedInTurn
      ((Search.calls (tools.recording.probe name strategy)
        (Search.start name s) st).map Call.system)
      (tools.recording.minimize s name strategy st).2 := by
  obtain ⟨hs, hst', hturn⟩ := tools.handovers_run name strategy (Search.start name s) st
  refine ⟨hs, ?_, hturn⟩
  rw [← hst']
  exact congrArg (List.filterMap ToolCall.handover?) (tools.record_minimize s name strategy st)

/-- What is tested after a test; nothing is after a failure. -/
def testedAfter (next : Outcome → Session τ → List EqSystem) :
    Except Failure Outcome × Session τ → List EqSystem
  | (.error _, _) => []
  | (.ok outcome, st) => next outcome st

/-- The systems that a series tests, in order: each that is drawn, and after a mismatch those that
the search asks about. -/
def underTest (plan : Plan) : Nat → Nat → Sampling.Draws → Session τ → List EqSystem
  | 0, _, _, _ => []
  | left + 1, i, draws, st =>
    let drawn := Sampling.generate plan.settings draws
    drawn.1 :: testedAfter (fun outcome st =>
        if outcome.passed then underTest plan left (i + 1) drawn.2 st
        else if plan.minimize then
          (Search.calls (tools.probe plan.name (plan.strategyAt i))
            (Search.start plan.name drawn.1) st).map Call.system
        else [])
      (tools.test drawn.1 plan.name (plan.strategyAt i) st)

theorem readable_of_mem_underTest (plan : Plan) (left i : Nat) (draws : Sampling.Draws)
    (st : Session τ) : ∀ s ∈ tools.underTest plan left i draws st, s.Readable := by
  induction left generalizing i draws st with
  | zero => exact List.forall_mem_nil _
  | succ left ih =>
    have hdrawn := Sampling.ensures_generate plan.settings draws
    unfold underTest
    generalize Sampling.generate plan.settings draws = drawn at hdrawn ⊢
    obtain ⟨s, draws'⟩ := drawn
    have hs : s.Readable := ⟨hdrawn.check, hdrawn.legal⟩
    dsimp only
    generalize tools.test s plan.name (plan.strategyAt i) st = ended
    refine List.forall_mem_cons.mpr ⟨hs, ?_⟩
    rcases ended with ⟨e | outcome, st'⟩
    · exact List.forall_mem_nil _
    · dsimp only [testedAfter]
      split
      · exact ih (i + 1) draws' st'
      · split
        · intro q hq
          obtain ⟨c, hc, rfl⟩ := List.mem_map.mp hq
          have hasked := (Search.run_calls (tools.probe plan.name (plan.strategyAt i))
            (Search.start plan.name s) st').asked
          exact Search.readable_of_asked hs hasked c hc
        · exact List.forall_mem_nil _

/-- The record after a series names the systems under test in turn. -/
theorem handovers_iterate (plan : Plan) (left i : Nat) (draws : Sampling.Draws)
    (st : Session (τ × List ToolCall)) :
    st.HandedInTurn (tools.underTest plan left i draws st.forget)
      (tools.recording.iterate plan left i draws st).2 := by
  induction left generalizing i draws st with
  | zero => exact Session.handedInTurn_nil rfl
  | succ left ih =>
    unfold iterate underTest
    generalize Sampling.generate plan.settings draws = drawn
    obtain ⟨s, draws'⟩ := drawn
    dsimp only
    have htest := tools.ends_test_recording s plan.name (plan.strategyAt i) st
    rw [bind_apply, tools.over_test s plan.name (plan.strategyAt i) st]
    generalize tools.recording.test s plan.name (plan.strategyAt i) st = ended at htest
    rcases ended with ⟨e | outcome, st'⟩
    · obtain hsame | hhanded := htest.error e rfl
      · exact Session.handedInTurn_unwritten hsame s
      · exact hhanded.cons (Session.handedInTurn_nil rfl)
    · have hhanded := htest.ok outcome rfl
      refine hhanded.cons ?_
      dsimp only [testedAfter]
      split
      · exact ih (i + 1) draws' st'
      · split
        · -- the search tells its calls whether they are recorded or not
          have hcalls := Search.calls_eq_of_simulates
            (tools.probe_simulates plan.name (plan.strategyAt i)) (Search.start plan.name s)
            (a := st') rfl
          have hsearch := tools.handovers_minimize s plan.name (plan.strategyAt i) st'
          rw [← hcalls, bind_apply]
          generalize tools.recording.minimize s plan.name (plan.strategyAt i) st' = done
            at hsearch ⊢
          rcases done with ⟨_ | _, _⟩
          · exact hsearch
          · exact hsearch
        · exact Session.handedInTurn_nil rfl

end Tools

theorem Session.handovers_finish (keepFiles : Bool) (st : Session (τ × List ToolCall)) :
    (st.finish keepFiles).handovers = st.handovers :=
  congrArg (List.filterMap ToolCall.handover?) (record_finish keepFiles st)

/-- What carries the text of a readable system is read as that system. -/
theorem Handover.Carries.read {h : Handover} {s : EqSystem} (hcarries : h.Carries s)
    (hs : s.Readable) : h.disk.find h.input = .ok .sink ∨
      ∃ text, h.disk.readText h.input = .ok text ∧ EqSystem.read text = .ok s :=
  hcarries.imp_right fun htext => ⟨s.text, htext, hs.read⟩

/-- For all tools, plans and streams: what a series hands to conversion, test by test, in the
iterations and in the search after a mismatch, is a text that is read as the system under test, or
a device. Every system under test is handed over, except a last one whose text cannot be written.
The record by which this is stated is one of the series itself. -/
theorem handovers_read (tools : Tools τ) (keepFiles : Bool) (plan : Plan) (draws : Sampling.Draws)
    (st : Session τ) :
    let done := tools.recording.runSeries keepFiles plan draws st.recorded
    (done.1, done.2.forget) = tools.runSeries keepFiles plan draws st ∧
      ∃ tested unwritten, tools.underTest plan plan.iterations 0 draws st = tested ++ unwritten ∧
        unwritten.length ≤ 1 ∧
        List.Forall₂ (fun h s => h.disk.find h.input = .ok .sink ∨
            ∃ text, h.disk.readText h.input = .ok text ∧ EqSystem.read text = .ok s)
          done.2.handovers tested := by
  intro done
  have hforget := tools.over_runSeries keepFiles plan draws st.recorded
  refine ⟨hforget.symm, ?_⟩
  obtain ⟨hs, hend, tested, unwritten, hsplit, hlength, hcarries⟩ :=
    tools.handovers_iterate plan plan.iterations 0 draws st.recorded
  refine ⟨tested, unwritten, hsplit, hlength, ?_⟩
  have hreadable : ∀ s ∈ tested, s.Readable := by
    intro s hs
    apply tools.readable_of_mem_underTest plan plan.iterations 0 draws st.recorded.forget s
    rw [hsplit]
    exact List.mem_append_left unwritten hs
  have hhandovers : done.2.handovers = hs := (Session.handovers_finish keepFiles _).trans hend
  rw [hhandovers]
  have hboth := (List.forall₂_and_left tested hs).mpr ⟨hreadable, hcarries.flip⟩
  exact (hboth.imp fun s h hs => Handover.Carries.read hs.2 hs.1).flip

end PbesLab
