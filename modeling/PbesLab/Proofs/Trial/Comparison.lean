import PbesLab.Proofs.Lists
import PbesLab.Proofs.Trial.Contents
import PbesLab.Proofs.Trial.Recording

namespace PbesLab

open PbesLab.Action

variable {τ ε : Type}

namespace FileResults

variable (f : FileResults ε)

/-- The contents that are solved for this, at the given paths. -/
def judged (paths : Path × Path) (concrete : ByteArray) (result : Option ByteArray) :
    List (Path × ByteArray) :=
  (paths.1, concrete) ::
    match f.solve concrete with
    | .ok _ => result.toList.map (paths.2, ·)
    | .error _ => []

def solved (paths : Path × Path) (text : ByteArray) (strategy : Strategy) :
    List (Path × ByteArray) :=
  match f.convert text with
  | .error _ => []
  | .ok concrete =>
    match f.abstract strategy concrete with
    | .error _ => []
    | .ok result => f.judged paths concrete result

section

variable {f} {paths : Path × Path} {text concrete abstraction : ByteArray} {strategy : Strategy}
  {result : Option ByteArray} {before after : Option Bool} {e : ε}

theorem judge_of_error (h : f.solve concrete = .error e) :
    f.judge concrete result = .error e ∧
      f.judged paths concrete result = [(paths.1, concrete)] := by
  simp [judge, judged, h, bind, Except.bind]

theorem judge_none (h : f.solve concrete = .ok before) :
    f.judge concrete none = .ok (.ofAnswers before none) ∧
      f.judged paths concrete none = [(paths.1, concrete)] := by
  simp [judge, judged, h, bind, Except.bind, pure, Except.pure]

theorem judged_none : f.judged paths concrete none = [(paths.1, concrete)] := by
  cases hsolve : f.solve concrete with
  | error e => exact (judge_of_error hsolve).2
  | ok before => exact (judge_none hsolve).2

theorem judge_some (h : f.solve concrete = .ok before) :
    f.judge concrete (some abstraction) = (f.solve abstraction).map (.ofAnswers before) ∧
      f.judged paths concrete (some abstraction) =
        [(paths.1, concrete), (paths.2, abstraction)] := by
  cases h' : f.solve abstraction <;>
    simp [judge, judged, h, h', bind, Except.bind, pure, Except.pure, Except.map]

theorem outcome_of_convert (h : f.convert text = .error e) :
    f.outcome text strategy = .error e ∧ f.solved paths text strategy = [] := by
  simp [outcome, solved, h, bind, Except.bind]

theorem outcome_of_abstract (h : f.convert text = .ok concrete)
    (h' : f.abstract strategy concrete = .error e) :
    f.outcome text strategy = .error e ∧ f.solved paths text strategy = [] := by
  simp [outcome, solved, h, h', bind, Except.bind]

theorem outcome_eq (h : f.convert text = .ok concrete)
    (h' : f.abstract strategy concrete = .ok result) :
    f.outcome text strategy = f.judge concrete result ∧
      f.solved paths text strategy = f.judged paths concrete result := by
  simp [outcome, solved, h, h', bind, Except.bind]

end

end FileResults

/-- The call solves this content at this path. -/
def ToolCall.Solves : Path × ByteArray → ToolCall → Prop
  | (path, content), solve disk input _ =>
    input = path ∧ ∃ x, disk.find path = .ok (.file content x)
  | _, _ => False

def ToolCall.isSolve : ToolCall → Bool
  | solve .. => true
  | _ => false

/-- At other paths than these nothing is solved. -/
theorem ToolCall.solve_not_mem {contents : List (Path × ByteArray)} {calls : List ToolCall}
    (h : List.Forall₂ Solves contents (calls.filter isSolve)) {path : Path}
    (hpath : ∀ content ∈ contents, content.1 ≠ path) (disk : Disk)
    (result : Except Failure (Option Bool)) : solve disk path result ∉ calls := by
  intro hmem
  have hsolve : solve disk path result ∈ calls.filter isSolve := List.mem_filter.mpr ⟨hmem, rfl⟩
  obtain ⟨⟨path', content⟩, hcontent, hsolves⟩ := exists_of_forall₂ h.flip hsolve
  exact hpath _ hcontent hsolves.1.symm

/-- After `start` these contents have been solved, in order, and no others. -/
def Bench.Solved (start : List ToolCall) (contents : List (Path × ByteArray))
    (b : Bench (τ × List ToolCall)) : Prop :=
  ∃ calls, b.record = start ++ calls ∧
    List.Forall₂ ToolCall.Solves contents (calls.filter ToolCall.isSolve)

namespace Bench

variable {b b' : Bench (τ × List ToolCall)} {start : List ToolCall}
  {contents : List (Path × ByteArray)}

theorem solved_nil (b : Bench (τ × List ToolCall)) : b.Solved b.record [] :=
  ⟨[], (List.append_nil _).symm, .nil⟩

theorem Solved.tell (h : b.Solved start contents) (line : LogLine) :
    (b.tell line).Solved start contents :=
  h

/-- A call that solves nothing. -/
theorem Solved.skip {call : ToolCall} (h : b.Solved start contents) (hcall : call.isSolve = false)
    (hb : b'.record = b.record ++ [call]) : b'.Solved start contents := by
  obtain ⟨calls, hrecord, hcalls⟩ := h
  refine ⟨calls ++ [call], ?_, ?_⟩
  · rw [hb, hrecord, List.append_assoc]
  · rw [List.filter_append, List.filter_singleton, hcall]
    simpa using hcalls

theorem Solved.solve {disk : Disk} {path : Path} {content : ByteArray} {x : Bool}
    {result : Except Failure (Option Bool)} (h : b.Solved start contents)
    (hfile : disk.find path = .ok (.file content x))
    (hb : b'.record = b.record ++ [.solve disk path result]) :
    b'.Solved start (contents ++ [(path, content)]) := by
  obtain ⟨calls, hrecord, hcalls⟩ := h
  refine ⟨calls ++ [.solve disk path result], ?_, ?_⟩
  · rw [hb, hrecord, List.append_assoc]
  · rw [List.filter_append]
    exact List.rel_append hcalls (.cons ⟨rfl, x, hfile⟩ .nil)

end Bench

namespace Tools.Follows

variable {tools : Tools τ} {view : Failure → ε} {F : (Location → Prop) → Disk → Disk → Prop}
  {f : FileResults ε}

/-- Tools with a record go by the contents of files as they do without. -/
theorem recording (hf : tools.Follows view F f) : tools.recording.Follows view F f where
  convert {b input output _ _ _} hinput houtput hapart := by
    have h : Ends _ _ (tools.convert input output b.forget) := hf.convert hinput houtput hapart
    exact ⟨h.ok, h.error⟩
  abstract {b input output strategy _ _ _} hinput houtput hapart := by
    have h : Ends _ _ (tools.abstract input output strategy b.forget) :=
      hf.abstract hinput houtput hapart
    exact ⟨h.ok, h.error⟩
  solve {b input _ _} hinput := by
    have h : Ends _ _ (tools.solve input b.forget) := hf.solve hinput
    exact ⟨h.ok, h.error⟩

/-- Solving gives the outcome for the contents of the two files. An answer that is left does not
get in the way of the second. -/
theorem ends_judge (hf : tools.Follows view F f) (hF : Disk.IsFrame F) {name : String}
    {strategy : Strategy} {paths : Path × Path} {b : Bench (τ × List ToolCall)}
    {start : List ToolCall} {content : ByteArray} {x : Bool} {result : Option ByteArray}
    {l : Location} (hconcrete : b.disk.find paths.1 = .ok (.file content x))
    (hl : b.disk.locate paths.2 = .ok l)
    (hresult : ∀ abstraction ∈ result, b.disk.Holds l abstraction) (hanswer : ¬ IsAnswerPlace l)
    (hstart : b.Solved start []) :
    Ends (fun outcome b' => f.judge content result = .ok outcome ∧
        F IsAnswerPlace b.disk b'.disk ∧ b'.Solved start (f.judged paths content result))
      (fun e b' => f.judge content result = .error (view e) ∧
        b'.Solved start (f.judged paths content result))
      (tools.recording.judge name strategy paths.1 paths.2 result.isSome b) := by
  have hrecord (input : Path) (b : Bench (τ × List ToolCall)) :
      (tools.recording.solve input b).2.record =
        b.record ++ [.solve b.disk input (tools.recording.solve input b).1] := rfl
  unfold Tools.judge
  apply ends_bind
  refine ((hf.recording.solve hconcrete).and
    (P := fun r b' => b'.record = b.record ++ [.solve b.disk paths.1 r])
    (hrecord paths.1 b)).imp ?_ ?_
  swap
  · rintro e b₁ ⟨hsolve, hb₁⟩
    obtain ⟨hjudge, hjudged⟩ := FileResults.judge_of_error hsolve
    refine ⟨hjudge, ?_⟩
    rw [hjudged]
    exact hstart.solve hconcrete hb₁
  rintro before b₁ ⟨⟨hsolve, hchanged₁⟩, hb₁⟩
  have hsolved₁ := hstart.solve hconcrete hb₁
  apply ends_bind
  cases result with
  | none =>
    obtain ⟨hjudge, hjudged⟩ := FileResults.judge_none hsolve
    refine ends_pure (ends_bind (ends_ok (ends_pure ⟨hjudge, hchanged₁, ?_⟩)))
    rw [hjudged]
    exact hsolved₁.tell _
  | some abstraction =>
    obtain ⟨hjudge, hjudged⟩ := FileResults.judge_some hsolve
    obtain ⟨y, habstracted⟩ := (hresult abstraction rfl).find hl
    -- solving the first file leaves things at places for answers only
    have habstracted₁ : b₁.disk.find paths.2 = .ok (.file abstraction y) :=
      ((hF.onlyAt hchanged₁).find_eq hl hanswer).trans habstracted
    refine ((hf.recording.solve habstracted₁).and
      (P := fun r b' => b'.record = b₁.record ++ [.solve b₁.disk paths.2 r])
      (hrecord paths.2 b₁)).imp ?_ ?_
    · rintro after b₂ ⟨⟨hsolve₂, hchanged₂⟩, hb₂⟩
      rw [hsolve₂] at hjudge
      refine ends_bind (ends_ok (ends_pure ⟨hjudge, hF.trans hchanged₁ hchanged₂, ?_⟩))
      rw [hjudged]
      exact (hsolved₁.solve habstracted₁ hb₂).tell _
    · rintro e b₂ ⟨hsolve₂, hb₂⟩
      rw [hsolve₂] at hjudge
      refine ⟨hjudge, ?_⟩
      rw [hjudged]
      exact hsolved₁.solve habstracted₁ hb₂

/-- The tools' part of a test gives the outcome for the content of the source. What it solves it has
made itself. -/
theorem ends_compare (hf : tools.Follows view F f) (hF : Disk.IsFrame F) {name : String}
    {strategy : Strategy} {source : Path} {paths : Path × Path} {b : Bench (τ × List ToolCall)}
    {text : ByteArray} {x : Bool} {l l' : Location}
    (hsource : b.disk.find source = .ok (.file text x)) (hl : b.disk.Takes paths.1 l)
    (hl' : b.disk.Takes paths.2 l') (hapart : b.disk.locate source ≠ .ok l) (hne : l ≠ l')
    (hanswer : ¬ IsAnswerPlace l') :
    Ends (fun outcome b' => f.outcome text strategy = .ok outcome ∧
        F (fun k => k = l ∨ k = l' ∨ IsAnswerPlace k) b.disk b'.disk ∧
        b'.Solved b.record (f.solved paths text strategy))
      (fun e b' => f.outcome text strategy = .error (view e) ∧
        b'.Solved b.record (f.solved paths text strategy))
      (tools.recording.compare name strategy source paths.1 paths.2 b) := by
  unfold compare
  apply ends_bind
  refine ((hf.recording.convert hsource hl hapart).and
    (P := fun r b' => b'.record = b.record ++ [.convert b.disk source paths.1 r]) rfl).imp ?_ ?_
  swap
  · rintro e b₁ ⟨hconvert, hb₁⟩
    obtain ⟨houtcome, hsolved⟩ := FileResults.outcome_of_convert hconvert
    refine ⟨houtcome, ?_⟩
    rw [hsolved]
    exact b.solved_nil.skip rfl hb₁
  rintro ⟨⟩ b₁ ⟨⟨written, hconvert, hchanged₁, hholds₁⟩, hb₁⟩
  have hsolved₁ := b.solved_nil.skip rfl hb₁
  have hl₁ := (hF.onlyAt hchanged₁).locate hl.locate
  have hl'₁ := hl'.beside (hF.onlyAt hchanged₁) hne.symm
  obtain ⟨y, hconcrete₁⟩ := hholds₁.find hl₁
  have hapart₁ : b₁.disk.locate paths.1 ≠ .ok l' := by
    rw [hl₁]
    exact fun he => hne (Except.ok.inj he)
  apply ends_bind
  refine ((hf.recording.abstract hconcrete₁ hl'₁ hapart₁).and (P := fun r b' =>
    b'.record = b₁.record ++ [.abstract b₁.disk paths.1 paths.2 strategy r]) rfl).imp ?_ ?_
  swap
  · rintro e b₂ ⟨habstract, hb₂⟩
    obtain ⟨houtcome, hsolved⟩ := FileResults.outcome_of_abstract hconvert habstract
    refine ⟨houtcome, ?_⟩
    rw [hsolved]
    exact hsolved₁.skip rfl hb₂
  rintro done b₂ ⟨⟨result, habstract, rfl, hchanged₂, hresult⟩, hb₂⟩
  -- both inputs of the solver are there: what was made first is at another place than the output
  have hsolved₂ := hsolved₁.skip rfl hb₂
  have hconcrete₂ : b₂.disk.find paths.1 = .ok (.file written y) :=
    ((hF.onlyAt hchanged₂).find_eq hl₁ hne).trans hconcrete₁
  have hl'₂ := (hF.onlyAt hchanged₂).locate hl'₁.locate
  obtain ⟨houtcome, hsolved⟩ := FileResults.outcome_eq hconvert habstract
  rw [houtcome, hsolved]
  refine (hf.ends_judge hF hconcrete₂ hl'₂ hresult hanswer hsolved₂).imp ?_ fun _ _ => id
  rintro outcome b₃ ⟨hjudge, hchanged₃, hjudged⟩
  refine ⟨hjudge, hF.trans (hF.mono hchanged₁ ?_) (hF.trans (hF.mono hchanged₂ ?_)
    (hF.mono hchanged₃ ?_)), hjudged⟩
  · exact fun k hk => .inl hk
  · exact fun k hk => .inr (.inl hk)
  · exact fun k hk => .inr (.inr hk)

/-- A test gives the outcome for the text of its system, under any name and in any session with room
for its files. It fails as the call does that fails on that text. -/
theorem ends_test_recording (hf : tools.Follows view F f) (hF : Disk.IsFrame F) (s : EqSystem)
    (strategy : Strategy) {name : String} {st : Session (τ × List ToolCall)}
    (hst : st.Admits name) :
    let solved := f.solved (st.registry.pathOf (concreteName name),
      st.registry.pathOf (abstractedName name)) s.text.toUTF8 strategy
    Ends (fun outcome st' => f.outcome s.text.toUTF8 strategy = .ok outcome ∧
        F (st.TestPlace name) st.bench.disk st'.bench.disk ∧
        st'.registry = st.registry.addTest name ∧ st'.bench.Solved st.record solved)
      (fun e st' => f.outcome s.text.toUTF8 strategy = .error (view e) ∧
        st'.bench.Solved st.record solved)
      (tools.recording.test s name strategy st) := by
  intro solved
  obtain ⟨l₁, l₂, l₃, hl₁, hl₂, hl₃, h₁₂, h₂₃, hanswer⟩ := hst.places
  obtain ⟨disk, hdisk, hchanged, hholds⟩ := hl₁.write s.text.toUTF8
  apply Tools.ends_test
  · intro disk' hdisk'
    obtain rfl := Except.ok.inj (hdisk.symm.trans hdisk')
    have hsource := (hl₁.changed hchanged).locate
    obtain ⟨x, htext⟩ := hholds.find hsource
    have hapart : disk.locate (st.registry.pathOf (sourceName name)) ≠ .ok l₂ := by
      rw [hsource]
      exact fun he => h₁₂ (Except.ok.inj he)
    refine (hf.ends_compare hF (b := { st.bench with disk }) htext (hl₂.changed hchanged)
      (hl₃.changed hchanged) hapart h₂₃ hanswer).imp ?_ fun _ _ => id
    rintro outcome b ⟨houtcome, hchanged', hsolved⟩
    refine ⟨houtcome, hF.trans (hF.mono (hF.of_changedIn hchanged) ?_) (hF.mono hchanged' ?_), rfl,
      hsolved⟩
    · rintro k rfl
      exact .inl ⟨".txt", by decide, hl₁.locate⟩
    · rintro k (rfl | rfl | hk)
      · exact .inl ⟨"a.pbes", by decide, hl₂.locate⟩
      · exact .inl ⟨"b.pbes", by decide, hl₃.locate⟩
      · exact .inr hk
  · intro e herror
    cases hdisk.symm.trans herror

theorem ends_test (hf : tools.Follows view F f) (hF : Disk.IsFrame F) (s : EqSystem)
    (strategy : Strategy) {name : String} {st : Session τ} (hst : st.Admits name) :
    Ends (fun outcome st' => f.outcome s.text.toUTF8 strategy = .ok outcome ∧
        F (st.TestPlace name) st.bench.disk st'.bench.disk ∧
        st'.registry = st.registry.addTest name)
      (fun e _ => f.outcome s.text.toUTF8 strategy = .error (view e))
      (tools.test s name strategy st) := by
  have hroom : st.recorded.Admits name := hst
  have hend := hf.ends_test_recording hF s strategy hroom
  refine (tools.over_test s name strategy).ends st.recorded (hend.imp ?_ fun _ _ h => h.1)
  rintro outcome st' ⟨htext, hchanged, hregistry, -⟩
  exact ⟨htext, hchanged, hregistry⟩

/-- Where all of a failure is settled, so is the whole result of a test. -/
theorem test_eq_outcome {f : FileResults Failure} (hf : tools.Follows id F f)
    (hF : Disk.IsFrame F) (s : EqSystem) (strategy : Strategy) {name : String} {st : Session τ}
    (hst : st.Admits name) :
    (tools.test s name strategy st).1 = f.outcome s.text.toUTF8 strategy :=
  Ends.result (P := fun r _ => r = f.outcome s.text.toUTF8 strategy)
    ((hf.ends_test hF s strategy hst).imp (fun _ _ h => h.1.symm) fun _ _ h => h.symm)

end Tools.Follows

end PbesLab
