import PbesLab.Proofs.Disk.Output
import PbesLab.Proofs.Trial.Iterations

namespace PbesLab

open PbesLab.Action

variable {τ α : Type}

/-- Tools that leave things at their output only, whether the call succeeds or not. -/
structure Tools.WritesOutput (tools : Tools τ) : Prop where
  convert (input output : Path) (b : Bench τ) :
    b.disk.OnlyAt (b.disk.locate output = .ok ·) (tools.convert input output b).2.disk
  abstract (input output : Path) (strategy : Strategy) (b : Bench τ) :
    b.disk.OnlyAt (b.disk.locate output = .ok ·) (tools.abstract input output strategy b).2.disk
  solve (input : Path) (b : Bench τ) :
    b.disk.OnlyAt (fun _ => False) (tools.solve input b).2.disk

theorem Bench.onlyAt_write (p : Path) (content : ByteArray) (b : Bench τ) :
    b.disk.OnlyAt (b.disk.locate p = .ok ·) (change (·.write p content) b).2.disk := by
  have hend : Ends (fun _ b' => b.disk.OnlyAt (b.disk.locate p = .ok ·) b'.disk)
      (fun _ b' => b.disk.OnlyAt (b.disk.locate p = .ok ·) b'.disk)
      (change (·.write p content) b) :=
    ends_change (fun disk hwrite => Disk.onlyAt_write hwrite)
      fun e _ => .refl _ _
  exact hend.final

/-- What leaves the bench alone changes nothing more. -/
theorem Bench.onlyAt_write_bind {f : Unit → Action (Bench τ) α} (hf : ∀ b, (f () b).2 = b)
    (p : Path) (content : ByteArray) (b : Bench τ) :
    b.disk.OnlyAt (b.disk.locate p = .ok ·) ((change (·.write p content) >>= f) b).2.disk := by
  have hwrite := onlyAt_write p content b
  rw [bind_apply]
  rcases hend : change (·.write p content) b with ⟨e | _, b'⟩
  · rw [hend] at hwrite
    exact hwrite
  · rw [hend] at hwrite
    dsimp only
    rw [hf]
    exact hwrite

/-- The end of the name of a file that is removed later. -/
def IsTemporary (ending : String) : Prop :=
  IsEnding ending ∧ ending ≠ "_minimized.txt"

instance (ending : String) : Decidable (IsTemporary ending) :=
  inferInstanceAs (Decidable (_ ∧ _))

/-- All registered files have this name, and none is the result of a search. -/
structure Registry.Lists (r : Registry) (dir : Path) (name : String) : Prop where
  within : r.dir = dir
  files : ∀ p ∈ r.files, ∃ ending, IsTemporary ending ∧ p = dir.join ⟨name ++ ending⟩

namespace Registry

variable {r : Registry} {dir : Path} {name part ending : String}

theorem subset_add (r : Registry) (name : String) : r.files ⊆ (r.add name).files := by
  unfold add
  split
  · exact fun _ => id
  · exact List.subset_append_left _ _

theorem Lists.pathOf (h : r.Lists dir name) (ending : String) :
    r.pathOf (name ++ ending) = dir.join ⟨name ++ ending⟩ := by
  rw [Registry.pathOf, h.within]

theorem Lists.add (h : r.Lists dir name) (hending : IsTemporary ending) :
    (r.add (name ++ ending)).Lists dir name where
  within := (r.dir_add _).trans h.within
  files p hp := by
    obtain hp | rfl := mem_add hp
    · exact h.files p hp
    · exact ⟨ending, hending, h.pathOf ending⟩

/-- Also a path that is not registered again is one of the registered. -/
theorem Lists.mem_add_self (h : r.Lists dir name) (hending : IsTemporary ending) :
    dir.join ⟨name ++ ending⟩ ∈ (r.add (name ++ ending)).files := by
  unfold Registry.add
  split
  · next hany =>
    obtain ⟨p, hp, hsame⟩ := List.any_eq_true.mp hany
    obtain ⟨other, hother, rfl⟩ := h.files p hp
    rw [h.pathOf] at hsame
    rwa [Path.eq_of_same hending.1 hother.1 hsame]
  · rw [h.pathOf]
    exact List.mem_concat_self

/-- What a test may add to the name of its operation: all its files are removed later. -/
def IsPart (part : String) : Prop :=
  IsTemporary (part ++ ".txt") ∧ IsTemporary (part ++ "a.pbes") ∧ IsTemporary (part ++ "b.pbes")

instance (part : String) : Decidable (IsPart part) :=
  inferInstanceAs (Decidable (_ ∧ _))

theorem addTest_eq (r : Registry) (name part : String) : r.addTest (name ++ part) =
    ((r.add (name ++ (part ++ ".txt"))).add (name ++ (part ++ "a.pbes"))).add
      (name ++ (part ++ "b.pbes")) := by
  simp only [addTest, sourceName, concreteName, abstractedName, String.append_assoc]

theorem Lists.addTest (h : r.Lists dir name) (hpart : IsPart part) :
    (r.addTest (name ++ part)).Lists dir name := by
  rw [addTest_eq]
  exact ((h.add hpart.1).add hpart.2.1).add hpart.2.2

/-- A test registers its three files. -/
theorem Lists.mem_addTest (h : r.Lists dir name) (hpart : IsPart part) :
    dir.join ⟨name ++ (part ++ ".txt")⟩ ∈ (r.addTest (name ++ part)).files ∧
      dir.join ⟨name ++ (part ++ "a.pbes")⟩ ∈ (r.addTest (name ++ part)).files ∧
      dir.join ⟨name ++ (part ++ "b.pbes")⟩ ∈ (r.addTest (name ++ part)).files := by
  have h₁ := h.add hpart.1
  have h₂ := h₁.add hpart.2.1
  rw [addTest_eq]
  exact ⟨subset_add _ _ (subset_add _ _ (h.mem_add_self hpart.1)),
    subset_add _ _ (h₁.mem_add_self hpart.2.1), h₂.mem_add_self hpart.2.2⟩

theorem subset_addTest (r : Registry) (name : String) : r.files ⊆ (r.addTest name).files :=
  fun _ hp => subset_add _ _ (subset_add _ _ (subset_add r _ hp))

end Registry

namespace Tools

variable {tools : Tools τ} {dir : Path} {name : String} {ps : List Path}

theorem WritesOutput.keeps_compare (h : tools.WritesOutput) (start : Disk) (testName : String)
    (strategy : Strategy) (source : Path) {ending other : String} (hending : IsEnding ending)
    (hother : IsEnding other)
    (hconcrete : dir.join ⟨name ++ ending⟩ ∈ ps) (habstracted : dir.join ⟨name ++ other⟩ ∈ ps) :
    Keeps (fun b => start.Traced dir name ps b.disk) (tools.compare testName strategy source
      (dir.join ⟨name ++ ending⟩) (dir.join ⟨name ++ other⟩)) := by
  have hsolve (input : Path) :
      Keeps (fun b => start.Traced dir name ps b.disk) (tools.solve input) := fun b hb =>
    hb.output hending hconcrete ((h.solve input b).mono fun _ => False.elim)
  unfold compare judge
  refine Keeps.bind ?_ fun _ => Keeps.bind ?_ fun done => Keeps.bind (hsolve _) fun before =>
    Keeps.bind ?_ fun after => Keeps.bind ?_ fun _ => keeps_pure _ _
  · exact fun b hb => hb.output hending hconcrete (h.convert _ _ b)
  · exact fun b hb => hb.output hother habstracted (h.abstract _ _ strategy b)
  · split
    · exact hsolve _
    · exact keeps_pure _ none
  · exact fun b hb => hb

end Tools

namespace Session

def target (start : Session τ) (name : String) : Path :=
  start.registry.pathOf (name ++ "_minimized.txt")

/-- Since `start` there have been outputs at registered paths only. -/
structure Traced (start : Session τ) (name : String) (st : Session τ) : Prop where
  disk : start.bench.disk.Traced start.registry.dir name st.registry.files st.bench.disk
  registry : st.registry.Lists start.registry.dir name

/-- Since `start` there have been outputs at registered paths and the text of `q` at the target. -/
structure Stored (start : Session τ) (name : String) (q : EqSystem) (st : Session τ) : Prop where
  disk : start.bench.disk.Traced start.registry.dir name (start.target name :: st.registry.files)
    st.bench.disk
  registry : st.registry.Lists start.registry.dir name
  target : st.bench.disk.find (start.target name) = .ok .sink ∨
    ∃ x, st.bench.disk.find (start.target name) = .ok (.file q.text.toUTF8 x)

end Session

namespace Tools

open Session

variable {tools : Tools τ} {start st : Session τ} {name : String} {strategy : Strategy}

/-- After a test there are outputs at its paths, or nothing has come of it but the registration of a
source that cannot be written. -/
theorem WritesOutput.outputs_test (h : tools.WritesOutput) {disk : Disk} {dir : Path}
    {ps : List Path} (s : EqSystem) (strategy : Strategy) {part : String}
    (hpart : Registry.IsPart part) (hdir : st.registry.dir = dir)
    (hsource : dir.join ⟨name ++ (part ++ ".txt")⟩ ∈ ps)
    (hconcrete : dir.join ⟨name ++ (part ++ "a.pbes")⟩ ∈ ps)
    (habstracted : dir.join ⟨name ++ (part ++ "b.pbes")⟩ ∈ ps)
    (hdisk : disk.Traced dir name ps st.bench.disk) :
    let st' := (tools.test s (name ++ part) strategy st).2
    (disk.Traced dir name ps st'.bench.disk ∧ st'.registry = st.registry.addTest (name ++ part)) ∨
      (st'.bench = st.bench ∧ st'.registry = st.registry.add (name ++ (part ++ ".txt"))) := by
  subst hdir
  have hpath (ending : String) : st.registry.pathOf (name ++ part ++ ending) =
      st.registry.dir.join ⟨name ++ (part ++ ending)⟩ := by
    rw [String.append_assoc, Registry.pathOf]
  apply Ends.final (P := fun st' : Session τ =>
    (disk.Traced st.registry.dir name ps st'.bench.disk ∧
      st'.registry = st.registry.addTest (name ++ part)) ∨
    (st'.bench = st.bench ∧ st'.registry = st.registry.add (name ++ (part ++ ".txt"))))
  apply ends_test
  -- the second disjunct is for a text that cannot be written, which ends the test before any call
  · intro written hwrite
    change st.bench.disk.writeText (st.registry.pathOf (name ++ part ++ ".txt")) s.text = _
      at hwrite
    rw [hpath] at hwrite
    have hwritten := hdisk.output hpart.1.1 hsource (Disk.onlyAt_write hwrite)
    have hcompare := h.keeps_compare disk (name ++ part) strategy
      (st.registry.dir.join ⟨name ++ (part ++ ".txt")⟩) hpart.2.1.1 hpart.2.2.1 hconcrete
      habstracted
    simp only [sourceName, concreteName, abstractedName, hpath]
    have hend := hcompare { st.bench with disk := written } hwritten
    exact ⟨fun _ _ => .inl ⟨hend, trivial⟩, fun _ _ => .inl ⟨hend, trivial⟩⟩
  · intro e _
    refine .inr ⟨rfl, ?_⟩
    rw [sourceName, String.append_assoc]

theorem WritesOutput.keeps_test (h : tools.WritesOutput) (s : EqSystem) (strategy : Strategy)
    (part : String) (hpart : Registry.IsPart part) :
    Keeps (Traced start name) (tools.test s (name ++ part) strategy) := by
  intro st hst
  obtain ⟨hsource, hconcrete, habstracted⟩ := hst.registry.mem_addTest hpart
  have hdisk := hst.disk.mono (st.registry.subset_addTest (name ++ part))
  have htest := h.outputs_test s strategy hpart hst.registry.within hsource hconcrete habstracted
    hdisk
  generalize (tools.test s (name ++ part) strategy st).2 = st' at htest
  obtain ⟨bench, registry⟩ := st'
  obtain ⟨hdisk', rfl⟩ | ⟨rfl, rfl⟩ := htest
  · exact ⟨hdisk', hst.registry.addTest hpart⟩
  · exact ⟨hst.disk.mono (Registry.subset_add _ _), hst.registry.add hpart.1⟩

/-- A search makes its tests under one name. -/
theorem WritesOutput.traced_run (h : tools.WritesOutput) (strategy : Strategy) (m : Search)
    (hst : Traced start name st) :
    Traced start name (Search.run (tools.probe name strategy) m st).2.2 :=
  keeps_run (fun q => h.keeps_test q strategy "_minimize" (by decide))
    (fun _ _ h => ⟨h.disk, h.registry⟩) m hst

/-- A search ends with `q`, and its text can be written. -/
def Stores (tools : Tools τ) (s : EqSystem) (name : String) (strategy : Strategy) (st : Session τ)
    (q : EqSystem) : Prop :=
  ∃ m st' disk, Search.run (tools.probe name strategy) (Search.start name s) st = (.ok q, m, st') ∧
    st'.bench.disk.writeText (st'.registry.pathOf (name ++ "_minimized.txt")) q.text = .ok disk

/-- Making a system small succeeds where the result is stored. -/
theorem WritesOutput.ends_minimize (h : tools.WritesOutput) (s : EqSystem) (strategy : Strategy)
    (hst : Traced start name st) :
    Ends (fun q st' => tools.Stores s name strategy st q ∧ Stored start name q st')
      (fun _ st' => (∀ q, ¬ tools.Stores s name strategy st q) ∧ Traced start name st')
      (tools.minimize s name strategy st) := by
  have htraced := h.traced_run strategy (Search.start name s) hst
  have hplace := Search.run_place (tools.probe name strategy) (Search.start name s) st
  unfold minimize
  rcases hrun : Search.run (tools.probe name strategy) (Search.start name s) st with ⟨r, m, st'⟩
  rw [hrun] at htraced hplace
  cases r with
  | error e =>
    refine ends_error ⟨?_, htraced⟩
    rintro q ⟨m', st'', disk, hrun', -⟩
    rw [hrun] at hrun'
    cases hrun'
  | ok small =>
    obtain ⟨hm, hcurrent⟩ := hplace
    obtain rfl : m.current = small := hcurrent small rfl
    have hpath : st'.registry.dir.join ⟨m.resultName⟩ =
        st'.registry.pathOf (name ++ "_minimized.txt") := by
      rw [Search.resultName, hm]
      rfl
    have htarget := htraced.registry.pathOf "_minimized.txt"
    apply ends_bind
    apply ends_onBench
    unfold Search.write
    rw [hpath]
    apply ends_bind
    apply Bench.ends_change
    · intro disk hwrite
      refine ends_bind (ends_ok (ends_pure (ends_pure ⟨⟨m, st', disk, hrun, hwrite⟩, ?_⟩)))
      rw [htarget] at hwrite
      refine ⟨?_, htraced.registry, Disk.find_of_writeText hwrite⟩
      exact (htraced.disk.mono (List.subset_cons_self _ _)).output (by decide) List.mem_cons_self
        (Disk.onlyAt_write hwrite)
    · intro e hwrite
      refine ⟨?_, htraced⟩
      rintro q ⟨m', st'', disk, hrun', hwrite'⟩
      rw [hrun] at hrun'
      -- there is one run of the search, and what it reached could not be written
      obtain ⟨⟨rfl⟩, rfl, rfl⟩ := hrun'
      rw [hwrite] at hwrite'
      cases hwrite'

/-- The tests of a series. -/
theorem WritesOutput.traced_makes (h : tools.WritesOutput) {trials : List Trial} {last : Session τ}
    (hmakes : tools.Makes st trials last) (hname : ∀ t ∈ trials, t.name = name)
    (hst : Traced start name st) : Traced start name last := by
  induction hmakes with
  | nil st => exact hst
  | @cons st t st' rest last htest hmakes ih =>
    obtain ⟨ht, hrest⟩ := List.forall_mem_cons.mp hname
    have hnext := h.keeps_test t.system t.strategy "" (by decide) st hst
    rw [String.append_empty, ← ht, htest] at hnext
    exact ih hrest (ht ▸ hnext)

end Tools

end PbesLab
