import PbesLab.Proofs.Disk.Output
import PbesLab.Proofs.Trial.Action

namespace PbesLab

open PbesLab.Action

variable {τ ε : Type}

/-- What tools make of contents. -/
structure FileResults (ε : Type) where
  convert : ByteArray → Except ε ByteArray
  /-- There may be no result. -/
  abstract : Strategy → ByteArray → Except ε (Option ByteArray)
  /-- There may be no answer. -/
  solve : ByteArray → Except ε (Option Bool)

namespace FileResults

variable (f : FileResults ε)

def judge (concrete : ByteArray) (result : Option ByteArray) : Except ε Outcome := do
  let before ← f.solve concrete
  let after ← match result with
    | some abstraction => f.solve abstraction
    | none => .ok none
  return .ofAnswers before after

def outcome (text : ByteArray) (strategy : Strategy) : Except ε Outcome := do
  let concrete ← f.convert text
  let result ← f.abstract strategy concrete
  f.judge concrete result

end FileResults

namespace Disk

/-- A path for a file: one is at the place, or the place is free. -/
structure Takes (d : Disk) (p : Path) (l : Location) : Prop where
  writable : d.writable p = .ok l
  noDevice : d.entry? l ≠ some .sink

namespace Takes

variable {d d' : Disk} {p : Path} {l : Location} {P : Location → Prop}

theorem locate (h : d.Takes p l) : d.locate p = .ok l :=
  (writable_eq_ok.mp h.writable).1

theorem not_directory (h : d.Takes p l) : d.entry? l ≠ some .directory :=
  (writable_eq_ok.mp h.writable).2.2

theorem changed (h : d.Takes p l) (hd : ChangedIn P d d') : d'.Takes p l :=
  ⟨hd.writable_eq_ok h.writable, fun hsink => h.noDevice (hd.device l hsink)⟩

/-- What another place takes is of no concern. -/
theorem beside (h : d.Takes p l) (hd : OnlyAt P d d') (hl : ¬ P l) : d'.Takes p l := by
  obtain ⟨hlocate, hslash, hdir⟩ := writable_eq_ok.mp h.writable
  have hentry := hd.elsewhere l hl
  refine ⟨writable_eq_ok.mpr ⟨hd.locate hlocate, hslash, ?_⟩, ?_⟩
  · rwa [hentry]
  · rw [hentry]
    exact h.noDevice

end Takes

def Holds (d : Disk) (l : Location) (content : ByteArray) : Prop :=
  ∃ x, d.entry? l = some (.file content x)

theorem Holds.find {d : Disk} {p : Path} {l : Location} {content : ByteArray}
    (h : d.Holds l content) (hl : d.locate p = .ok l) : ∃ x, d.find p = .ok (.file content x) := by
  obtain ⟨x, hx⟩ := h
  exact ⟨x, find_eq_ok.mpr ⟨l, hl, hx⟩⟩

theorem Takes.write {d : Disk} {p : Path} {l : Location} (h : d.Takes p l) (content : ByteArray) :
    ∃ d', d.write p content = .ok d' ∧ ChangedIn (· = l) d d' ∧ d'.Holds l content := by
  refine ⟨d.store l content, write_eq_ok.mpr ⟨l, h.writable, rfl⟩,
    changedIn_store content h.not_directory, ?_⟩
  obtain ⟨hsink, -⟩ | ⟨-, hfile⟩ := entry_store_self content h.not_directory
  · exact absurd hsink h.noDevice
  · exact hfile

/-- A file can be written at any path that takes one. -/
theorem Takes.ends_write {b : Bench τ} {p : Path} {l : Location} (h : b.disk.Takes p l)
    (content : ByteArray) {E : Failure → Bench τ → Prop} :
    Ends (fun _ b' => b.disk.ChangedIn (· = l) b'.disk ∧ b'.disk.Holds l content) E
      (Bench.change (·.write p content) b) := by
  obtain ⟨disk, hdisk, hwritten⟩ := h.write content
  apply Bench.ends_change
  · intro disk' hdisk'
    obtain rfl := Except.ok.inj (hdisk.symm.trans hdisk')
    exact hwritten
  · intro e herror
    cases hdisk.symm.trans herror

end Disk

/-- Where a solver may leave its answers: files with the extension for them. -/
def IsAnswerPlace (k : Location) : Prop :=
  ∃ l name, k = l ++ [name ++ ".answer"]

def testEndings : List String :=
  [".txt", "a.pbes", "b.pbes"]

namespace Session

/-- There is a place for each file of a test of this name. -/
def Admits (st : Session τ) (name : String) : Prop :=
  ∀ ending ∈ testEndings, ∃ l, st.bench.disk.Takes (st.registry.pathOf (name ++ ending)) l

/-- The places of the files of a test, and those for answers. -/
def TestPlace (st : Session τ) (name : String) (k : Location) : Prop :=
  (∃ ending ∈ testEndings, st.bench.disk.locate (st.registry.pathOf (name ++ ending)) = .ok k) ∨
    IsAnswerPlace k

end Session

/-- A file with another extension is no answer. -/
theorem not_isAnswerPlace {d : Disk} {dir : Path} {name ending : String} {k : Location}
    (hending : IsEnding ending) (hlast : ending.toList.getLast? ≠ some 'r')
    (hk : d.locate (dir.join ⟨name ++ ending⟩) = .ok k) : ¬ IsAnswerPlace k := by
  rintro ⟨l, base, rfl⟩
  obtain ⟨stem, hstem⟩ := Path.exists_fileName?_append dir name
  have hname : base ++ ".answer" = stem ++ ending := by
    simpa using Disk.getLast?_of_locate hk (hstem ending hending)
  have hchars : (base ++ ".answer").toList.getLast? = (stem ++ ending).toList.getLast? := by
    rw [hname]
  rw [String.toList_append, String.toList_append,
    List.getLast?_append_of_ne_nil _ hending.toList_ne_nil,
    List.getLast?_append_of_ne_nil _ (by decide)] at hchars
  exact hlast hchars.symm

/-- The places for the files of a test: each is apart from the next, and the last is none for
answers. -/
theorem Session.Admits.places {st : Session τ} {name : String} (h : st.Admits name) :
    ∃ l₁ l₂ l₃, st.bench.disk.Takes (st.registry.pathOf (sourceName name)) l₁ ∧
      st.bench.disk.Takes (st.registry.pathOf (concreteName name)) l₂ ∧
      st.bench.disk.Takes (st.registry.pathOf (abstractedName name)) l₃ ∧
      l₁ ≠ l₂ ∧ l₂ ≠ l₃ ∧ ¬ IsAnswerPlace l₃ := by
  have hendings : ∀ ending ∈ testEndings, IsEnding ending ∧ ending.toList.getLast? ≠ some 'r' := by
    decide
  obtain ⟨hsource, -⟩ := hendings ".txt" (by decide)
  obtain ⟨hconcrete, -⟩ := hendings "a.pbes" (by decide)
  obtain ⟨habstracted, hlast⟩ := hendings "b.pbes" (by decide)
  obtain ⟨l₁, hl₁⟩ := h ".txt" (by decide)
  obtain ⟨l₂, hl₂⟩ := h "a.pbes" (by decide)
  obtain ⟨l₃, hl₃⟩ := h "b.pbes" (by decide)
  refine ⟨l₁, l₂, l₃, hl₁, hl₂, hl₃, ?_, ?_, ?_⟩
  · exact Disk.locate_ne hsource hconcrete (by decide) hl₁.locate hl₂.locate
  · exact Disk.locate_ne hconcrete habstracted (by decide) hl₂.locate hl₃.locate
  · exact not_isAnswerPlace habstracted hlast hl₃.locate

/-- Relations between disks that say what has changed at some places, from files that come and go to
anything but directories that go. -/
structure Disk.IsFrame (F : (Location → Prop) → Disk → Disk → Prop) : Prop where
  of_changedIn {P : Location → Prop} {d d' : Disk} : ChangedIn P d d' → F P d d'
  onlyAt {P : Location → Prop} {d d' : Disk} : F P d d' → OnlyAt P d d'
  mono {P Q : Location → Prop} {d d' : Disk} : F P d d' → (∀ k, P k → Q k) → F Q d d'
  trans {P : Location → Prop} {d d' d'' : Disk} : F P d d' → F P d' d'' → F P d d''

theorem Disk.isFrame_changedIn : IsFrame ChangedIn :=
  ⟨id, ChangedIn.onlyAt, ChangedIn.mono, ChangedIn.trans⟩

theorem Disk.isFrame_onlyAt : IsFrame OnlyAt :=
  ⟨ChangedIn.onlyAt, id, OnlyAt.mono, OnlyAt.trans⟩

/-- The tools go by the contents of files. A result overwrites the output, and nothing else changes,
in the sense of `F`. Without a result of the abstraction there may be anything at the output that
`F` allows, and calls that fail may do what they like. Of a failure only what `view` shows is
settled. -/
structure Tools.Follows (tools : Tools τ) (view : Failure → ε)
    (F : (Location → Prop) → Disk → Disk → Prop) (f : FileResults ε) : Prop where
  convert {b : Bench τ} {input output : Path} {content : ByteArray} {x : Bool} {l : Location} :
    b.disk.find input = .ok (.file content x) → b.disk.Takes output l →
      b.disk.locate input ≠ .ok l →
      Ends (fun _ b' => ∃ written, f.convert content = .ok written ∧
          F (· = l) b.disk b'.disk ∧ b'.disk.Holds l written)
        (fun e _ => f.convert content = .error (view e)) (tools.convert input output b)
  abstract {b : Bench τ} {input output : Path} {strategy : Strategy} {content : ByteArray}
    {x : Bool} {l : Location} :
    b.disk.find input = .ok (.file content x) → b.disk.Takes output l →
      b.disk.locate input ≠ .ok l →
      Ends (fun done b' => ∃ result, f.abstract strategy content = .ok result ∧
          done = result.isSome ∧ F (· = l) b.disk b'.disk ∧
          ∀ written ∈ result, b'.disk.Holds l written)
        (fun e _ => f.abstract strategy content = .error (view e))
        (tools.abstract input output strategy b)
  solve {b : Bench τ} {input : Path} {content : ByteArray} {x : Bool} :
    b.disk.find input = .ok (.file content x) →
      Ends (fun answer b' => f.solve content = .ok answer ∧ F IsAnswerPlace b.disk b'.disk)
        (fun e _ => f.solve content = .error (view e)) (tools.solve input b)

def Bench.read (input : Path) : Action (Bench Unit) ByteArray := fun b =>
  match b.disk.readBytes input with
  | .ok content => (.ok content, b)
  | .error e => (.error (.file e), b)

theorem Bench.ends_read {b : Bench Unit} {input : Path} {content : ByteArray} {x : Bool}
    {Q : ByteArray → Bench Unit → Prop} {E : Failure → Bench Unit → Prop}
    (hinput : b.disk.find input = .ok (.file content x)) (h : Q content b) :
    Ends Q E (read input b) := by
  have hread : b.disk.readBytes input = .ok content := by
    simp [Disk.readBytes, hinput, bind, Except.bind]
  unfold read
  rw [hread]
  exact ends_ok h

namespace FileResults

/-- Tools that do what the results say. Where nothing comes of it, they leave litter. -/
def tools (f : FileResults Failure) (litter : ByteArray) : Tools Unit where
  convert input output := do
    match f.convert (← Bench.read input) with
    | .ok written => Bench.change (·.write output written)
    | .error e =>
      Bench.change (·.write output litter)
      throw e
  abstract input output strategy := do
    match f.abstract strategy (← Bench.read input) with
    | .ok (some written) =>
      Bench.change (·.write output written)
      return true
    | .ok none =>
      Bench.change (·.write output litter)
      return false
    | .error e =>
      Bench.change (·.write output litter)
      throw e
  solve input := do
    match f.solve (← Bench.read input) with
    | .ok answer => return answer
    | .error e => throw e

theorem follows {F : (Location → Prop) → Disk → Disk → Prop} (hF : Disk.IsFrame F)
    (f : FileResults Failure) (litter : ByteArray) : (f.tools litter).Follows id F f where
  convert {b input output content x l} hinput houtput _ := by
    apply ends_bind
    apply Bench.ends_read hinput
    cases hconvert : f.convert content with
    | ok written =>
      refine (houtput.ends_write written).imp ?_ fun _ _ => id
      rintro - b' ⟨hchanged, hholds⟩
      exact ⟨written, rfl, hF.of_changedIn hchanged, hholds⟩
    | error e =>
      apply ends_bind
      exact (houtput.ends_write litter).imp (fun _ _ _ => ends_error rfl) fun _ _ => id
  abstract {b input output strategy content x l} hinput houtput _ := by
    apply ends_bind
    apply Bench.ends_read hinput
    cases habstract : f.abstract strategy content with
    | ok result =>
      cases result with
      | some written =>
        apply ends_bind
        refine (houtput.ends_write written).imp ?_ fun _ _ => id
        rintro - b' ⟨hchanged, hholds⟩
        refine ends_pure ⟨some written, rfl, rfl, hF.of_changedIn hchanged, fun w hw => ?_⟩
        obtain rfl := Option.some.inj hw
        exact hholds
      | none =>
        apply ends_bind
        refine (houtput.ends_write litter).imp ?_ fun _ _ => id
        rintro - b' ⟨hchanged, -⟩
        exact ends_pure ⟨none, rfl, rfl, hF.of_changedIn hchanged, nofun⟩
    | error e =>
      apply ends_bind
      exact (houtput.ends_write litter).imp (fun _ _ _ => ends_error rfl) fun _ _ => id
  solve {b input content x} hinput := by
    apply ends_bind
    apply Bench.ends_read hinput
    cases hsolve : f.solve content with
    | ok answer => exact ends_pure ⟨rfl, hF.of_changedIn (.refl _ _)⟩
    | error e => exact ends_error rfl

end FileResults

end PbesLab
