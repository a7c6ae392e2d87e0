import PbesLab.Proofs.Disk.Frame
import PbesLab.Proofs.Text.Pieces
import Mathlib.Data.List.TakeWhile

namespace PbesLab

variable {name : String}

/-- A name that takes a single step down. -/
def IsPlainName (name : String) : Prop :=
  '/' ∉ name.toList ∧ name ∉ ["", ".", ".."]

instance (name : String) : Decidable (IsPlainName name) :=
  inferInstanceAs (Decidable (_ ∧ _))

/-- Paths that differ in their steps and lead to different places on every disk. -/
structure Path.Apart (p q : Path) : Prop where
  same : p.same q = false
  places (d : Disk) (k : Location) : d.locate p = .ok k → d.locate q ≠ .ok k

namespace Path

variable {p q : Path} {before dots : List String}

abbrev IsDot (piece : String) : Prop :=
  piece = "" ∨ piece = "."

theorem splitName?_eq_some (h : p.splitName? = some (before, name)) :
    name ∉ ["", ".", ".."] ∧
      ∃ dots, p.pieces = before ++ name :: dots ∧ ∀ piece ∈ dots, IsDot piece := by
  let still : String → Bool := fun piece => IsDot piece
  have hsplit : p.pieces.reverse = p.pieces.reverse.takeWhile still ++
      p.pieces.reverse.dropWhile still := List.takeWhile_append_dropWhile.symm
  have hstill : ∀ piece ∈ p.pieces.reverse.takeWhile still, IsDot piece := by
    intro piece hpiece
    have htest : still piece = true := List.mem_takeWhile_imp hpiece
    exact of_decide_eq_true htest
  have hhead := List.head?_dropWhile_not still p.pieces.reverse
  unfold splitName? at h
  split at h
  · next last rest hrest =>
    split at h
    · cases h
    · next hup =>
      obtain ⟨rfl, rfl⟩ := Prod.mk.inj (Option.some.inj h)
      change p.pieces.reverse.dropWhile still = _ at hrest
      rw [hrest] at hsplit hhead
      have hdown : ¬ IsDot last := by simpa [still, IsDot] using hhead
      refine ⟨by simpa [IsDot, hup] using hdown, (p.pieces.reverse.takeWhile still).reverse, ?_, ?_⟩
      · have hpieces := congrArg List.reverse hsplit
        simpa using hpieces
      · exact fun piece hpiece => hstill piece (List.mem_reverse.mp hpiece)
  · cases h

theorem splitName?_of_pieces (h : p.pieces = before ++ [name]) (hname : name ∉ ["", ".", ".."]) :
    p.splitName? = some (before, name) := by
  obtain ⟨hempty, hdot, hup⟩ : name ≠ "" ∧ name ≠ "." ∧ name ≠ ".." := by simpa using hname
  unfold splitName?
  rw [h, List.reverse_append, List.reverse_singleton, List.singleton_append,
    List.dropWhile_cons_of_neg (by simp [hempty, hdot])]
  simp [hup]

/-- The steps of a path end with its file name. -/
theorem getLast?_steps (h : p.fileName? = some name) : p.steps.getLast? = some (.down name) := by
  obtain ⟨⟨before, last⟩, hsplit, hlast⟩ := Option.map_eq_some_iff.mp h
  obtain rfl : last = name := hlast
  obtain ⟨hname, dots, hpieces, hdots⟩ := splitName?_eq_some hsplit
  have hstep : Step.ofPiece? last = some (.down last) := by
    obtain ⟨hempty, hdot, hup⟩ : last ≠ "" ∧ last ≠ "." ∧ last ≠ ".." := by simpa using hname
    simp [Step.ofPiece?, hempty, hdot, hup]
  have hstill : dots.filterMap Step.ofPiece? = [] :=
    List.filterMap_eq_nil_iff.mpr fun piece hpiece => if_pos (hdots piece hpiece)
  unfold steps
  rw [hpieces, List.filterMap_append, List.filterMap_cons, hstep, hstill]
  simp

theorem isAbsolute_plain (h : IsPlainName name) : isAbsolute ⟨name⟩ = false := by
  unfold isAbsolute
  refine beq_false_of_ne fun hhead => h.1 ?_
  exact List.mem_of_head? hhead

theorem pieces_plain (h : IsPlainName name) : pieces ⟨name⟩ = [name] := by
  have huncut : ∀ c ∈ name.toList, (c == '/') = false := fun c hc =>
    beq_false_of_ne fun he => h.1 (he ▸ hc)
  simp [pieces, Text.pieces_of_uncut huncut]

/-- In a directory that has a name there is a slash before every plain name. -/
theorem exists_join_plain {dir : Path} (h : dir.text ≠ "") :
    ∃ cs, ∀ name, IsPlainName name →
      (dir.join ⟨name⟩).text.toList = cs ++ '/' :: name.toList := by
  cases hslash : dir.endsInSlash with
  | true =>
    obtain ⟨cs, hcs⟩ := List.getLast?_eq_some_iff.mp (beq_iff_eq.mp hslash)
    refine ⟨cs, fun name hname => ?_⟩
    simp [join, isAbsolute_plain hname, h, hslash, hcs]
  | false =>
    refine ⟨dir.text.toList, fun name hname => ?_⟩
    simp [join, isAbsolute_plain hname, h, hslash]

theorem exists_pieces_join (dir : Path) :
    ∃ before, ∀ name, IsPlainName name → (dir.join ⟨name⟩).pieces = before ++ [name] := by
  by_cases hempty : dir.text = ""
  · refine ⟨[], fun name hname => ?_⟩
    rw [join, if_pos (.inr hempty)]
    exact pieces_plain hname
  · obtain ⟨cs, hcs⟩ := exists_join_plain hempty
    refine ⟨(Text.pieces (· == '/') cs).map String.ofList, fun name hname => ?_⟩
    have hlast : (Text.pieces (· == '/') name.toList).map String.ofList = [name] :=
      pieces_plain hname
    rw [pieces, hcs name hname, Text.pieces_append_cut (by simp), List.map_append, hlast]

theorem fileName?_join (dir : Path) (h : IsPlainName name) :
    (dir.join ⟨name⟩).fileName? = some name := by
  obtain ⟨before, hpieces⟩ := exists_pieces_join dir
  rw [fileName?, splitName?_of_pieces (hpieces name h) h.2]
  rfl

end Path

namespace Disk

variable {d : Disk} {k l : Location} {p q : Path} {pieces rest dots : List String}

theorem follow_append (d : Disk) (l : Location) (pieces rest : List String) :
    d.follow l (pieces ++ rest) = (d.follow l pieces).bind fun l' => d.follow l' rest := by
  induction pieces generalizing l with
  | nil => rfl
  | cons piece pieces ih =>
    simp only [List.cons_append, follow, bind, Except.bind]
    cases d.enter l with
    | error e => rfl
    | ok u =>
      dsimp only
      split
      · exact ih l
      · split
        · exact ih l.dropLast
        · split
          · rfl
          · exact ih (l ++ [piece])

theorem follow_of_locate (h : d.locate p = .ok k) :
    d.follow (if p.isAbsolute then [] else d.current) p.pieces = .ok k := by
  unfold locate at h
  split at h
  · cases h
  · split at h
    · cases h
    · split at h
      · cases h
      · exact h

theorem follow_name (h : d.follow l (name :: rest) = .ok k) (hname : name ∉ ["", ".", ".."]) :
    d.follow (l ++ [name]) rest = .ok k := by
  obtain ⟨hempty, hdot, hup⟩ : name ≠ "" ∧ name ≠ "." ∧ name ≠ ".." := by simpa using hname
  simp only [follow, bind, Except.bind] at h
  cases henter : d.enter l with
  | error e => simp [henter] at h
  | ok u =>
    rw [henter] at h
    dsimp only at h
    rw [if_neg (not_or.mpr ⟨hempty, hdot⟩), if_neg hup] at h
    split at h
    · cases h
    · exact h

theorem follow_dots (h : d.follow l dots = .ok k) (hdots : ∀ piece ∈ dots, Path.IsDot piece) :
    k = l := by
  induction dots with
  | nil => exact (Except.ok.inj h).symm
  | cons piece dots ih =>
    obtain ⟨hpiece, hdots⟩ := List.forall_mem_cons.mp hdots
    simp only [follow, bind, Except.bind] at h
    cases henter : d.enter l with
    | error e => simp [henter] at h
    | ok u =>
      rw [henter] at h
      dsimp only at h
      rw [if_pos hpiece] at h
      exact ih h hdots

/-- A path leads to a place of its file name. -/
theorem getLast?_of_locate (hk : d.locate p = .ok k) (h : p.fileName? = some name) :
    k.getLast? = some name := by
  obtain ⟨⟨before, last⟩, hsplit, hlast⟩ := Option.map_eq_some_iff.mp h
  obtain rfl : last = name := hlast
  obtain ⟨hname, dots, hpieces, hdots⟩ := Path.splitName?_eq_some hsplit
  have hfollow := follow_of_locate hk
  rw [hpieces, follow_append] at hfollow
  cases hway : d.follow (if p.isAbsolute then [] else d.current) before with
  | error e => simp [hway, Except.bind] at hfollow
  | ok l =>
    rw [hway] at hfollow
    rw [follow_dots (follow_name hfollow hname) hdots]
    exact List.getLast?_concat

end Disk

theorem Path.apart_of_fileName? {p q : Path} {other : String} (hp : p.fileName? = some name)
    (hq : q.fileName? = some other) (hne : name ≠ other) : Apart p q where
  same := by
    rw [← Bool.not_eq_true]
    intro hsame
    have hsteps : p.steps = q.steps := of_decide_eq_true hsame
    have hlast := getLast?_steps hp
    rw [hsteps, getLast?_steps hq] at hlast
    exact hne (Step.down.inj (Option.some.inj hlast)).symm
  places d k hk hk' := by
    have hlast := Disk.getLast?_of_locate hk hp
    rw [Disk.getLast?_of_locate hk' hq] at hlast
    exact hne (Option.some.inj hlast).symm

end PbesLab
