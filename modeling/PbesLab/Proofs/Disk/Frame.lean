import PbesLab.Disk.Registry
import PbesLab.Proofs.Lists

namespace PbesLab

theorem Path.withoutSlash_of_not_endsInSlash {p : Path} (h : p.endsInSlash = false) :
    p.withoutSlash = p := by
  unfold withoutSlash
  unfold endsInSlash at h
  rw [List.getLast?_eq_head?_reverse] at h
  -- nothing is dropped from the end, so what remains is the path or it was empty
  have htrim : Text.trimRight (· == '/') p.text.toList = p.text.toList := by
    unfold Text.trimRight
    cases hrev : p.text.toList.reverse with
    | nil => rw [List.dropWhile_nil, ← hrev, List.reverse_reverse]
    | cons c cs =>
      have hc : (c == '/') = false := by simpa [hrev] using h
      rw [List.dropWhile_cons, hc, if_neg Bool.false_ne_true, ← hrev, List.reverse_reverse]
  rw [htrim]
  split
  · rfl
  · rw [String.ofList_toList]

namespace Disk

variable {d d' d'' : Disk} {k l : Location} {e : Entry} {p : Path} {P Q : Location → Prop}

theorem entry_put_self (h : l ≠ []) : entry? (d.put l e) l = some e := by
  unfold entry?
  rw [if_neg h]
  exact List.lookup_cons_self

theorem entry_put_of_ne (h : k ≠ l) : entry? (d.put l e) k = d.entry? k := by
  unfold entry? put
  split
  · rfl
  · rw [List.lookup_cons, beq_false_of_ne h]
    exact lookup_filter_ne h

theorem entry_drop_self (h : l ≠ []) : entry? (d.drop l) l = none := by
  unfold entry?
  rw [if_neg h]
  exact lookup_filter_self

theorem entry_drop_of_ne (h : k ≠ l) : entry? (d.drop l) k = d.entry? k := by
  unfold entry? drop
  split
  · rfl
  · exact lookup_filter_ne h

theorem enter_eq_ok : d.enter l = .ok () ↔ d.entry? l = some .directory := by
  unfold enter
  split <;> simp_all

/-- A path leads on where the directories on its way are still there. -/
theorem follow_eq_ok_of_directories {pieces : List String}
    (hdirs : ∀ k, d.entry? k = some .directory → d'.entry? k = some .directory)
    (hk : d.follow l pieces = .ok k) : d'.follow l pieces = .ok k := by
  induction pieces generalizing l with
  | nil => exact hk
  | cons piece rest ih =>
    rw [follow] at hk ⊢
    cases henter : d.enter l with
    | error e => simp [henter, bind, Except.bind] at hk
    | ok u =>
      have henter' : d'.enter l = .ok () := enter_eq_ok.mpr (hdirs l (enter_eq_ok.mp henter))
      simp only [henter, henter', bind, Except.bind] at hk ⊢
      split at hk
      · next hskip => rw [if_pos hskip]; exact ih hk
      · next hskip =>
        rw [if_neg hskip]
        split at hk
        · next hup => rw [if_pos hup]; exact ih hk
        · next hup =>
          rw [if_neg hup]
          split at hk
          · cases hk
          · next hlong => rw [if_neg hlong]; exact ih hk

theorem locate_eq_ok_of_directories (hcurrent : d'.current = d.current)
    (hdirs : ∀ k, d.entry? k = some .directory → d'.entry? k = some .directory)
    (hk : d.locate p = .ok k) : d'.locate p = .ok k := by
  unfold locate at hk ⊢
  rw [hcurrent]
  split_ifs at hk ⊢
  · exact follow_eq_ok_of_directories hdirs hk
  · exact follow_eq_ok_of_directories hdirs hk

/-- Other entries at places in `P` at most. No directory comes or goes and no device comes. -/
structure ChangedIn (P : Location → Prop) (d d' : Disk) : Prop where
  current : d'.current = d.current
  elsewhere (k : Location) : ¬ P k → d'.entry? k = d.entry? k
  directory (k : Location) : d'.entry? k = some .directory ↔ d.entry? k = some .directory
  device (k : Location) : d'.entry? k = some .sink → d.entry? k = some .sink

namespace ChangedIn

theorem refl (P : Location → Prop) (d : Disk) : ChangedIn P d d :=
  ⟨rfl, fun _ _ => rfl, fun _ => Iff.rfl, fun _ => id⟩

theorem mono (h : ChangedIn P d d') (hPQ : ∀ k, P k → Q k) : ChangedIn Q d d' where
  current := h.current
  elsewhere k hk := h.elsewhere k fun hP => hk (hPQ k hP)
  directory := h.directory
  device := h.device

theorem trans (h : ChangedIn P d d') (h' : ChangedIn P d' d'') : ChangedIn P d d'' where
  current := h'.current.trans h.current
  elsewhere k hk := (h'.elsewhere k hk).trans (h.elsewhere k hk)
  directory k := (h'.directory k).trans (h.directory k)
  device k hk := h.device k (h'.device k hk)

/-- A change at one place, between files and no entry. -/
theorem of_place (hcurrent : d'.current = d.current)
    (helsewhere : ∀ k, k ≠ l → d'.entry? k = d.entry? k) (h : d.entry? l ≠ some .directory)
    (hdirectory : d'.entry? l ≠ some .directory) (hdevice : d'.entry? l ≠ some .sink) :
    ChangedIn (· = l) d d' := by
  refine ⟨hcurrent, helsewhere, fun k => ?_, fun k hk => ?_⟩
  · by_cases hkl : k = l
    · subst k
      exact iff_of_false hdirectory h
    · rw [helsewhere k hkl]
  · by_cases hkl : k = l
    · subst k
      exact absurd hk hdevice
    · rwa [helsewhere k hkl] at hk

/-- Paths lead where they led. -/
theorem locate_eq_ok (h : ChangedIn P d d') : d'.locate p = .ok k ↔ d.locate p = .ok k :=
  ⟨locate_eq_ok_of_directories h.current.symm fun k => (h.directory k).mp,
    locate_eq_ok_of_directories h.current fun k => (h.directory k).mpr⟩

end ChangedIn

theorem writable_eq_ok : d.writable p = .ok l ↔
    d.locate p = .ok l ∧ p.endsInSlash = false ∧ d.entry? l ≠ some .directory := by
  unfold writable
  cases hslash : p.endsInSlash with
  | true => cases d.locate p.withoutSlash <;> simp [bind, Except.bind]
  | false =>
    rw [Path.withoutSlash_of_not_endsInSlash hslash]
    cases hl : d.locate p with
    | error e => simp [bind, Except.bind]
    | ok k =>
      simp only [bind, Except.bind, Bool.false_eq_true, if_false, Except.ok.injEq, true_and]
      split
      · next hk => simp; rintro rfl; exact hk
      · next hk => simp; rintro rfl; exact hk

theorem write_eq_ok {content : ByteArray} : d.write p content = .ok d' ↔
    ∃ l, d.writable p = .ok l ∧ d.store l content = d' := by
  unfold write
  cases d.writable p <;> simp [bind, Except.bind, pure, Except.pure]

theorem remove_eq_ok : d.remove p = .ok d' ↔
    ∃ l, d.locate p = .ok l ∧ d.entry? l ≠ none ∧ d.entry? l ≠ some .directory ∧ d.drop l = d' := by
  unfold remove
  cases d.locate p with
  | error e => simp [bind, Except.bind]
  | ok l =>
    simp only [bind, Except.bind]
    split <;> simp_all

theorem find_eq_ok : d.find p = .ok e ↔ ∃ l, d.locate p = .ok l ∧ d.entry? l = some e := by
  unfold find
  cases d.locate p with
  | error e => simp [bind, Except.bind]
  | ok l =>
    simp only [bind, Except.bind]
    split <;> simp_all

/-- Only the root has no name, and it is a directory. -/
theorem ne_nil_of_not_directory (h : d.entry? l ≠ some .directory) : l ≠ [] := by
  rintro rfl
  exact h rfl

theorem changedIn_put {content : ByteArray} {x : Bool} (h : d.entry? l ≠ some .directory) :
    ChangedIn (· = l) d (d.put l (.file content x)) := by
  have hput := entry_put_self (d := d) (e := .file content x) (ne_nil_of_not_directory h)
  exact .of_place rfl (fun k hk => entry_put_of_ne hk) h (by simp [hput]) (by simp [hput])

theorem changedIn_drop (h : d.entry? l ≠ some .directory) : ChangedIn (· = l) d (d.drop l) := by
  have hdrop := entry_drop_self (d := d) (ne_nil_of_not_directory h)
  exact .of_place rfl (fun k hk => entry_drop_of_ne hk) h (by simp [hdrop]) (by simp [hdrop])

theorem changedIn_store (content : ByteArray) (h : d.entry? l ≠ some .directory) :
    ChangedIn (· = l) d (d.store l content) := by
  unfold store
  split
  · exact .refl _ d
  · exact changedIn_put h
  · exact changedIn_put h

/-- What has been stored is there, unless a device took it. -/
theorem entry_store_self (content : ByteArray) (h : d.entry? l ≠ some .directory) :
    d.entry? l = some .sink ∧ entry? (d.store l content) l = some .sink ∨
      d.entry? l ≠ some .sink ∧ ∃ x, entry? (d.store l content) l = some (.file content x) := by
  unfold store
  have hl := ne_nil_of_not_directory h
  split
  · next hsink => exact .inl ⟨hsink, hsink⟩
  · next x hfile => exact .inr ⟨by simp [hfile], x, entry_put_self hl⟩
  · next hsink _ => exact .inr ⟨hsink, false, entry_put_self hl⟩

theorem ChangedIn.writable_eq_ok (h : ChangedIn P d d') (hl : d.writable p = .ok l) :
    d'.writable p = .ok l := by
  rw [Disk.writable_eq_ok] at hl ⊢
  exact ⟨h.locate_eq_ok.mpr hl.1, hl.2.1, fun hd => hl.2.2 ((h.directory l).mp hd)⟩

/-- What a path outside the changed places leads to. -/
theorem ChangedIn.find_eq (h : ChangedIn P d d') (hl : d.locate p = .ok l) (hP : ¬ P l) :
    d'.find p = d.find p := by
  have hentry := h.elsewhere l hP
  have hl' := h.locate_eq_ok.mpr hl
  simp only [find, hl, hl', bind, Except.bind, hentry]

theorem readText_of_find {text : String} {x : Bool} (h : d.find p = .ok (.file text.toUTF8 x)) :
    d.readText p = .ok text := by
  have hbytes : String.fromUTF8? text.toByteArray = some text :=
    dif_pos text.isValidUTF8
  simp [readText, readBytes, h, bind, Except.bind, hbytes]

/-- A text that has been written can be read back, unless a device took it. -/
theorem find_of_writeText {text : String} (h : d.writeText p text = .ok d') :
    d'.find p = .ok .sink ∨ ∃ x, d'.find p = .ok (.file text.toUTF8 x) := by
  obtain ⟨l, hl, rfl⟩ := write_eq_ok.mp h
  obtain ⟨hlocate, -, hdir⟩ := writable_eq_ok.mp hl
  have hlocate' := (changedIn_store text.toUTF8 hdir).locate_eq_ok.mpr hlocate
  obtain ⟨-, hsink⟩ | ⟨-, x, hfile⟩ := entry_store_self text.toUTF8 hdir
  · exact .inl (find_eq_ok.mpr ⟨l, hlocate', hsink⟩)
  · exact .inr ⟨x, find_eq_ok.mpr ⟨l, hlocate', hfile⟩⟩

/-- Discarding files changes no other place. -/
theorem changedIn_discard (d : Disk) (p : Path) :
    ChangedIn (fun k => d.locate p = .ok k) d (d.discard p).1 := by
  unfold discard
  split
  · next d' h =>
    obtain ⟨l, hl, -, hdir, rfl⟩ := remove_eq_ok.mp h
    exact (changedIn_drop hdir).mono fun k hk => hk ▸ hl
  · exact .refl _ d
  · exact .refl _ d

theorem changedIn_discardAll (d : Disk) (ps : List Path) :
    ChangedIn (fun k => ∃ p ∈ ps, d.locate p = .ok k) d (d.discardAll ps).1 := by
  induction ps generalizing d with
  | nil => exact .refl _ d
  | cons p ps ih =>
    have hfirst := changedIn_discard d p
    refine (hfirst.mono fun k hk => ⟨p, List.mem_cons_self, hk⟩).trans ?_
    refine (ih (d.discard p).1).mono ?_
    rintro k ⟨q, hq, hk⟩
    exact ⟨q, List.mem_cons_of_mem p hq, hfirst.locate_eq_ok.mp hk⟩

end Disk

end PbesLab
