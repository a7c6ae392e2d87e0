import PbesLab.Proofs.Disk.Ending

namespace PbesLab

variable {ending other : String}

/-- Paths of one name take the same steps only if they end alike. -/
theorem Path.eq_of_same {dir : Path} {name : String} (h : IsEnding ending) (h' : IsEnding other)
    (hsame : (dir.join ⟨name ++ ending⟩).same (dir.join ⟨name ++ other⟩) = true) :
    ending = other := by
  by_contra hne
  have hapart := (apart_of_endings dir name h h' hne).same
  rw [hsame] at hapart
  cases hapart

namespace Disk

variable {d d' d'' : Disk} {dir : Path} {name : String} {k l : Location} {P Q : Location → Prop}

/-- Other entries at places in `P` at most, of whatever kind. No directory goes. -/
structure OnlyAt (P : Location → Prop) (d d' : Disk) : Prop where
  current : d'.current = d.current
  elsewhere (k : Location) : ¬ P k → d'.entry? k = d.entry? k
  directory (k : Location) : d.entry? k = some .directory → d'.entry? k = some .directory

theorem OnlyAt.refl (P : Location → Prop) (d : Disk) : OnlyAt P d d :=
  ⟨rfl, fun _ _ => rfl, fun _ => id⟩

theorem OnlyAt.trans (h : OnlyAt P d d') (h' : OnlyAt P d' d'') : OnlyAt P d d'' where
  current := h'.current.trans h.current
  elsewhere k hk := (h'.elsewhere k hk).trans (h.elsewhere k hk)
  directory k hk := h'.directory k (h.directory k hk)

theorem OnlyAt.mono (h : OnlyAt P d d') (hPQ : ∀ k, P k → Q k) : OnlyAt Q d d' :=
  ⟨h.current, fun k hk => h.elsewhere k fun hP => hk (hPQ k hP), h.directory⟩

theorem ChangedIn.onlyAt (h : ChangedIn P d d') : OnlyAt P d d' :=
  ⟨h.current, h.elsewhere, fun k => (h.directory k).mpr⟩

/-- Paths lead where they led. -/
theorem OnlyAt.locate {p : Path} (h : OnlyAt P d d') (hl : d.locate p = .ok l) :
    d'.locate p = .ok l :=
  locate_eq_ok_of_directories h.current h.directory hl

/-- Where neither disk has stored anything they are alike. -/
theorem entry?_of_notMem {k : Location} (h : k ∉ d.entries.map (·.1)) :
    d.entry? k = if k = [] then some .directory else none := by
  unfold entry?
  split
  · rfl
  · refine List.lookup_eq_none_iff.mpr fun e he => ?_
    rw [bne_iff_ne]
    rintro rfl
    exact h (List.mem_map_of_mem he)

/-- So it can be seen at finitely many places what has changed. -/
theorem onlyAt_iff : OnlyAt P d d' ↔ d'.current = d.current ∧
    ∀ k ∈ (d.entries ++ d'.entries).map (·.1), (¬ P k → d'.entry? k = d.entry? k) ∧
      (d.entry? k = some .directory → d'.entry? k = some .directory) := by
  refine ⟨fun h => ⟨h.current, fun k _ => ⟨h.elsewhere k, h.directory k⟩⟩, fun ⟨hcurrent, h⟩ => ?_⟩
  have halike : ∀ k, k ∉ (d.entries ++ d'.entries).map (·.1) → d'.entry? k = d.entry? k := by
    intro k hk
    rw [List.map_append, List.mem_append, not_or] at hk
    rw [entry?_of_notMem hk.1, entry?_of_notMem hk.2]
  refine ⟨hcurrent, fun k hP => ?_, fun k hdir => ?_⟩
  · by_cases hk : k ∈ (d.entries ++ d'.entries).map (·.1)
    · exact (h k hk).1 hP
    · exact halike k hk
  · by_cases hk : k ∈ (d.entries ++ d'.entries).map (·.1)
    · exact (h k hk).2 hdir
    · exact (halike k hk).trans hdir

instance [DecidablePred P] : Decidable (OnlyAt P d d') :=
  decidable_of_iff _ onlyAt_iff.symm

/-- What a path outside the changed places leads to. -/
theorem OnlyAt.find_eq {p : Path} (h : OnlyAt P d d') (hl : d.locate p = .ok l) (hP : ¬ P l) :
    d'.find p = d.find p := by
  simp only [find, hl, h.locate hl, bind, Except.bind, h.elsewhere l hP]

theorem onlyAt_write {p : Path} {content : ByteArray} (h : d.write p content = .ok d') :
    OnlyAt (d.locate p = .ok ·) d d' := by
  obtain ⟨l, hl, rfl⟩ := write_eq_ok.mp h
  obtain ⟨hlocate, -, hdir⟩ := writable_eq_ok.mp hl
  exact (changedIn_store content hdir).onlyAt.mono fun k hk => hk ▸ hlocate

theorem locate_congr {p : Path} (hcurrent : d'.current = d.current)
    (hfollow : d'.follow (if p.isAbsolute then [] else d.current) p.pieces =
      d.follow (if p.isAbsolute then [] else d.current) p.pieces) : d'.locate p = d.locate p := by
  unfold locate
  rw [hcurrent, hfollow]

/-- The last step of a path asks for nothing but a directory to make it from. -/
theorem follow_last_congr {piece : String} (h : d'.enter l = d.enter l) :
    d'.follow l [piece] = d.follow l [piece] := by
  simp only [follow, h]

theorem enter_of_follow {piece : String} {rest : List String}
    (h : d.follow l (piece :: rest) = .ok k) : d.enter l = .ok () := by
  rw [follow] at h
  cases henter : d.enter l with
  | ok u => rfl
  | error e =>
    rw [henter] at h
    cases h

/-- Whatever is left at one path of a name, the others lead where they led. -/
theorem locate_beside (hending : IsEnding ending) (hother : IsEnding other)
    (h : OnlyAt (d.locate (dir.join ⟨name ++ ending⟩) = .ok ·) d d') :
    d'.locate (dir.join ⟨name ++ other⟩) = .ok k ↔ d.locate (dir.join ⟨name ++ other⟩) = .ok k := by
  cases hout : d.locate (dir.join ⟨name ++ ending⟩) with
  | error e =>
    -- without a place for the output nothing changes
    have hentry : ∀ k, d'.entry? k = d.entry? k := fun k => h.elsewhere k (by simp [hout])
    exact ⟨locate_eq_ok_of_directories h.current.symm fun k hk => hentry k ▸ hk,
      locate_eq_ok_of_directories h.current h.directory⟩
  | ok l =>
    obtain ⟨init, stem, hpieces⟩ := Path.exists_pieces_append (dir.join ⟨name⟩).text
    rw [Path.join_append dir name hending] at hout
    rw [Path.join_append dir name hother]
    obtain ⟨way, hway, rfl⟩ := exists_follow_of_locate hending (hpieces ending hending) hout
    have hway' := follow_eq_ok_of_directories h.directory hway
    have henter : d.enter way = .ok () := by
      have hpath := follow_of_locate hout
      rw [hpieces ending hending, Path.isAbsolute_append _ hending, follow_append, hway] at hpath
      exact enter_of_follow hpath
    have henter' : d'.enter way = d.enter way :=
      (enter_eq_ok.mpr (h.directory way (enter_eq_ok.mp henter))).trans henter.symm
    rw [locate_congr h.current]
    rw [hpieces other hother, Path.isAbsolute_append _ hother, follow_append, follow_append, hway,
      hway']
    exact follow_last_congr henter'

/-- Since `start` there have been outputs at the paths `ps` only, and the paths of the name lead
where they led. -/
structure Traced (start : Disk) (dir : Path) (name : String) (ps : List Path) (d : Disk) :
    Prop where
  current : d.current = start.current
  places (ending : String) : IsEnding ending → ∀ k,
    d.locate (dir.join ⟨name ++ ending⟩) = .ok k ↔ start.locate (dir.join ⟨name ++ ending⟩) = .ok k
  elsewhere (k : Location) : (∀ p ∈ ps, start.locate p ≠ .ok k) → d.entry? k = start.entry? k

namespace Traced

variable {start : Disk} {ps qs : List Path}

theorem refl (start : Disk) (dir : Path) (name : String) (ps : List Path) :
    Traced start dir name ps start :=
  ⟨rfl, fun _ _ _ => Iff.rfl, fun _ _ => rfl⟩

theorem mono (h : Traced start dir name ps d) (hsub : ps ⊆ qs) : Traced start dir name qs d :=
  ⟨h.current, h.places, fun k hk => h.elsewhere k fun p hp => hk p (hsub hp)⟩

/-- One more output at one of the paths. -/
theorem output (h : Traced start dir name ps d) (hending : IsEnding ending)
    (hmem : dir.join ⟨name ++ ending⟩ ∈ ps)
    (hd : OnlyAt (d.locate (dir.join ⟨name ++ ending⟩) = .ok ·) d d') :
    Traced start dir name ps d' where
  current := hd.current.trans h.current
  places other hother k := (locate_beside hending hother hd).trans (h.places other hother k)
  elsewhere k hk := by
    rw [hd.elsewhere k fun hl => hk _ hmem ((h.places ending hending k).mp hl)]
    exact h.elsewhere k hk

end Traced

/-- Discarding makes no files. -/
theorem find_of_discard {p q : Path} {content : ByteArray} {x : Bool}
    (h : (d.discard q).1.find p = .ok (.file content x)) : d.find p = .ok (.file content x) := by
  unfold discard at h
  split at h
  · next hremove =>
    obtain ⟨l, -, -, hdir, rfl⟩ := remove_eq_ok.mp hremove
    obtain ⟨k, hk, hentry⟩ := find_eq_ok.mp h
    have hk' := (changedIn_drop hdir).locate_eq_ok.mp hk
    by_cases hkl : k = l
    · rw [hkl, entry_drop_self (ne_nil_of_not_directory hdir)] at hentry
      cases hentry
    · rw [entry_drop_of_ne hkl] at hentry
      exact find_eq_ok.mpr ⟨k, hk', hentry⟩
  · exact h
  · exact h

theorem find_of_discardAll {p : Path} {ps : List Path} {content : ByteArray} {x : Bool}
    (h : (d.discardAll ps).1.find p = .ok (.file content x)) :
    d.find p = .ok (.file content x) := by
  induction ps generalizing d with
  | nil => exact h
  | cons q ps ih => exact find_of_discard (ih h)

theorem find_discard_ne (d : Disk) (p : Path) (content : ByteArray) (x : Bool) :
    (d.discard p).1.find p ≠ .ok (.file content x) := by
  intro hfile
  obtain ⟨l, hl, hentry⟩ := find_eq_ok.mp (find_of_discard hfile)
  have hremove : d.remove p = .ok (d.drop l) :=
    remove_eq_ok.mpr ⟨l, hl, by simp [hentry], by simp [hentry], rfl⟩
  have hdir : d.entry? l ≠ some .directory := by simp [hentry]
  obtain ⟨k, hk, hleft⟩ := find_eq_ok.mp hfile
  simp only [discard, hremove] at hk hleft
  rw [(changedIn_drop hdir).locate_eq_ok, hl] at hk
  obtain rfl := Except.ok.inj hk
  rw [entry_drop_self (ne_nil_of_not_directory hdir)] at hleft
  cases hleft

/-- No file is left at a path that has been discarded. -/
theorem find_discardAll_ne {p : Path} {ps : List Path} (hp : p ∈ ps) (d : Disk)
    (content : ByteArray) (x : Bool) : (d.discardAll ps).1.find p ≠ .ok (.file content x) := by
  induction ps generalizing d with
  | nil => cases hp
  | cons q ps ih =>
    obtain rfl | hp := List.mem_cons.mp hp
    · exact fun hfile => find_discard_ne d p content x (find_of_discardAll hfile)
    · exact ih hp (d.discard q).1

end Disk

end PbesLab
