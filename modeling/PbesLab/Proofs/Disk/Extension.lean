import PbesLab.Proofs.Disk.Ending

namespace PbesLab

variable {name stem ending ext : String}

namespace Path

theorem stemOf_append_stop (h : stem ≠ "") (hext : '.' ∉ ext.toList) :
    stemOf (stem ++ "." ++ ext) = stem := by
  obtain ⟨first, rest, hstem⟩ := Text.exists_pieces_eq_cons (· == '.') stem.toList
  have hone : Text.pieces (· == '.') ext.toList = [ext.toList] :=
    Text.pieces_of_uncut fun c hc => beq_false_of_ne fun he => hext (he ▸ hc)
  have htext : (stem ++ "." ++ ext).toList = stem.toList ++ '.' :: ext.toList := by simp
  have hwhole := Text.intercalate_pieces '.' stem.toList
  unfold stemOf
  rw [htext, Text.pieces_append_cut rfl, hone, List.reverse_append, List.reverse_singleton,
    List.singleton_append]
  cases hback : (Text.pieces (· == '.') stem.toList).reverse with
  | nil => simp [hstem] at hback
  | cons piece before =>
    have hforth : (piece :: before).reverse = Text.pieces (· == '.') stem.toList := by
      rw [← hback, List.reverse_reverse]
    dsimp only
    rw [hforth, hwhole, String.ofList_toList, if_neg h]

/-- A name is its stem and, where there is an extension, a full stop with it. -/
theorem exists_stemOf_append (name : String) :
    ∃ rest, name.toList = (stemOf name).toList ++ rest ∧ (rest = [] ∨ rest.head? = some '.') := by
  have hwhole := Text.intercalate_pieces '.' name.toList
  unfold stemOf
  split
  · next last piece before hback =>
    have hforth : Text.pieces (· == '.') name.toList = (piece :: before).reverse ++ [last] := by
      rw [← List.reverse_reverse (Text.pieces (· == '.') name.toList), hback, List.reverse_cons]
    rw [hforth, Text.intercalate_concat _ (by simp)] at hwhole
    dsimp only
    split
    · exact ⟨[], by simp⟩
    · exact ⟨'.' :: last, by simp [← hwhole], .inr rfl⟩
  · exact ⟨[], by simp⟩

/-- The name that a stem comes from is not one that goes on otherwise. -/
theorem stemOf_append_ne (hending : ending.toList ≠ []) (hstop : ending.toList.head? ≠ some '.') :
    stemOf name ++ ending ≠ name := by
  intro he
  obtain ⟨rest, hrest, hcases⟩ := exists_stemOf_append name
  have hlist := congrArg String.toList he
  rw [String.toList_append] at hlist
  obtain rfl : ending.toList = rest := List.append_cancel_left (hlist.trans hrest)
  exact hcases.elim hending hstop

theorem slash_notMem_stemOf (h : '/' ∉ name.toList) : '/' ∉ (stemOf name).toList := by
  obtain ⟨rest, hrest, -⟩ := exists_stemOf_append name
  rw [hrest] at h
  exact fun hmem => h (List.mem_append_left rest hmem)

theorem slash_notMem_fileName {p : Path} (h : p.fileName? = some name) : '/' ∉ name.toList := by
  obtain ⟨⟨before, last⟩, hsplit, hlast⟩ := Option.map_eq_some_iff.mp h
  obtain rfl : last = name := hlast
  obtain ⟨-, dots, hpieces, -⟩ := splitName?_eq_some hsplit
  have hmem : last ∈ p.pieces := by
    rw [hpieces]
    exact List.mem_append_right before List.mem_cons_self
  obtain ⟨piece, hpiece, rfl⟩ := List.mem_map.mp hmem
  rw [String.toList_ofList]
  intro hslash
  cases Text.uncut_of_mem_pieces hpiece '/' hslash

theorem ofPieces_pieces (p : Path) : ofPieces p.pieces = p := by
  have htext : ("/".intercalate p.pieces).toList = p.text.toList := by
    rw [String.toList_intercalate, pieces, List.map_map]
    have hmap : (Text.pieces (· == '/') p.text.toList).map (String.toList ∘ String.ofList) =
        Text.pieces (· == '/') p.text.toList := by simp [Function.comp_def]
    rw [hmap]
    exact Text.intercalate_pieces '/' p.text.toList
  rw [ofPieces, String.toList_inj.mp htext]

theorem withExtension_join (dir : Path) (hname : IsPlainName name)
    (hother : IsPlainName (stemOf name ++ "." ++ ext)) :
    (dir.join ⟨name⟩).withExtension ext = dir.join ⟨stemOf name ++ "." ++ ext⟩ := by
  obtain ⟨before, hpieces⟩ := exists_pieces_join dir
  rw [withExtension, splitName?_of_pieces (hpieces name hname) hname.2]
  dsimp only
  rw [← hpieces _ hother, ofPieces_pieces]

end Path

end PbesLab
