import ClassMap.Proofs.Files.Parents

/-!
Files beside each other. What a path leads to, be it the empty one, is the folder around the place
of a name put behind it. The parent of the longer path has the components of the shorter one, however
it is written, so another name put in the place of the first one has its place in the same folder
(`exists_places_withFileName`).
-/

set_option autoImplicit false
set_option relaxedAutoImplicit false

namespace ClassMap

namespace Path

variable {name : String}

/-- What a path with a name at its end is in has the components before the name. -/
theorem exists_parent?_join (base : String) (hname : isEntryName name = true) :
    ∃ parent, parent? (join base name) = some parent ∧ components parent = components base := by
  have hcomponents := components_join base hname
  cases hparent : parent? (join base name) with
  | none =>
    rw [components_eq, counted_of_parent?_eq_none hparent, List.append_nil] at hcomponents
    have hlast : .name name ∈ (lead (join base name)).toList := by
      rw [hcomponents]
      exact List.mem_append_right _ List.mem_cons_self
    exact absurd (Option.mem_toList.mp hlast) (lead_ne_name _ _)
  | some parent =>
    obtain ⟨c, hc⟩ := components_of_parent? hparent
    rw [hcomponents] at hc
    exact ⟨parent, rfl, (List.append_inj_left' hc rfl).symm⟩

end Path

namespace Disk

variable {d : Disk} {base name other : String} {place beside : Location}

/-- The place of a name behind a path is in the folder that the components of the path lead to. -/
theorem exists_along?_of_placeOf?_join (hname : Path.isEntryName name = true)
    (hplace : d.placeOf? (Path.join base name) = some place) :
    ∃ folder, d.along? (Path.components base) = some folder ∧ place = folder.push name := by
  by_cases hbase : base = ""
  · rw [hbase, Path.join_empty] at hplace
    obtain ⟨⟨folder, segment⟩, hparent, rfl⟩ := Option.map_eq_some_iff.mp hplace
    obtain ⟨-, hfollow, -, hlast⟩ := parentOf?_eq_some_iff.mp hparent
    have hstart : d.start name = d.current := by
      rw [start, Path.not_isAbsolute (Path.slash_notMem hname), if_neg Bool.false_ne_true]
    rw [Path.segments_of_isEntryName hname, hstart] at hfollow
    rw [Path.segments_of_isEntryName hname] at hlast
    obtain rfl := Option.some.inj hfollow
    obtain rfl : name = segment := hlast
    rw [hbase]
    exact ⟨d.current, rfl, stepPlace_of_isName _ (Path.isName_of_isEntryName hname)⟩
  · obtain ⟨-, folder, hlocate, -, rfl⟩ := (placeOf?_join_eq_some_iff hbase hname).mp hplace
    exact ⟨folder, along?_of_locate? hlocate, rfl⟩

/-- Two names, one in the place of the other, have their places in one folder. -/
theorem exists_places_withFileName (hname : Path.isEntryName name = true)
    (hother : Path.isEntryName other = true)
    (hplace : d.placeOf? (Path.join base name) = some place)
    (hbeside : d.placeOf? (Path.withFileName (Path.join base name) other) = some beside) :
    ∃ folder, d.along? (Path.components base) = some folder ∧ place = folder.push name ∧
      beside = folder.push other := by
  obtain ⟨parent, hparent, hcomponents⟩ := Path.exists_parent?_join base hname
  rw [Path.withFileName, Path.fileName?_join base hname, hparent, Option.isSome_some,
    if_pos rfl, Option.getD_some] at hbeside
  obtain ⟨folder, hfolder, rfl⟩ := exists_along?_of_placeOf?_join hname hplace
  obtain ⟨folder', hfolder', rfl⟩ := exists_along?_of_placeOf?_join hother hbeside
  rw [hcomponents, hfolder] at hfolder'
  obtain rfl := Option.some.inj hfolder'
  exact ⟨folder, hfolder, rfl, rfl⟩

end Disk

end ClassMap
