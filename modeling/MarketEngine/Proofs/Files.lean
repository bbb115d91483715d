import MarketEngine.Files.Disk
import MarketEngine.Proofs.Tables
/-!
# Files that are written and read back

A file holds what was last written to it, in a folder (`Folder.read?_withFile`) and on a disk
(`Disk.read?_write?`), and after it was moved its content stands where it was moved to
(`Disk.read?_rename?`). Writing and erasing do not change where a path leads
(`Disk.place?_folders`).
-/

namespace MarketEngine

/-! ## Folders -/

namespace Folder

variable {f f' : Folder} {name name' content : String}

/-- A file of this name can be written. -/
structure Accepts (f : Folder) (name : String) : Prop where
  exists_folder : f.missing = false
  isFileName : isFileName name = true
  not_folder : f.nodes.get? name ≠ some .folder

/-- The folder with a file in place of what had this name. -/
def withFile (f : Folder) (name content : String) : Folder :=
  { f with nodes := f.nodes.put name (.text content) }

/-- The characters of a name, as a list, decide whether a file can have it. -/
theorem isFileName_eq (name : String) : Folder.isFileName name =
    (name ≠ "" && name ≠ "." && name ≠ ".." && !name.toList.any (fun c => c == '/' || c == '\x00')
      && name.utf8ByteSize ≤ 255) := by
  rw [Folder.isFileName, String.any, String.contains_bool_eq]

/-- A write goes through if and only if the folder accepts the name, and then the file is in place.
-/
theorem write?_eq_some : f.write? name content = some f' ↔
    f.Accepts name ∧ f' = f.withFile name content := by
  unfold write?
  constructor
  · intro h
    split at h
    · cases h
    · next hrefused =>
      simp only [Bool.or_eq_true, Bool.not_eq_true', beq_iff_eq, not_or, Bool.not_eq_true,
        Bool.not_eq_false] at hrefused
      obtain ⟨⟨hmissing, hname⟩, hnode⟩ := hrefused
      exact ⟨⟨hmissing, hname, hnode⟩, (Option.some.inj h).symm⟩
  · rintro ⟨⟨hmissing, hname, hnode⟩, rfl⟩
    rw [if_neg (by simp [hmissing, hname, hnode])]
    rfl

/-- What was written is read back, and the other files are as they were. -/
theorem read?_withFile (h : f.Accepts name) (name' content : String) :
    (f.withFile name content).read? name' = if name' = name then some content
      else f.read? name' := by
  unfold read? withFile
  rw [Table.get?_put]
  by_cases hname : name' = name
  · simp [hname, h.exists_folder]
  · simp [hname]

/-- A file in place is no obstacle to writing one. -/
theorem accepts_withFile (h : f.Accepts name) (name' content : String) :
    (f.withFile name content).Accepts name' ↔ f.Accepts name' := by
  have hnode : (f.withFile name content).nodes.get? name' ≠ some .folder ↔
      f.nodes.get? name' ≠ some .folder := by
    rw [withFile, Table.get?_put]
    by_cases hname : name' = name
    · simpa [hname] using h.not_folder
    · simp [hname]
  exact ⟨fun h' => ⟨h'.exists_folder, h'.isFileName, hnode.1 h'.not_folder⟩,
    fun h' => ⟨h'.exists_folder, h'.isFileName, hnode.2 h'.not_folder⟩⟩

/-- The other files are as they were when one is erased. -/
theorem read?_erase_of_ne (f : Folder) (hne : name' ≠ name) :
    (f.erase name).read? name' = f.read? name' := by
  have hnode : Table.get? (f.nodes.filter (·.1 ≠ name)) name' = f.nodes.get? name' := by
    rw [Table.get?_filter f.nodes (fun name' => decide (name' ≠ name)), if_pos (by simpa using hne)]
  unfold read? erase
  rw [hnode]

end Folder


/-! ## Disks -/

namespace Disk

variable {d d' : Disk} {path path' content : String}

/-- Where a path leads depends on how deep the working folder lies, not on what the folders hold. -/
theorem place?_folders (d : Disk) {folders : List Folder}
    (hdepth : folders.length = d.folders.length) (path : String) :
    place? { d with folders } path = d.place? path := by
  have henter : enter { d with folders } = d.enter := by
    funext level component
    simp only [enter, hdepth]
  simp only [place?, follow?, henter, hdepth]

/-- A file can be written where the path leads. -/
def Accepts (d : Disk) (path : String) : Prop :=
  ∃ level name folder, d.place? path = some (level, name) ∧ d.folders[level]? = some folder ∧
    folder.Accepts name

/-- A write goes through if and only if the path leads to a folder that accepts the name. -/
theorem write?_eq_some : d.write? path content = some d' ↔ ∃ level name folder,
    d.place? path = some (level, name) ∧ d.folders[level]? = some folder ∧ folder.Accepts name ∧
      d' = { d with folders := d.folders.set level (folder.withFile name content) } := by
  simp only [write?, Option.bind_eq_bind, Option.bind_eq_some_iff, Folder.write?_eq_some,
    Option.pure_def, Option.some.injEq, Prod.exists]
  constructor
  · rintro ⟨level, name, hplace, folder, hfolder, _, ⟨haccepts, rfl⟩, rfl⟩
    exact ⟨level, name, folder, hplace, hfolder, haccepts, rfl⟩
  · rintro ⟨level, name, folder, hplace, hfolder, haccepts, rfl⟩
    exact ⟨level, name, hplace, folder, hfolder, _, ⟨haccepts, rfl⟩, rfl⟩

/-- A write does not change where paths lead. -/
theorem place?_write? (h : d.write? path content = some d') (path' : String) :
    d'.place? path' = d.place? path' := by
  obtain ⟨level, name, folder, -, -, -, rfl⟩ := write?_eq_some.1 h
  exact place?_folders d (List.length_set ..) path'

/-- What was written is read back. -/
theorem read?_write? (h : d.write? path content = some d') : d'.read? path = some content := by
  have hplace' := place?_write? h path
  obtain ⟨level, name, folder, hplace, hfolder, haccepts, rfl⟩ := write?_eq_some.1 h
  have hlevel : level < d.folders.length := (List.getElem?_eq_some_iff.1 hfolder).1
  simp [read?, hplace', hplace, hlevel, Folder.read?_withFile haccepts]

/-- A write goes through where a file can be written. -/
theorem exists_write? (h : d.Accepts path) (content : String) :
    ∃ d', d.write? path content = some d' := by
  obtain ⟨level, name, folder, hplace, hfolder, haccepts⟩ := h
  exact ⟨_, write?_eq_some.2 ⟨level, name, folder, hplace, hfolder, haccepts, rfl⟩⟩

/-- What can be written can still be written after something was. -/
theorem Accepts.write? (h : d.Accepts path') (hwrite : d.write? path content = some d') :
    d'.Accepts path' := by
  obtain ⟨level', name', folder', hplace', hfolder', haccepts'⟩ := h
  rw [← place?_write? hwrite] at hplace'
  obtain ⟨level, name, folder, -, hfolder, haccepts, rfl⟩ := write?_eq_some.1 hwrite
  by_cases hlevel : level = level'
  · subst hlevel
    obtain rfl := Option.some.inj (hfolder.symm.trans hfolder')
    have hlevel : level < d.folders.length := (List.getElem?_eq_some_iff.1 hfolder).1
    exact ⟨level, name', _, hplace', List.getElem?_set_self hlevel,
      (Folder.accepts_withFile haccepts name' content).2 haccepts'⟩
  · exact ⟨level', name', folder', hplace', (List.getElem?_set_ne hlevel).trans hfolder',
      haccepts'⟩

/-- Erasing a file leaves the others. -/
theorem read?_erase (hplace : d.place? path ≠ d.place? path') :
    (d.erase path).read? path' = d.read? path' := by
  rw [erase]
  split
  · rfl
  · next level name hpath =>
    rw [read?, place?_folders d (List.length_modify ..), read?]
    cases hpath' : d.place? path' with
    | none => rfl
    | some place =>
      obtain ⟨level', name'⟩ := place
      rw [hpath, hpath'] at hplace
      simp only [Option.bind_eq_bind, Option.bind_some, List.getElem?_modify]
      by_cases hlevel : level = level'
      · subst hlevel
        have hname : name' ≠ name := fun h => hplace (by rw [h])
        cases d.folders[level]? with
        | none => rfl
        | some folder => simpa using Folder.read?_erase_of_ne folder hname
      · cases d.folders[level']? <;> simp [hlevel]

/-- A file is moved if it can be read and written in the other place, and it is erased where it was,
unless that is the same place. -/
theorem rename?_eq_some : d.rename? path path' = some d' ↔ ∃ content moved,
    d.read? path = some content ∧ d.write? path' content = some moved ∧
      d' = if d.place? path = d.place? path' then moved else moved.erase path := by
  simp only [rename?, Option.bind_eq_bind, Option.bind_eq_some_iff, Option.pure_def,
    Option.some.injEq]
  constructor
  · rintro ⟨content, hread, moved, hwrite, rfl⟩
    exact ⟨content, moved, hread, hwrite, rfl⟩
  · rintro ⟨content, moved, hread, hwrite, rfl⟩
    exact ⟨content, hread, moved, hwrite, rfl⟩

/-- A file that was moved has the content it had before. -/
theorem read?_rename? (h : d.rename? path path' = some d') : d'.read? path' = d.read? path := by
  obtain ⟨content, moved, hread, hwrite, rfl⟩ := rename?_eq_some.1 h
  have hmoved := read?_write? hwrite
  split
  · rw [hmoved, hread]
  · next hplace =>
    rw [read?_erase (by rwa [place?_write? hwrite, place?_write? hwrite]), hmoved, hread]

end Disk

end MarketEngine
