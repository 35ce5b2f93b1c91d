import FirmwareKit.Proofs.Files.Store
set_option autoImplicit false

/-!
# Files apart from one that is stored

Whoever stores a file, be it in vain, makes directories and changes that file alone. So what a path
led to before, it leads to afterwards, unless it leads to the place of the stored file. When a place
is removed, the files are left whose paths avoid it.
-/
namespace FirmwareKit

namespace Workspace
variable {w w' : Workspace} {path other : String} {content new : List UInt8}

def start (w : Workspace) (path : String) : Place :=
  if Path.isAbsolute path = true then [] else w.directory

def destination (w : Workspace) (path : String) : Place :=
  FileTree.destination (w.start path) (Path.parts path)

theorem place_of_locate {target : FileTree.Target}
    (h : w.tree.locate w.directory path = .ok target) : target.place = w.destination path :=
  (FileTree.way_of_locate h).2.place_eq

theorem contentAt?_eq_some_iff :
    w.contentAt? path = some content ↔
      w.tree.locate w.directory path = .ok (.present (w.destination path) (.file content)) := by
  constructor
  · intro h
    rw [contentAt?] at h
    split at h
    case h_1 place found hlookup =>
      cases h
      have hlocate := FileTree.lookup?_eq_some_iff.mp hlookup
      rw [← place_of_locate hlocate]
      exact hlocate
    case h_2 => cases h
  · intro h
    rw [contentAt?, FileTree.lookup?_eq_some_iff.mpr h]

theorem start_eq_of_directory (h : w'.directory = w.directory) : w'.start path = w.start path := by
  rw [start, start, h]

theorem destination_eq_of_directory (h : w'.directory = w.directory) :
    w'.destination path = w.destination path := by
  rw [destination, destination, start_eq_of_directory h]

/-- What may happen to the files when one is stored: directories are made, and the file that the path
leads to is made or replaced. -/
inductive Stored (path : String) : Workspace → Workspace → Prop
  | same {w w' : Workspace} (h : SameFiles w w') : Stored path w w'
  | directory {w : Workspace} {other : String} {place : Place} {asDirectory : Bool}
      (hlocate : w.tree.locate w.directory other = .ok (.free place asDirectory)) :
      Stored path w (w.withTree (w.tree.put place .directory))
  | file {w : Workspace} {target : FileTree.Target} {content : List UInt8}
      (hlocate : w.tree.locate w.directory path = .ok target)
      (hadmits : target.Admits (.file content)) :
      Stored path w (w.withTree (w.tree.put target.place (.file content)))
  | trans {w w' w'' : Workspace} (h : Stored path w w') (h' : Stored path w' w'') :
      Stored path w w''

instance (path : String) : Std.Refl (Stored path) := ⟨fun _ => .same (Std.Refl.refl _)⟩

instance (path : String) : Trans (Stored path) (Stored path) (Stored path) := ⟨.trans⟩

theorem Stored.directory_eq (h : Stored path w w') : w'.directory = w.directory := by
  induction h with
  | same h => exact h.directory
  | directory => rfl
  | file => rfl
  | trans _ _ ih ih' => exact ih'.trans ih

/-- No directory goes, and no file but the stored one changes. -/
theorem Stored.entry (h : Stored path w w') {q : Place} {e : FileTree.Entry}
    (he : w.tree.entry? q = some e) (hq : q ≠ w.destination path ∨ e = .directory) :
    w'.tree.entry? q = some e := by
  induction h with
  | same h => exact h.tree ▸ he
  | @directory w _ place _ hlocate =>
    have hfree : w.tree.entry? place = none := (FileTree.way_of_locate hlocate).2.found
    have hne : q ≠ place := by
      rintro rfl
      cases hfree.symm.trans he
    exact (FileTree.entry?_put_of_ne hne _).trans he
  | @file w target content hlocate hadmits =>
    have hne : q ≠ target.place := by
      rintro rfl
      rcases hq with hq | rfl
      · exact hq (place_of_locate hlocate)
      · exact ((FileTree.way_of_locate hlocate).2.found.not_directory hadmits).2 he
    exact (FileTree.entry?_put_of_ne hne _).trans he
  | trans h _ ih ih' =>
    refine ih' (ih he hq) ?_
    rwa [destination_eq_of_directory h.directory_eq]

theorem Stored.directories (h : Stored path w w') (q : Place)
    (hq : w.tree.entry? q = some .directory) : w'.tree.entry? q = some .directory :=
  h.entry hq (.inr rfl)

/-- A file that is found is found again, with what its place holds by then. -/
theorem contentAt?_of_entry (hdirectory : w'.directory = w.directory)
    (hkept : ∀ q, w.tree.entry? q = some .directory → w'.tree.entry? q = some .directory)
    (h : w.contentAt? path = some content)
    (hnew : w'.tree.entry? (w.destination path) = some (.file new)) :
    w'.contentAt? path = some new := by
  obtain ⟨hpath, hway⟩ := FileTree.way_of_locate (contentAt?_eq_some_iff.mp h)
  rw [contentAt?_eq_some_iff, hdirectory, destination_eq_of_directory hdirectory]
  exact FileTree.locate_of_way hpath (hway.of_directories hkept hnew)

theorem entry?_of_contentAt? (h : w.contentAt? path = some content) :
    w.tree.entry? (w.destination path) = some (.file content) :=
  (FileTree.way_of_locate (contentAt?_eq_some_iff.mp h)).2.found

theorem Stored.contentAt? (h : Stored path w w') (hcontent : w.contentAt? other = some content)
    (hapart : w.destination other ≠ w.destination path) : w'.contentAt? other = some content :=
  contentAt?_of_entry h.directory_eq h.directories hcontent
    (h.entry (entry?_of_contentAt? hcontent) (.inl hapart))

/-- A path that leads to the place of the stored file leads to what has been stored. -/
theorem Stored.contentAt?_of_eq (h : Stored path w w') (hcontent : w.contentAt? other = some content)
    (hsame : w.destination other = w.destination path) (hnew : w'.contentAt? path = some new) :
    w'.contentAt? other = some new := by
  refine contentAt?_of_entry h.directory_eq h.directories hcontent ?_
  rw [hsame, ← destination_eq_of_directory h.directory_eq]
  exact entry?_of_contentAt? hnew

/-- The way to a file goes by a place and all that is below it. -/
def Avoids (w : Workspace) (p : Place) (path : String) : Prop :=
  FileTree.Avoids p (w.start path) (Path.parts path)

instance (w : Workspace) (p : Place) (path : String) : Decidable (w.Avoids p path) :=
  inferInstanceAs (Decidable (FileTree.Avoids p (w.start path) (Path.parts path)))

theorem avoids_iff_of_directory {p : Place} (h : w'.directory = w.directory) :
    w'.Avoids p path ↔ w.Avoids p path := by
  rw [Avoids, Avoids, start_eq_of_directory h]

/-- When a place has been removed, just those files are found as before whose paths avoid it. -/
theorem contentAt?_remove {p : Place} (hp : p ≠ []) (hdirectory : w'.directory = w.directory)
    (htree : w'.tree = w.tree.remove p) :
    w'.contentAt? path = some content ↔ w.contentAt? path = some content ∧ w.Avoids p path := by
  have hlater {q : Place} {e : FileTree.Entry} (he : w'.tree.entry? q = some e) :
      w.tree.entry? q = some e := by
    rw [htree] at he
    by_cases hprefix : p <+: q
    · rw [FileTree.entry?_remove_inside hp hprefix] at he
      cases he
    · exact (FileTree.entry?_remove_outside hprefix).symm.trans he
  constructor
  · intro h
    refine ⟨?_, ?_⟩
    · refine contentAt?_of_entry hdirectory.symm (fun q => hlater) h ?_
      exact hlater (entry?_of_contentAt? h)
    · obtain ⟨-, hway⟩ := FileTree.way_of_locate (contentAt?_eq_some_iff.mp h)
      rw [htree] at hway
      exact (avoids_iff_of_directory hdirectory).mp (hway.avoids hp)
  · rintro ⟨h, havoids⟩
    obtain ⟨hpath, hway⟩ := FileTree.way_of_locate (contentAt?_eq_some_iff.mp h)
    rw [contentAt?_eq_some_iff, hdirectory, htree, destination_eq_of_directory hdirectory]
    exact FileTree.locate_of_way hpath (hway.remove havoids)

end Workspace

namespace Run
open Workspace (Stored)

theorem stored_of_reads {α : Type} {r : Run α} (hr : Reads r) (path : String) :
    Keeps (Stored path) r := hr.mono fun _ _ h => .same h

theorem stored_makeDirectory (path other : String) : Keeps (Stored other) (makeDirectory path) := by
  refine (stored_of_reads (reads_locate path) other).bind_of_ok fun s target u h => ?_
  obtain ⟨rfl, hlocate⟩ := ok_of_locate h
  cases target with
  | present place entry => exact Std.Refl.refl _
  | free place asDirectory => exact .directory hlocate

theorem stored_makeDirectoriesWithin (depth : Nat) (path other : String) :
    Keeps (Stored other) (makeDirectoriesWithin depth path) := by
  induction depth generalizing path with
  | zero => exact keeps_pure ()
  | succ depth ih =>
    refine keeps_get.bind fun w => Keeps.unless ?_ ?_ _ _
    · refine (ih _).tryCatch fun f => ?_
      split
      · exact keeps_pure ()
      · exact keeps_throw _
    · refine (stored_makeDirectory path other).tryCatch fun f => keeps_get.bind fun w => ?_
      split
      · exact keeps_throw _
      · split
        · exact keeps_pure ()
        · exact keeps_throw _

theorem reads_refuseDirectory (path : String) : Reads (refuseDirectory path) := by
  rw [refuseDirectory]
  split
  · exact keeps_pure ()
  · exact (reads_locate _).bind fun _ => reads_system _

theorem stored_openFor (mode : WriteMode) (path : String) :
    Keeps (Stored path) (openFor mode path) := by
  refine (stored_of_reads (reads_refuseDirectory path) path).after ?_ _
  refine (stored_of_reads (reads_locate path) path).bind_of_ok fun s target u h => ?_
  obtain ⟨rfl, hlocate⟩ := ok_of_locate h
  cases target with
  | present place entry =>
    cases entry with
    | directory => exact Std.Refl.refl _
    | file content =>
      cases mode.access with
      | create | extend | update | read => exact Std.Refl.refl _
      | replace => exact @Stored.file _ _ _ [] hlocate trivial
  | free place asDirectory =>
    cases mode.access with
    | read | update => exact Std.Refl.refl _
    | replace | extend | create =>
      by_cases hasked : asDirectory = true
      · simp only [if_pos hasked]
        exact Std.Refl.refl _
      · simp only [if_neg hasked]
        exact @Stored.file _ _ _ [] hlocate fun h => absurd h hasked

theorem exists_refuseWrite (mode : WriteMode) (data : Value) :
    ∃ f, refuseWrite mode data = system f := by
  unfold refuseWrite
  split <;> exact ⟨_, rfl⟩

theorem stored_putBytes {path : String} {place : Place} {old : List UInt8} {w : Workspace}
    (access : WriteMode.Access)
    (hlocate : w.tree.locate w.directory path = .ok (.present place (.file old)))
    (bytes : Except SystemFault (Nat × List UInt8)) :
    Stored path w (left (putBytes place access old bytes) w) := by
  cases bytes with
  | error f => exact Std.Refl.refl _
  | ok counted => exact @Stored.file _ _ _ (written access old counted.2) hlocate trivial

/-- To store a file, be it in vain, is to make directories and that file. -/
theorem stored_store (data : Value) (path mode encoding : String) :
    Keeps (Stored (Path.withSlashes path)) (store data path mode encoding) := by
  rw [store]
  dsimp only
  refine keeps_get.bind fun w => (stored_makeDirectoriesWithin _ _ _).after ?_ _
  refine (stored_of_reads (reads_note _) _).bind fun _ => ?_
  split
  · exact keeps_throw _
  rename_i m _
  refine (stored_openFor m _).bind_of_ok fun s opened u h => ?_
  obtain ⟨hlocate, -, -⟩ := ok_of_openFor h
  have hwritten := stored_putBytes m.access hlocate
    (dataBytes m ((Encoding.ofName? encoding).getD .utf8)
      (opened.2.isEmpty || decide (m.access = .update)) data)
  -- A file that was opened to be read is refused before anything is written.
  obtain ⟨f, hrefuse⟩ := exists_refuseWrite m data
  split
  · split
    · split
      · rw [hrefuse]
        exact Std.Refl.refl _
      · exact hwritten
    · exact Std.Refl.refl _
  · split
    · rw [hrefuse]
      exact Std.Refl.refl _
    · exact hwritten

theorem stored_storeText (text path : String) :
    Keeps (Stored (Path.withSlashes path)) (storeText text path) := (stored_store _ _ _ _).map _

theorem stored_storeBytes (data : List UInt8) (path : String) :
    Keeps (Stored (Path.withSlashes path)) (storeBytes data path) := (stored_store _ _ _ _).map _

end Run
end FirmwareKit
