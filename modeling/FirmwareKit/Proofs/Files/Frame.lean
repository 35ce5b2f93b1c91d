import FirmwareKit.Config.Loading
import FirmwareKit.Log.Reported
import FirmwareKit.Proofs.Runs
set_option autoImplicit false

namespace FirmwareKit

structure Workspace.SameFiles (w w' : Workspace) : Prop where
  tree : w'.tree = w.tree
  directory : w'.directory = w.directory

instance : Std.Refl Workspace.SameFiles := ⟨fun _ => ⟨rfl, rfl⟩⟩

instance : Trans Workspace.SameFiles Workspace.SameFiles Workspace.SameFiles :=
  ⟨fun h h' => ⟨h'.tree.trans h.tree, h'.directory.trans h.directory⟩⟩

/-- A search only looks at the files. -/
theorem Search.find?_congr {w w' : Workspace} (h : w.SameFiles w') (kind : Sought) (s : Search)
    (path : String) : s.find? w' kind path = s.find? w kind path := by
  obtain ⟨htree, hdirectory⟩ := h
  have hthere : isThere w' kind = isThere w kind := by
    funext p
    cases kind <;> simp only [isThere, htree, hdirectory]
  rw [find?, find?, candidates, candidates, hthere, Workspace.directoryPath,
    Workspace.directoryPath, hdirectory]

namespace Run
variable {α : Type}

def Reads (r : Run α) : Prop := Keeps Workspace.SameFiles r

theorem reads_note (n : Note) : Reads (note n) := fun _ => ⟨rfl, rfl⟩

theorem reads_ofExcept (e : Except Fault α) : Reads (ofExcept e) := by
  cases e with
  | error f => exact keeps_throw f
  | ok a => exact keeps_pure a

theorem reads_fail (f : Fault) : Reads (fail f : Run α) := reads_ofExcept _

theorem reads_system (f : SystemFault) : Reads (system f : Run α) := keeps_throw _

theorem reads_locate (path : String) : Reads (locate path) := by
  refine keeps_get.bind fun w => ?_
  split
  · exact reads_system _
  · split
    · exact keeps_pure _
    · exact reads_system _

theorem ok_of_locate {path : String} {target : FileTree.Target} {w w' : Workspace}
    (h : locate path w = .ok target w') :
    w' = w ∧ w.tree.locate w.directory path = .ok target := by
  obtain ⟨v, u, hget, h⟩ := ok_of_bind h
  cases hget
  split at h
  · cases h
  · cases hlocate : w.tree.locate w.directory path with
    | ok found =>
      rw [hlocate] at h
      cases h
      exact ⟨rfl, rfl⟩
    | error o =>
      rw [hlocate] at h
      cases h

theorem reads_readBytes (path : String) : Reads (readBytes path) := by
  refine (reads_locate path).bind fun target => ?_
  split
  · exact keeps_pure _
  · exact reads_system _
  · exact reads_system _

theorem reads_readText (path : String) : Reads (readText path) := by
  refine (reads_readBytes path).bind fun content => ?_
  split
  · exact keeps_pure _
  · exact reads_system _

theorem reads_find (kind : Sought) (s : Search) (path : String) : Reads (find kind s path) := by
  refine keeps_get.bind fun w => ?_
  split
  · exact keeps_pure _
  · exact keeps_throw _

theorem reads_find? (kind : Sought) (s : Search) (path : String) : Reads (find? kind s path) := by
  refine keeps_get.bind fun w => ?_
  split
  · exact keeps_pure _
  · split
    · exact keeps_pure _
    · exact (reads_note _).bind fun _ => keeps_pure _

theorem reads_loadBytes (s : Search) (path : String) : Reads (loadBytes s path) :=
  (reads_find _ s path).bind fun _ => (reads_note _).bind fun _ => reads_readBytes _

theorem reads_loadText (s : Search) (path : String) : Reads (loadText s path) :=
  (reads_find _ s path).bind fun _ => (reads_note _).bind fun _ => reads_readText _

theorem reads_loadEntries (s : Search) (path : String) : Reads (loadEntries s path) :=
  keeps_get.bind fun _ =>
    ((reads_loadText s path).tryCatch fun _ => keeps_throw _).bind fun _ => reads_ofExcept _

theorem reads_normalize (entries : Value.Entries) (model : Value) :
    Reads (normalize entries model) :=
  (reads_ofExcept _).bind fun _ => (reads_note _).bind fun _ => keeps_pure _

theorem reads_emit (layout : Layout) (constants : Value.Entries) (romStart romLength : Value)
    (date : String) : Reads (emit layout constants romStart romLength date) :=
  (reads_ofExcept _).bind fun _ => (reads_note _).bind fun _ => reads_ofExcept _

theorem reads_embed (program date : String) (arrays : List Embed.ByteArray) :
    Reads (embed program date arrays) :=
  (Keeps.forM (fun _ => reads_note _) _).bind fun _ => reads_ofExcept _

end Run
end FirmwareKit
