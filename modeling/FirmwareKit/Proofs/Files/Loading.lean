import FirmwareKit.Proofs.Files.Apart
set_option autoImplicit false

namespace FirmwareKit
variable {w w' : Workspace} {path : String} {data : List UInt8}

namespace Workspace

def Loads (w : Workspace) (path : String) (data : List UInt8) : Prop :=
  ∃ u, Run.loadBytes Search.here path w = .ok data u

theorem contentAt?_congr (h : w.SameFiles w') (path : String) :
    w'.contentAt? path = w.contentAt? path := by
  rw [contentAt?, contentAt?, h.tree, h.directory]

/-- The stored file is there from the first time on. -/
theorem Stored.isSome_contentAt? (h : Stored path w w')
    (hthere : (w.contentAt? path).isSome = true) : (w'.contentAt? path).isSome = true := by
  induction h with
  | same h => rwa [contentAt?_congr h]
  | @directory w other place asDirectory hlocate =>
    obtain ⟨content, hcontent⟩ := Option.isSome_iff_exists.mp hthere
    have hfree : w.tree.entry? place = none := (FileTree.way_of_locate hlocate).2.found
    have hentry := entry?_of_contentAt? hcontent
    have hne : w.destination path ≠ place := by
      rintro rfl
      cases hfree.symm.trans hentry
    have hmade : Stored path w (w.withTree (w.tree.put place .directory)) := .directory hlocate
    have hkept : (w.withTree (w.tree.put place .directory)).contentAt? path = some content :=
      contentAt?_of_entry hmade.directory_eq hmade.directories hcontent
        ((FileTree.entry?_put_of_ne hne _).trans hentry)
    rw [hkept]
    rfl
  | file hlocate =>
    obtain ⟨content, hcontent⟩ := Option.isSome_iff_exists.mp hthere
    cases hlocate.symm.trans (contentAt?_eq_some_iff.mp hcontent)
    rw [FileTree.Target.place, contentAt?_put (contentAt?_eq_some_iff.mp hcontent)]
    rfl
  | trans _ _ ih ih' => exact ih' (ih hthere)

end Workspace

namespace Search

theorem isThere_of_contentAt? (hcontent : w.contentAt? path = some data)
    (hnul : FileTree.hasNul path = false) : isThere w .file path = true := by
  rw [isThere, FileTree.hasFile, hnul, FileTree.lookup?, Workspace.contentAt?_eq_some_iff.mp hcontent]
  rfl

end Search

namespace Run

theorem locate_eq (path : String) (w : Workspace) : locate path w =
    (if FileTree.hasNul path then system .nulCharacter
      else match w.tree.locate w.directory path with
        | .ok target => pure target
        | .error o => system (obstacle path o) : Run FileTree.Target) w := rfl

theorem locate_of_ok {target : FileTree.Target} (hnul : FileTree.hasNul path = false)
    (h : w.tree.locate w.directory path = .ok target) : locate path w = .ok target w := by
  rw [locate_eq, hnul, h]
  rfl

theorem locate_of_contentAt? (hnul : FileTree.hasNul path = false)
    (hcontent : w.contentAt? path = some data) :
    locate path w = .ok (.present (w.destination path) (.file data)) w :=
  locate_of_ok hnul (Workspace.contentAt?_eq_some_iff.mp hcontent)

theorem find_eq (s : Search) (kind : Sought) (path : String) (w : Workspace) : find kind s path w =
    (match s.find? w kind path with
      | some p => pure p
      | none => throw (s.failure w path) : Run String) w := rfl

theorem readBytes_eq_ok_iff :
    readBytes path w = .ok data w' ↔
      FileTree.hasNul path = false ∧ w.contentAt? path = some data ∧ w' = w := by
  constructor
  · intro h
    obtain ⟨target, u, hlocate, h⟩ := ok_of_bind h
    have hnul := hasNul_of_locate hlocate
    obtain ⟨rfl, hlocate⟩ := ok_of_locate hlocate
    cases target with
    | free => cases h
    | present place entry =>
      cases entry with
      | directory => cases h
      | file content =>
        cases h
        refine ⟨hnul, Workspace.contentAt?_eq_some_iff.mpr ?_, rfl⟩
        rw [← Workspace.place_of_locate hlocate]
        exact hlocate
  · rintro ⟨hnul, hcontent, rfl⟩
    rw [readBytes, bind_of_ok (locate_of_contentAt? hnul hcontent)]
    rfl

theorem ok_of_loadBytes {s : Search} (h : loadBytes s path w = .ok data w') :
    ∃ p, s.find? w .file path = some p ∧ FileTree.hasNul p = false ∧ w.contentAt? p = some data := by
  obtain ⟨p, u, hfind, h⟩ := ok_of_bind h
  obtain ⟨v, u', hget, hfind⟩ := ok_of_bind hfind
  cases hget
  cases hfound : s.find? w .file path with
  | none =>
    rw [hfound] at hfind
    cases hfind
  | some q =>
    rw [hfound] at hfind
    cases hfind
    obtain ⟨_, u', hnote, h⟩ := ok_of_bind h
    cases hnote
    obtain ⟨hnul, hcontent, -⟩ := readBytes_eq_ok_iff.mp h
    exact ⟨p, rfl, hnul, hcontent⟩

theorem exists_loadBytes {s : Search} {p : String} (hfind : s.find? w .file path = some p)
    (hnul : FileTree.hasNul p = false) (hcontent : w.contentAt? p = some data) :
    ∃ u, loadBytes s path w = .ok data u := by
  have hfound : find .file s path w = .ok p w := by
    rw [find_eq, hfind]
    rfl
  rw [loadBytes, bind_of_ok hfound]
  exact ⟨_, readBytes_eq_ok_iff.mpr ⟨hnul, hcontent, rfl⟩⟩

end Run

theorem Workspace.loads_iff :
    w.Loads path data ↔ ∃ p, Search.here.find? w .file path = some p ∧
      FileTree.hasNul p = false ∧ w.contentAt? p = some data :=
  ⟨fun ⟨_, h⟩ => Run.ok_of_loadBytes h, fun ⟨_, hfind, hnul, hcontent⟩ =>
    Run.exists_loadBytes hfind hnul hcontent⟩

theorem Workspace.loads_congr (h : w.SameFiles w') : w'.Loads path data ↔ w.Loads path data := by
  simp only [loads_iff, Search.find?_congr h, contentAt?_congr h]

end FirmwareKit
