import FirmwareKit.Files.Store
import FirmwareKit.Proofs.Files.Frame
import FirmwareKit.Proofs.Files.Walk
set_option autoImplicit false

namespace FirmwareKit

namespace Run

theorem unforeseen_get : Unforeseen (get : Run Workspace) := fails_get

theorem unforeseen_note (n : Note) : Unforeseen (note n) := fun _ _ _ h => nomatch h

theorem unforeseen_putEntry (p : Place) (e : FileTree.Entry) : Unforeseen (putEntry p e) :=
  fun _ _ _ h => nomatch h

theorem unforeseen_system {α : Type} {f : SystemFault} (h : f.className ≠ "AssertionError") :
    Unforeseen (system f : Run α) :=
  unforeseen_throw (isExpected_system h)

theorem unforeseen_locate (path : String) : Unforeseen (locate path) := by
  refine unforeseen_get.bind fun w => ?_
  split
  · exact unforeseen_system (by decide)
  · split
    · exact unforeseen_pure _
    · rename_i o _
      cases o <;> exact unforeseen_system (by simp [obstacle, SystemFault.className])

theorem unforeseen_makeDirectory (path : String) : Unforeseen (makeDirectory path) := by
  refine (unforeseen_locate path).bind fun target => ?_
  split
  · exact unforeseen_system (by simp [SystemFault.className])
  · exact unforeseen_putEntry _ _

/-- The faults of making directories are those of making each one. -/
theorem fails_makeDirectoriesWithin {P : Fault → Prop} {Q : String → Prop}
    (hmake : ∀ p, Q p → Fails P (makeDirectory p)) (hhead : ∀ p, Q p → Q (splitTail p).1)
    (depth : Nat) {path : String} (h : Q path) : Fails P (makeDirectoriesWithin depth path) := by
  induction depth generalizing path with
  | zero => exact fails_pure ()
  | succ depth ih =>
    rw [makeDirectoriesWithin]
    dsimp only
    refine fails_get.bind fun w => Fails.unless ?_ ?_ _ _
    · refine (ih (hhead path h)).tryCatch fun f hf => ?_
      split
      · exact fails_pure ()
      · exact fails_throw hf
    · refine (hmake path h).tryCatch fun f hf => fails_get.bind fun w => ?_
      split
      · exact fails_throw hf
      · split
        · exact fails_pure ()
        · exact fails_throw hf

theorem unforeseen_makeDirectories (path : String) : Unforeseen (makeDirectories path) :=
  fails_makeDirectoriesWithin (Q := fun _ => True) (fun p _ => unforeseen_makeDirectory p)
    (fun _ h => h) _ trivial

theorem unforeseen_refuseDirectory (path : String) : Unforeseen (refuseDirectory path) := by
  rw [refuseDirectory]
  split
  · exact unforeseen_pure ()
  · exact (unforeseen_locate _).bind fun _ => unforeseen_system (by simp [SystemFault.className])

theorem unforeseen_openFor (mode : WriteMode) (path : String) : Unforeseen (openFor mode path) := by
  have hemptied (place : Place) : Unforeseen (do
      putEntry place (.file [])
      pure (place, ([] : List UInt8)) : Run (Place × List UInt8)) :=
    (unforeseen_putEntry _ _).bind fun _ => unforeseen_pure _
  refine (unforeseen_refuseDirectory path).after ((unforeseen_locate path).bind fun target => ?_) _
  cases target with
  | present place entry =>
    cases entry with
    | directory =>
      dsimp only
      split <;> exact unforeseen_system (by simp [SystemFault.className])
    | file content =>
      cases mode.access with
      | create => exact unforeseen_system (by simp [SystemFault.className])
      | replace => exact hemptied place
      | extend | update | read => exact unforeseen_pure _
  | free place asDirectory =>
    have hmade : Unforeseen (if asDirectory = true then system (.isDirectory path)
        else do
          putEntry place (.file [])
          pure (place, ([] : List UInt8)) : Run (Place × List UInt8)) := by
      split
      · exact unforeseen_system (by simp [SystemFault.className])
      · exact hemptied place
    cases mode.access with
    | read | update => exact unforeseen_system (by simp [SystemFault.className])
    | replace | extend | create => exact hmade

theorem parse?_text : WriteMode.parse? "w" = some .text := by decide +kernel

theorem ofName?_utf8 : Encoding.ofName? "utf-8" = some .utf8 := by decide +kernel

theorem unforeseen_storeText (text path : String) : Unforeseen (storeText text path) := by
  refine Unforeseen.map ?_ _
  rw [store]
  dsimp only
  refine unforeseen_get.bind fun w => (unforeseen_makeDirectories _).after ?_ _
  refine (unforeseen_note _).bind fun _ => ?_
  rw [parse?_text]
  refine (unforeseen_openFor _ _).bind fun _ => ?_
  rw [ofName?_utf8]
  exact (unforeseen_putEntry _ _).bind fun _ => unforeseen_pure _

end Run

def Workspace.contentAt? (w : Workspace) (path : String) : Option (List UInt8) :=
  match w.tree.lookup? w.directory path with
  | some (_, .file content) => some content
  | _ => none

theorem Workspace.contentAt?_put_of_admits {w : Workspace} {path : String}
    {target : FileTree.Target} {new : List UInt8}
    (h : w.tree.locate w.directory path = .ok target) (hadmits : target.Admits (.file new)) :
    (w.withTree (w.tree.put target.place (.file new))).contentAt? path = some new := by
  rw [contentAt?, withTree, FileTree.lookup?, FileTree.locate_put h hadmits]

theorem Workspace.contentAt?_put {w : Workspace} {path : String} {place : Place}
    {old new : List UInt8}
    (h : w.tree.locate w.directory path = .ok (.present place (.file old))) :
    (w.withTree (w.tree.put place (.file new))).contentAt? path = some new :=
  contentAt?_put_of_admits h trivial

namespace Run

theorem hasNul_of_locate {path : String} {target : FileTree.Target} {w w' : Workspace}
    (h : locate path w = .ok target w') : FileTree.hasNul path = false := by
  obtain ⟨v, u, hget, h⟩ := ok_of_bind h
  cases hget
  split at h
  case isTrue => cases h
  case isFalse hnul => exact Bool.eq_false_iff.mpr hnul

/-- A file that has been opened is there, and it is empty when it was opened to be replaced. -/
theorem ok_of_openFor {mode : WriteMode} {path : String} {place : Place} {old : List UInt8}
    {w w' : Workspace} (h : openFor mode path w = .ok (place, old) w') :
    w'.tree.locate w'.directory path = .ok (.present place (.file old)) ∧
      FileTree.hasNul path = false ∧ (mode.access = .replace → old = []) := by
  rw [openFor] at h
  obtain ⟨u, h⟩ := ok_of_after h
  obtain ⟨target, v, hlocate, h⟩ := ok_of_bind h
  have hnul := hasNul_of_locate hlocate
  obtain ⟨rfl, hlocate⟩ := ok_of_locate hlocate
  cases target with
  | present p entry =>
    cases entry with
    | directory => cases h
    | file content =>
      cases haccess : mode.access with
      | create => simp only [haccess] at h; cases h
      | replace =>
        simp only [haccess] at h
        cases h
        exact ⟨FileTree.locate_put (x := .file []) hlocate trivial, hnul, fun _ => rfl⟩
      | extend | update | read =>
        simp only [haccess] at h
        cases h
        exact ⟨hlocate, hnul, nofun⟩
  | free p asDirectory =>
    have hmade {v' : Workspace} (h : (if asDirectory = true then system (.isDirectory path)
        else do
          putEntry p (.file [])
          pure (p, ([] : List UInt8)) : Run (Place × List UInt8)) v = .ok (place, old) v') :
        v'.tree.locate v'.directory path = .ok (.present place (.file old)) ∧ old = [] := by
      split at h
      case isTrue => cases h
      case isFalse hfile =>
        cases h
        exact ⟨FileTree.locate_put (x := .file []) hlocate fun hasked => absurd hasked hfile, rfl⟩
    cases haccess : mode.access with
    | read | update => simp only [haccess] at h; cases h
    | replace | extend | create =>
      simp only [haccess] at h
      obtain ⟨hpresent, hempty⟩ := hmade h
      exact ⟨hpresent, hnul, fun _ => hempty⟩

def putBytes (place : Place) (access : WriteMode.Access) (old : List UInt8) :
    Except SystemFault (Nat × List UInt8) → Run Nat
  | .error f => system f
  | .ok (count, bs) => do
    putEntry place (.file (written access old bs))
    pure count

/-- What replaces a file is what its path leads to. -/
theorem contentAt?_of_store {data : Value} {path mode : String} {m : WriteMode} {size count : Nat}
    {bytes : List UInt8} {w w' : Workspace} (hmode : WriteMode.parse? mode = some m)
    (hreplace : m.access = .replace) (hdata : dataBytes m .utf8 true data = .ok (size, bytes))
    (h : store data path mode "utf-8" w = .ok count w') :
    w'.contentAt? (Path.withSlashes path) = some bytes ∧
      FileTree.hasNul (Path.withSlashes path) = false := by
  rw [store] at h
  dsimp only at h
  obtain ⟨v, u, -, h⟩ := ok_of_bind h
  obtain ⟨v, h⟩ := ok_of_after h
  obtain ⟨-, v, -, h⟩ := ok_of_bind h
  rw [hmode] at h
  obtain ⟨⟨place, old⟩, v, hopen, h⟩ := ok_of_bind h
  obtain ⟨hlocate, hnul, hempty⟩ := ok_of_openFor hopen
  obtain rfl := hempty hreplace
  obtain ⟨access, binary⟩ := m
  obtain rfl : access = .replace := hreplace
  rw [ofName?_utf8] at h
  change putBytes place .replace [] (dataBytes ⟨.replace, binary⟩ .utf8 true data) v = _ at h
  rw [hdata] at h
  cases h
  exact ⟨Workspace.contentAt?_put hlocate, hnul⟩

theorem parse?_binary : WriteMode.parse? "wb" = some .bytes := by decide +kernel

theorem contentAt?_of_storeBytes {data : List UInt8} {path : String} {w w' : Workspace}
    (h : storeBytes data path w = .ok () w') :
    w'.contentAt? (Path.withSlashes path) = some data ∧
      FileTree.hasNul (Path.withSlashes path) = false := by
  obtain ⟨count, h, -⟩ := ok_of_map h
  exact contentAt?_of_store parse?_binary rfl rfl h

theorem contentAt?_of_storeText {text path : String} {w w' : Workspace}
    (h : storeText text path w = .ok () w') :
    w'.contentAt? (Path.withSlashes path) = some (Text.Utf8.encode text.toList) := by
  obtain ⟨count, h, -⟩ := ok_of_map h
  exact (contentAt?_of_store parse?_text rfl rfl h).1

end Run
end FirmwareKit
