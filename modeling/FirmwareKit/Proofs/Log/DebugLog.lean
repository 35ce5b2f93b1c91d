import FirmwareKit.Proofs.Files.Parents
import FirmwareKit.Proofs.Log.Handling
set_option autoImplicit false

namespace FirmwareKit
open Workspace (Stored Kept)

namespace Run
variable {path : String} {w w' : Workspace}

def Refusable {α : Type} (r : Run α) : Prop :=
  Fails (fun f => ∃ g, f = .system g ∧ Session.isRefusal g = true) r

theorem refusable_locate (hnul : FileTree.hasNul path = false) : Refusable (locate path) := by
  refine fails_get.bind fun w => ?_
  rw [hnul, if_neg Bool.false_ne_true]
  split
  · exact fails_pure _
  · rename_i o _
    exact fails_throw ⟨obstacle path o, rfl, by cases o <;> rfl⟩

theorem refusable_makeDirectory (hnul : FileTree.hasNul path = false) :
    Refusable (makeDirectory path) := by
  refine (refusable_locate hnul).bind fun target => ?_
  split
  · exact fails_throw ⟨_, rfl, rfl⟩
  · exact fun _ _ _ h => nomatch h

theorem refusable_makeDirectories (hnul : FileTree.hasNul path = false) :
    Refusable (makeDirectories path) :=
  fails_makeDirectoriesWithin (Q := fun p => FileTree.hasNul p = false)
    (fun _ h => refusable_makeDirectory h) (fun _ h => hasNul_splitTail h) _ hnul

theorem refusable_openLog (hnul : FileTree.hasNul path = false) : Refusable (openLog path) := by
  refine (refusable_locate hnul).bind fun target => ?_
  split
  · exact fails_pure _
  · exact fails_throw ⟨_, rfl, rfl⟩
  · split
    · exact fails_throw ⟨_, rfl, rfl⟩
    · exact fun _ _ _ h => nomatch h

theorem stored_openLog (path : String) : Keeps (Stored path) (openLog path) := by
  refine (stored_of_reads (reads_locate path) path).bind_of_ok fun s target u h => ?_
  obtain ⟨rfl, hlocate⟩ := ok_of_locate h
  split
  · exact Std.Refl.refl _
  · exact Std.Refl.refl _
  · split
    · exact Std.Refl.refl _
    case isFalse hasked => exact @Stored.file _ _ _ [] hlocate fun h => absurd h hasked

/-- A log that has been opened is there. -/
theorem isSome_of_openLog {place : Place} (h : openLog path w = .ok place w') :
    (w'.contentAt? path).isSome = true := by
  obtain ⟨target, u, hfound, h⟩ := ok_of_bind h
  obtain ⟨rfl, hlocate⟩ := ok_of_locate hfound
  cases target with
  | present place entry =>
    cases entry with
    | directory => cases h
    | file content =>
      cases h
      rw [Workspace.contentAt?, FileTree.lookup?_eq_some_iff.mpr hlocate]
      rfl
  | free place asDirectory =>
    dsimp only at h
    split at h
    case isTrue => cases h
    case isFalse hasked =>
      cases h
      have hadmits : (FileTree.Target.free place asDirectory).Admits (.file []) :=
        fun h => absurd h hasked
      exact Option.isSome_of_eq_some (Workspace.contentAt?_put_of_admits hlocate hadmits)

end Run

def Workspace.absolutePath (w : Workspace) (path : String) : String :=
  Path.absolute w.directoryPath path

namespace Session
variable {path : String} {s s' : Session} {w w' : Workspace} {i : Installation}

theorem hasNul_absolutePath (hpath : FileTree.hasNul path = false)
    (hdirectory : FileTree.hasNul w.directoryPath = false) :
    FileTree.hasNul (w.absolutePath path) = false := by
  rw [FileTree.hasNul, List.contains_eq_mem, decide_eq_false_iff_not] at hpath hdirectory ⊢
  rw [Workspace.absolutePath, Path.absolute]
  refine Path.not_mem_normalize (by decide) (by decide) ?_
  split
  case isTrue => exact hpath
  case isFalse hrelative =>
    rw [Path.join_eq _ (Bool.eq_false_iff.mpr hrelative), String.toList_append, List.mem_append, not_or]
    refine ⟨?_, hpath⟩
    rw [Path.stem]
    split
    · exact hdirectory
    · simpa using hdirectory

theorem absolutePath_of_directory (h : w'.directory = w.directory) (path : String) :
    w'.absolutePath path = w.absolutePath path := by
  rw [Workspace.absolutePath, Workspace.absolutePath, Workspace.directoryPath,
    Workspace.directoryPath, h]

def openingRun (path whole : String) : Run (Except SystemFault LogFile) := do
  Run.makeDirectories (Path.parent path)
  let place ← Run.openLog whole
  pure (.ok ⟨whole, .standing place⟩)

theorem isSome_of_openingRun {whole : String} {e : Except SystemFault LogFile}
    (h : openingRun path whole w = .ok e w') :
    (∃ log, e = .ok log ∧ log.path = whole) ∧ (w'.contentAt? whole).isSome = true := by
  obtain ⟨-, u, -, h⟩ := ok_of_bind h
  obtain ⟨_, v, hopen, h⟩ := ok_of_bind h
  cases h
  exact ⟨⟨_, rfl, rfl⟩, Run.isSome_of_openLog hopen⟩

theorem openDebugLog_of_ok {u : Workspace} {e : Except SystemFault LogFile}
    (h : openingRun path (w.absolutePath path) w = .ok e u) : openDebugLog path w = .ok e u :=
  (get_bind _ w).trans (tryCatch_of_ok h)

/-- A log is opened or refused; no fault comes out of that. -/
theorem reaches_openDebugLog (hpath : FileTree.hasNul path = false)
    (hwhole : FileTree.hasNul (w.absolutePath path) = false) :
    Reaches (openDebugLog path) w fun e u => Stored (w.absolutePath path) w u ∧
      ∀ log, e = .ok log → log.path = w.absolutePath path ∧
        (u.contentAt? (w.absolutePath path)).isSome = true := by
  have hstored : Keeps (Stored (w.absolutePath path)) (openingRun path (w.absolutePath path)) :=
    (Run.stored_makeDirectoriesWithin _ _ _).bind fun _ =>
      (Run.stored_openLog _).bind fun _ => keeps_pure _
  have hrefusable : Run.Refusable (openingRun path (w.absolutePath path)) :=
    (Run.refusable_makeDirectories (FileTree.hasNul_parent hpath)).bind fun _ =>
      (Run.refusable_openLog hwhole).bind fun _ => fails_pure _
  cases hrun : openingRun path (w.absolutePath path) w with
  | ok e u =>
    obtain ⟨⟨log, rfl, hlog⟩, hthere⟩ := isSome_of_openingRun hrun
    refine ⟨_, u, openDebugLog_of_ok hrun, hstored.of_ok hrun, fun log' h => ⟨?_, hthere⟩⟩
    cases h
    exact hlog
  | error f u =>
    obtain ⟨g, rfl, hrefused⟩ := hrefusable w f u hrun
    refine ⟨.error g, u, ?_, hstored.of_error hrun, fun p h => by cases h⟩
    refine (get_bind _ w).trans ((tryCatch_of_error hrun).trans ?_)
    dsimp only
    rw [if_pos hrefused]
    rfl

/-- A log that is there is opened again, as long as its directory is there. -/
theorem openDebugLog_of_content {content : List UInt8}
    (hwhole : FileTree.hasNul (w.absolutePath path) = false)
    (hdirectory : w.tree.hasDirectory w.directory (Path.parent path) = true)
    (hcontent : w.contentAt? (w.absolutePath path) = some content) :
    ∃ log, openDebugLog path w = .ok (.ok log) w := by
  refine ⟨⟨w.absolutePath path, .standing (w.destination (w.absolutePath path))⟩,
    openDebugLog_of_ok ?_⟩
  rw [openingRun, bind_of_ok (Run.makeDirectories_of_directory hdirectory),
    bind_of_ok (LogFile.openLog_of_content hwhole hcontent)]
  rfl

def files (s : Session) : List String := Handler.files s.handlers

theorem files_add (s : Session) (h : Handler) : (s.add h).files = s.files ++ h.file?.toList := by
  rw [files, add, Handler.files, List.filterMap_append, files, Handler.files]
  cases hfile : h.file? <;> simp [hfile]

theorem hasLog_iff : s.hasLog path = true ↔ path ∈ s.files := by
  rw [hasLog, List.any_eq_true, files, Handler.files, List.mem_filterMap]
  refine exists_congr fun h => and_congr_right fun _ => ?_
  rw [Handler.file?]
  cases h.sink with
  | stream => exact iff_of_false Bool.false_ne_true (Option.some_ne_none path).symm
  | file f =>
    dsimp only
    rw [beq_iff_eq, Option.some_inj]

structure IsLogPath (path : String) : Prop where
  no_nul : FileTree.hasNul path = false
  no_up : ".." ∉ Path.parts path

theorem isLogPath_absolutePath (hpath : FileTree.hasNul path = false)
    (hdirectory : FileTree.hasNul w.directoryPath = false) : IsLogPath (w.absolutePath path) where
  no_nul := hasNul_absolutePath hpath hdirectory
  no_up := Path.up_not_mem_parts_absolute w.isAbsolute_directoryPath path

theorem reaches_handle (hlog : IsLogPath path) (hopen : w.IsOpen path s.files) (r : Record) :
    Reaches (s.handle r) w fun s' w' => s'.files = s.files ∧ w.Taken path r s.files.length w' ∧
      (s.files = [] → w' = w) := by
  refine (Handler.reaches_handle hlog.no_nul hlog.no_up hopen [] r).bind fun e w' h => ?_
  exact reaches_pure h

theorem reaches_say (hlog : IsLogPath path) (hopen : w.IsOpen path s.files) (level : Level)
    (message : String) :
    Reaches (s.say level message) w fun s' w' => s'.files = s.files ∧ w.Kept path w' :=
  (reaches_handle hlog hopen _).mono fun _ _ h => ⟨h.1, h.2.1.kept⟩

theorem reaches_sayAll (hlog : IsLogPath path) (hopen : w.IsOpen path s.files) (level : Level)
    (messages : List String) :
    Reaches (s.sayAll level messages) w fun s' w' => s'.files = s.files ∧ w.Kept path w' := by
  induction messages generalizing s w with
  | nil => exact reaches_pure ⟨rfl, .refl path w⟩
  | cons m rest ih =>
    refine (reaches_say hlog hopen level m).bind fun t u ⟨hfiles, hkept⟩ => ?_
    refine (ih (hfiles ▸ hopen.kept hkept)).mono fun s' w' ⟨hfiles', hkept'⟩ => ?_
    exact ⟨hfiles'.trans hfiles, hkept.trans hkept'⟩

/-- What an installation does about the debug log that it asks for, by the log files before and
after it. -/
inductive Installed (files : List String) (w : Workspace) (files' : List String) (w' : Workspace) :
    Option String → Prop
  | unasked (hfiles : files' = files) (hsame : w' = w) : Installed files w files' w' none
  | there {path : String} (hlog : path ∈ files) (hfiles : files' = files) (hsame : w' = w) :
      Installed files w files' w' (some path)
  | added {path : String} {log : LogFile} {u : Workspace} (hlog : path ∉ files)
      (hrun : openDebugLog path w = .ok (.ok log) u) (hstored : Stored (w.absolutePath path) w u)
      (hthere : (u.contentAt? (w.absolutePath path)).isSome = true)
      (hfiles : files' = files ++ [w.absolutePath path])
      (hkept : u.Kept (w.absolutePath path) w') : Installed files w files' w' (some path)
  | refused {path : String} {u : Workspace} {f : SystemFault} (hlog : path ∉ files)
      (hrun : openDebugLog path w = .ok (.error f) u) (hstored : Stored (w.absolutePath path) w u)
      (hfiles : files' = files) (hkept : u.Kept (w.absolutePath path) w') :
      Installed files w files' w' (some path)

theorem reaches_installDebugLog (hpath : FileTree.hasNul path = false)
    (hwhole : IsLogPath (w.absolutePath path)) (hopen : w.IsOpen (w.absolutePath path) s.files)
    (date : String) (on : Surroundings) : Reaches (s.installDebugLog path date on) w
      fun s' w' => Installed s.files w s'.files w' (some path) := by
  rw [installDebugLog]
  by_cases hlog : s.hasLog path = true
  · rw [if_pos hlog]
    exact reaches_pure (.there (hasLog_iff.mp hlog) rfl rfl)
  rw [if_neg hlog]
  have hnot : path ∉ s.files := fun hmem => hlog (hasLog_iff.mpr hmem)
  obtain ⟨e, u, hrun, hstored, hopened⟩ := reaches_openDebugLog hpath hwhole.no_nul
  have hopenu : u.IsOpen (w.absolutePath path) s.files := fun p hp =>
    ⟨(hopen p hp).1, hstored.isSome_contentAt? (hopen p hp).2⟩
  rw [Reaches, bind_of_ok hrun]
  cases e with
  | error f =>
    refine (reaches_say hwhole hopenu .warning _).mono fun s' w' hsaid => ?_
    exact .refused hnot hrun hstored hsaid.1 hsaid.2
  | ok log =>
    obtain ⟨hsame, hthere⟩ := hopened log rfl
    have hadded : (s.add ⟨Level.debug.number, false, .file log⟩).files =
        s.files ++ [w.absolutePath path] := by
      rw [files_add, ← hsame]
      rfl
    have hopenu' : u.IsOpen (w.absolutePath path) (s.files ++ [w.absolutePath path]) := by
      rw [Workspace.IsOpen, List.forall_mem_append, List.forall_mem_singleton]
      exact ⟨hopenu, rfl, hthere⟩
    refine (reaches_sayAll hwhole (hadded ▸ hopenu') .debug (banner date on)).mono
      fun s' w' hsaid => ?_
    exact .added hnot hrun hstored hthere (hsaid.1.trans hadded) hsaid.2

/-- An installation ends well, and does one of four things about the log. -/
theorem reaches_install (hpath : FileTree.hasNul path = false)
    (hwhole : IsLogPath (w.absolutePath path)) (hopen : w.IsOpen (w.absolutePath path) s.files)
    (hasked : ∀ p, i.debugLog = some p → p = path) (date : String) : Reaches (s.install i date) w
      fun s' w' => Installed s.files w s'.files w' i.debugLog := by
  let t : Session := ({ s with level := Level.debug.number } : Session).add
    ⟨if i.level = 0 then defaultLevel else i.level, isColored i, .stream ""⟩
  have ht : t.files = s.files := by
    rw [files_add]
    exact List.append_nil _
  cases hlog : i.debugLog with
  | none =>
    refine ⟨t, w, ?_, .unasked ht rfl⟩
    rw [install, hlog]
    rfl
  | some p =>
    obtain rfl := hasked p hlog
    have hinstall : s.install i date w = t.installDebugLog p date i.surroundings w := by
      rw [install, hlog]
    rw [Reaches, hinstall, ← ht]
    exact reaches_installDebugLog hpath hwhole (ht ▸ hopen) date i.surroundings

end Session
end FirmwareKit
