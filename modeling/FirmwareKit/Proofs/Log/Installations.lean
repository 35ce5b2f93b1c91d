import FirmwareKit.Proofs.Ending
import FirmwareKit.Proofs.Log.DebugLog
set_option autoImplicit false

/-!
# Installations one after the other

What holds of a session after any calls: its log files are one file, and there is one handler for it
or one for each installation, by how the path of the log was written.
-/
namespace FirmwareKit.Session
open Workspace (Stored Kept)

inductive Call where
  | install (i : Installation) (date : String)
  | log (r : Record)

def Call.perform (s : Session) : Call → Run Session
  | .install i date => s.install i date
  | .log r => s.handle r

def Call.asked? : Call → Option String
  | .install i _ => i.debugLog
  | .log _ => none

def run (s : Session) (calls : List Call) : Run Session := calls.foldlM Call.perform s

def asked (calls : List Call) : List String := calls.filterMap Call.asked?

/-- The directory of a debug log can be made and the log be opened. -/
def Openable (path : String) (w : Workspace) : Prop :=
  ∃ log u, openDebugLog path w = .ok (.ok log) u

/-- A debug log can be opened, and be opened again after it has been put aside. -/
-- To make `a/../f/.` may end well where `f` is a file; so it is said that the directory is there.
-- It must not be moved either, as `f.1/..` would be when a log `f` is put aside.
def Reopenable (path : String) (w : Workspace) : Prop :=
  ∃ log u, openDebugLog path w = .ok (.ok log) u ∧
    u.tree.hasDirectory u.directory (Path.parent path) = true ∧ u.IsClear (w.absolutePath path)

/-- How things stand after `n` calls that have asked for a debug log. -/
structure Sound (path : String) (before : Workspace) (n : Nat) (s : Session) (w : Workspace) :
    Prop where
  directory : w.directory = before.directory
  isOpen : w.IsOpen (before.absolutePath path) s.files
  once : before.absolutePath path = path → s.files.length ≤ 1
  first : n = 0 → s.files = [] ∧ w = before
  opened : Openable path before → n ≠ 0 → s.files ≠ []
  later : Reopenable path before → n ≠ 0 →
    w.tree.hasDirectory w.directory (Path.parent path) = true ∧
      (w.contentAt? (before.absolutePath path)).isSome = true ∧
      w.IsClear (before.absolutePath path) ∧
      (before.absolutePath path ≠ path → s.files.length = n)

variable {path : String} {s s' : Session} {w w' before : Workspace} {n : Nat} {c : Call}
  {calls : List Call}

theorem sound_fresh (name : String) (before : Workspace) (path : String) :
    Sound path before 0 (fresh name) before where
  directory := rfl
  isOpen := List.forall_mem_nil _
  once _ := Nat.zero_le 1
  first _ := ⟨rfl, rfl⟩
  opened _ h := absurd rfl h
  later _ h := absurd rfl h

/-- A directory stays where a log is put aside, unless one stands in the way. -/
theorem hasDirectory_of_kept {log other : String} (h : w.Kept log w') (hclear : w.IsClear log)
    (hdirectory : w.tree.hasDirectory w.directory other = true) :
    w'.tree.hasDirectory w'.directory other = true := by
  obtain ⟨hnul, q, hlocate⟩ := FileTree.hasDirectory_iff.mp hdirectory
  obtain ⟨hpath, hway⟩ := FileTree.way_of_locate hlocate
  rw [h.directory]
  exact FileTree.hasDirectory_iff.mpr ⟨hnul, q, FileTree.locate_of_way hpath
    (hway.directory_of_directories fun p => (h.directories hclear p).mpr)⟩

/-- The handlers stay, and whatever happens to the files comes from them. -/
theorem Sound.kept (h : Sound path before n s w) (hfiles : s'.files = s.files)
    (hkept : w.Kept (before.absolutePath path) w') (hnone : s.files = [] → w' = w) :
    Sound path before n s' w' where
  directory := hkept.directory.trans h.directory
  isOpen := hfiles ▸ h.isOpen.kept hkept
  once := hfiles ▸ h.once
  first hn := by
    obtain ⟨hempty, hsame⟩ := h.first hn
    exact ⟨hfiles.trans hempty, (hnone hempty).trans hsame⟩
  opened := hfiles ▸ h.opened
  later hreopenable hn := by
    obtain ⟨hdirectory, hthere, hclear, hlength⟩ := h.later hreopenable hn
    exact ⟨hasDirectory_of_kept hkept hclear hdirectory, hkept.there hthere, hkept.isClear hclear,
      hfiles ▸ hlength⟩

theorem Sound.log (h : Sound path before n s w) (hwhole : IsLogPath (before.absolutePath path))
    (r : Record) : Reaches (s.handle r) w fun s' w' => Sound path before n s' w' :=
  (reaches_handle hwhole h.isOpen r).mono fun _ _ ⟨hfiles, htaken, hnone⟩ =>
    h.kept hfiles htaken.kept hnone

/-- The log is there already, found by the path that was given. -/
theorem Sound.there (h : Sound path before n s w) (hlog : path ∈ s.files)
    (hfiles : s'.files = s.files) : Sound path before (n + 1) s' w := by
  have hsame : path = before.absolutePath path := (h.isOpen path hlog).1
  have hn : n ≠ 0 := by
    intro hn
    rw [(h.first hn).1] at hlog
    cases hlog
  refine ⟨h.directory, hfiles ▸ h.isOpen, hfiles ▸ h.once, nofun, fun _ _ hempty => ?_,
    fun hreopenable _ => ?_⟩
  · rw [← hfiles, hempty] at hlog
    cases hlog
  · obtain ⟨hdirectory, hthere, hclear, -⟩ := h.later hreopenable hn
    exact ⟨hdirectory, hthere, hclear, fun hother => absurd hsame.symm hother⟩

/-- A log that is opened once more is found as it was left. -/
theorem Sound.unchanged {u : Workspace} {e : Except SystemFault LogFile}
    (h : Sound path before n s w) (hwhole : IsLogPath (before.absolutePath path)) (hn : n ≠ 0)
    (hreopenable : Reopenable path before) (hrun : openDebugLog path w = .ok e u) :
    u = w ∧ ∃ log, e = .ok log := by
  obtain ⟨hdirectory, hthere, -⟩ := h.later hreopenable hn
  obtain ⟨content, hcontent⟩ := Option.isSome_iff_exists.mp hthere
  have hnul := hwhole.no_nul
  rw [← absolutePath_of_directory h.directory path] at hnul hcontent
  obtain ⟨log, hopen⟩ := openDebugLog_of_content hnul hdirectory hcontent
  obtain ⟨rfl, rfl⟩ := EStateM.Result.ok.inj (hrun.symm.trans hopen)
  exact ⟨rfl, log, rfl⟩

theorem Sound.added {u : Workspace} {log : LogFile} (h : Sound path before n s w)
    (hwhole : IsLogPath (before.absolutePath path)) (hlog : path ∉ s.files)
    (hrun : openDebugLog path w = .ok (.ok log) u)
    (hstored : Stored (before.absolutePath path) w u)
    (hthere : (u.contentAt? (before.absolutePath path)).isSome = true)
    (hfiles : s'.files = s.files ++ [before.absolutePath path])
    (hkept : u.Kept (before.absolutePath path) w') : Sound path before (n + 1) s' w' := by
  have hthere' := hkept.there hthere
  -- A handler of the log would have been found, had the path been given as it is opened.
  have hnone (hsame : before.absolutePath path = path) : s.files = [] :=
    List.eq_nil_iff_forall_not_mem.mpr fun p hp => hlog ((h.isOpen p hp).1.trans hsame ▸ hp)
  have hlength : s'.files.length = s.files.length + 1 := by rw [hfiles, List.length_append]; rfl
  have hlonger : s'.files ≠ [] := List.ne_nil_of_length_eq_add_one hlength
  refine ⟨(hkept.directory.trans hstored.directory_eq).trans h.directory, ?_, ?_, nofun,
    fun _ _ => hlonger, fun hreopenable _ => ?_⟩
  · rw [hfiles, Workspace.IsOpen, List.forall_mem_append, List.forall_mem_singleton]
    exact ⟨fun p hp => ⟨(h.isOpen p hp).1, hthere'⟩, rfl, hthere'⟩
  · intro hsame
    rw [hlength, hnone hsame]
    exact Nat.le_refl 1
  · by_cases hn : n = 0
    · obtain ⟨hempty, rfl⟩ := h.first hn
      obtain ⟨log', u', hrun', hdirectory, hclear⟩ := hreopenable
      obtain ⟨-, rfl⟩ := EStateM.Result.ok.inj (hrun.symm.trans hrun')
      refine ⟨hasDirectory_of_kept hkept hclear hdirectory, hthere', hkept.isClear hclear,
        fun _ => ?_⟩
      rw [hlength, hempty, hn]
      rfl
    · obtain ⟨rfl, -⟩ := h.unchanged hwhole hn hreopenable hrun
      obtain ⟨hdirectory, -, hclear, hcount⟩ := h.later hreopenable hn
      refine ⟨hasDirectory_of_kept hkept hclear hdirectory, hthere', hkept.isClear hclear,
        fun hother => ?_⟩
      rw [hlength, hcount hother]

/-- A log that is refused cannot be opened at first either. -/
theorem Sound.refused {u : Workspace} {f : SystemFault} (h : Sound path before n s w)
    (hwhole : IsLogPath (before.absolutePath path))
    (hrun : openDebugLog path w = .ok (.error f) u) (hstored : Stored (before.absolutePath path) w u)
    (hfiles : s'.files = s.files) (hkept : u.Kept (before.absolutePath path) w') :
    Sound path before (n + 1) s' w' := by
  have hnone : n = 0 → ∀ log u', openDebugLog path before ≠ .ok (.ok log) u' := by
    intro hn log u' hrun'
    obtain ⟨-, rfl⟩ := h.first hn
    cases hrun.symm.trans hrun'
  refine ⟨(hkept.directory.trans hstored.directory_eq).trans h.directory, ?_, hfiles ▸ h.once, nofun,
    fun hopenable _ => ?_, fun hreopenable _ => ?_⟩
  · rw [hfiles]
    exact fun p hp => ⟨(h.isOpen p hp).1,
      hkept.there (hstored.isSome_contentAt? (h.isOpen p hp).2)⟩
  · by_cases hn : n = 0
    · obtain ⟨log, u', hrun'⟩ := hopenable
      exact absurd hrun' (hnone hn log u')
    · exact hfiles ▸ h.opened hopenable hn
  · by_cases hn : n = 0
    · obtain ⟨log, u', hrun', -⟩ := hreopenable
      exact absurd hrun' (hnone hn log u')
    · obtain ⟨-, log, hlog⟩ := h.unchanged hwhole hn hreopenable hrun
      cases hlog

theorem Sound.install (h : Sound path before n s w) (hpath : FileTree.hasNul path = false)
    (hwhole : IsLogPath (before.absolutePath path)) (i : Installation) (date : String)
    (hasked : ∀ p, i.debugLog = some p → p = path) : Reaches (s.install i date) w
      fun s' w' => Sound path before (n + i.debugLog.toList.length) s' w' := by
  have hsame := absolutePath_of_directory h.directory path
  have hopen := h.isOpen
  have hwhole' := hwhole
  rw [← hsame] at hopen hwhole'
  refine (reaches_install hpath hwhole' hopen hasked date).mono fun s' w' hinstalled => ?_
  generalize i.debugLog = log at hinstalled hasked ⊢
  cases hinstalled with
  | unasked hfiles hunchanged =>
    rw [hunchanged]
    exact h.kept hfiles (.refl _ w) fun _ => rfl
  | there hlog hfiles hunchanged =>
    obtain rfl := hasked _ rfl
    rw [hunchanged]
    exact h.there hlog hfiles
  | added hlog hrun hstored hthere hfiles hkept =>
    obtain rfl := hasked _ rfl
    rw [hsame] at hstored hthere hfiles hkept
    exact h.added hwhole hlog hrun hstored hthere hfiles hkept
  | refused hlog hrun hstored hfiles hkept =>
    obtain rfl := hasked _ rfl
    rw [hsame] at hstored hkept
    exact h.refused hwhole hrun hstored hfiles hkept

/-- One call keeps things sound. -/
theorem Sound.perform (h : Sound path before n s w) (hpath : FileTree.hasNul path = false)
    (hwhole : IsLogPath (before.absolutePath path)) (hasked : ∀ p, c.asked? = some p → p = path) :
    Reaches (c.perform s) w fun s' w' => Sound path before (n + c.asked?.toList.length) s' w' := by
  cases c with
  | install i date => exact h.install hpath hwhole i date hasked
  | log r => exact h.log hwhole r

theorem asked_cons (c : Call) (calls : List Call) :
    asked (c :: calls) = c.asked?.toList ++ asked calls := by
  rw [asked, List.filterMap_cons, asked]
  cases c.asked? <;> rfl

theorem Sound.run (h : Sound path before n s w) (hpath : FileTree.hasNul path = false)
    (hwhole : IsLogPath (before.absolutePath path)) (hasked : ∀ p ∈ asked calls, p = path) :
    Reaches (s.run calls) w fun s' w' => Sound path before (n + (asked calls).length) s' w' := by
  induction calls generalizing s w n with
  | nil => exact reaches_pure h
  | cons c rest ih =>
    rw [asked_cons, List.forall_mem_append] at hasked
    obtain ⟨hfirst, hrest⟩ := hasked
    rw [Session.run, List.foldlM_cons, asked_cons, List.length_append, ← Nat.add_assoc]
    exact (h.perform hpath hwhole fun p hp => hfirst p (Option.mem_toList.mpr hp)).bind
      fun _ _ hsound => ih hsound hrest

/-- What `n` calls that have asked for a debug log leave behind. All log files are the one that the
path is meant for. There is one handler for it if the path is from the root and in normal form; else
each of these calls has added its own. From then on a record goes to the file by at most one line for
each handler, and by all the lines of its handlers as long as the file has room for them. -/
structure Logged (path : String) (before : Workspace) (n : Nat) (s : Session) (w : Workspace) :
    Prop where
  same_file : ∀ p ∈ s.files, p = before.absolutePath path
  once : before.absolutePath path = path → s.files.length ≤ 1
  attached : Openable path before → before.absolutePath path = path → s.files.length = min 1 n
  repeated : Reopenable path before → before.absolutePath path ≠ path → s.files.length = n
  at_most : ∀ r, Reaches (s.handle r) w fun _ w' =>
    w.Taken (before.absolutePath path) r s.files.length w'
  exactly : ∀ r old, w.contentAt? (before.absolutePath path) = some old →
    Handler.Fits (w.destination (before.absolutePath path)) old.length r s.handlers →
    Reaches (s.handle r) w fun _ w' => w'.contentAt? (before.absolutePath path) =
      some (old ++ Workspace.bytesOfLines (Handler.lines r s.handlers))

theorem Sound.logged (h : Sound path before n s w) (hwhole : IsLogPath (before.absolutePath path)) :
    Logged path before n s w where
  same_file p hp := (h.isOpen p hp).1
  once := h.once
  attached hopenable hsame := by
    by_cases hn : n = 0
    · rw [(h.first hn).1, hn]
      rfl
    · rw [Nat.min_eq_left (Nat.one_le_iff_ne_zero.mpr hn)]
      exact Nat.le_antisymm (h.once hsame) (List.length_pos_iff.mpr (h.opened hopenable hn))
  repeated hreopenable hother := by
    by_cases hn : n = 0
    · rw [(h.first hn).1, hn]
      rfl
    · exact (h.later hreopenable hn).2.2.2 hother
  at_most r := (reaches_handle hwhole h.isOpen r).mono fun _ _ h => h.2.1
  exactly r old hold hfits := by
    have hpaths : ∀ p ∈ Handler.files s.handlers, p = before.absolutePath path :=
      fun p hp => (h.isOpen p hp).1
    exact (Handler.reaches_handle_of_fits hwhole.no_nul hpaths hold hfits).bind
      fun _ _ h => reaches_pure h.2

/-- Any calls that ask for one debug log, if they ask for any, end well and leave one handler for it
or one for each installation, by how its path is written. -/
theorem run_logged (name path : String) (calls : List Call) (before : Workspace)
    (hpath : FileTree.hasNul path = false)
    (hdirectory : FileTree.hasNul before.directoryPath = false)
    (hasked : ∀ p ∈ asked calls, p = path) : ∃ s w, (fresh name).run calls before = .ok s w ∧
      Logged path before (asked calls).length s w := by
  have hwhole := isLogPath_absolutePath hpath hdirectory
  obtain ⟨s, w, hrun, hsound⟩ := (sound_fresh name before path).run hpath hwhole hasked
  rw [Nat.zero_add] at hsound
  exact ⟨s, w, hrun, hsound.logged hwhole⟩

theorem openable_iff : Openable path w ↔
    (match openDebugLog path w with
      | .ok (.ok _) _ => true
      | _ => false) = true := by
  constructor
  · rintro ⟨log, u, hrun⟩
    rw [hrun]
  · intro h
    split at h
    case h_1 log u hrun => exact ⟨log, u, hrun⟩
    case h_2 => cases h

instance (path : String) (w : Workspace) : Decidable (Openable path w) :=
  decidable_of_iff' _ openable_iff

def desk : Workspace :=
  ⟨⟨[(["work"], .directory), (["work", "sub"], .directory)]⟩, ["work"], [], "/tmp", 0, .usual⟩

def withLog (path : String) : Call :=
  .install ⟨0, none, false, false, some path, ⟨"3.11.9", "Linux", ["wswantool"]⟩⟩ "2025-01-01"

/-- A log in a directory that is still to be made keeps one handler. -/
theorem run_logged_desk : ∃ s w, (fresh "wswantool").run
    [withLog "/work/logs/debug.log", withLog "/work/logs/debug.log"] desk = .ok s w ∧
      s.files.length = 1 := by
  have hopenable : Openable "/work/logs/debug.log" desk := by decide +kernel
  obtain ⟨s, w, hrun, hlogged⟩ := run_logged "wswantool" "/work/logs/debug.log"
    [withLog "/work/logs/debug.log", withLog "/work/logs/debug.log"] desk (by decide +kernel)
    (by decide +kernel) (by decide +kernel)
  exact ⟨s, w, hrun, hlogged.attached hopenable (by decide +kernel)⟩

/-- Directories do not stand in the way of a log that has a longer name. -/
theorem isClear_of_names {log : String} (h : w.tree.entries.all (fun e => e.2 != .directory ||
    (e.1.getLastD "").length ≤ ((w.destination log).getLastD "").length) = true) :
    w.IsClear log := by
  intro n hentry
  have hplace : LogFile.backup (w.destination log) n ≠ [] := List.append_ne_nil_of_right_ne_nil _ nofun
  rw [FileTree.entry?_of_ne_nil hplace, Option.map_eq_some_iff] at hentry
  obtain ⟨e, hfound, hdirectory⟩ := hentry
  have hname := List.all_eq_true.mp h e (List.mem_of_find?_eq_some hfound)
  have hkey : e.1 = LogFile.backup (w.destination log) n := by simpa using List.find?_some hfound
  have hdot : ".".length = 1 := rfl
  rw [hdirectory, hkey, LogFile.backup, List.getLastD_concat, bne_self_eq_false, Bool.false_or,
    decide_eq_true_iff] at hname
  simp only [toString, String.length_append] at hname
  omega

/-- A log whose path goes up can be opened, but it gets two handlers. -/
theorem run_upwards : Openable "/work/sub/../d.log" desk ∧ ∃ s w, (fresh "wswantool").run
    [withLog "/work/sub/../d.log", withLog "/work/sub/../d.log"] desk = .ok s w ∧
      s.files = ["/work/d.log", "/work/d.log"] := by
  have hpath : desk.absolutePath "/work/sub/../d.log" = "/work/d.log" := by decide +kernel
  have hopen : (match openDebugLog "/work/sub/../d.log" desk with
      | .ok (.ok _) u => u.tree.hasDirectory u.directory "/work/sub/.." &&
          u.tree.entries.all fun e => e.2 != .directory ||
            (e.1.getLastD "").length ≤ ((u.destination "/work/d.log").getLastD "").length
      | _ => false) = true := by decide +kernel
  split at hopen
  case h_2 => cases hopen
  case h_1 log u hrun =>
    obtain ⟨hdirectory, hnames⟩ := Bool.and_eq_true_iff.mp hopen
    have hparent : Path.parent "/work/sub/../d.log" = "/work/sub/.." := by decide +kernel
    have hreopenable : Reopenable "/work/sub/../d.log" desk :=
      ⟨log, u, hrun, hparent ▸ hdirectory, hpath ▸ isClear_of_names hnames⟩
    have hwhole : IsLogPath (desk.absolutePath "/work/sub/../d.log") :=
      isLogPath_absolutePath (by decide +kernel) (by decide +kernel)
    have hasked : ∀ p ∈ asked [withLog "/work/sub/../d.log", withLog "/work/sub/../d.log"],
        p = "/work/sub/../d.log" := by decide +kernel
    obtain ⟨s, w, hcalls, hsound⟩ := (sound_fresh "wswantool" desk "/work/sub/../d.log").run
      (by decide +kernel) hwhole hasked
    refine ⟨⟨log, u, hrun⟩, s, w, hcalls, ?_⟩
    have hlength := (hsound.later hreopenable (by decide +kernel)).2.2.2 (by decide +kernel)
    rw [List.eq_replicate_of_mem fun p hp => (hsound.isOpen p hp).1, hlength, hpath]
    rfl

end FirmwareKit.Session
