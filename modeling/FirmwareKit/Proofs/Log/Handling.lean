import FirmwareKit.Log.Session
import FirmwareKit.Proofs.Log.Rotation
import FirmwareKit.Proofs.Runs
set_option autoImplicit false

namespace FirmwareKit

/-- What may be written of a record: a line of it as it is, or with colours removed before. -/
inductive Record.Line : Record → String → Prop
  | made {r : Record} {isColored : Bool} {s : String} (h : r.line isColored = .ok s) : Line r s
  | stripped {r : Record} {s : String} (h : Line r.stripped s) : Line r s

/-! ## A file that takes lines -/

namespace Workspace
variable {w w' w'' : Workspace} {path : String} {place : Place} {r r' : Record} {n n' : Nat}
  {old : List UInt8}

def bytesOfLines (lines : List String) : List UInt8 :=
  lines.flatMap fun l => Text.Utf8.encode (l ++ "\n").toList

/-- No directory stands where the log file is put aside. -/
def IsClear (w : Workspace) (path : String) : Prop :=
  ∀ n, w.tree.entry? (LogFile.backup (w.destination path) n) ≠ some .directory

/-- A log file is there as before, and around it only files may have been moved. -/
structure Kept (path : String) (w w' : Workspace) : Prop where
  directory : w'.directory = w.directory
  there : (w.contentAt? path).isSome = true → (w'.contentAt? path).isSome = true
  directories : w.IsClear path → ∀ q, w'.tree.entry? q = some .directory ↔
    w.tree.entry? q = some .directory

theorem Kept.refl (path : String) (w : Workspace) : Kept path w w := ⟨rfl, id, fun _ _ => Iff.rfl⟩

theorem Kept.isClear (h : Kept path w w') (hclear : w.IsClear path) : w'.IsClear path := by
  intro m
  rw [destination_eq_of_directory h.directory]
  exact mt (h.directories hclear _).mp (hclear m)

theorem Kept.trans (h : Kept path w w') (h' : Kept path w' w'') : Kept path w w'' where
  directory := h'.directory.trans h.directory
  there := h'.there ∘ h.there
  directories hclear q := (h'.directories (h.isClear hclear) q).trans (h.directories hclear q)

/-- A log file has taken at most `n` lines of a record. Before them it holds what it held, or
nothing. -/
structure Taken (path : String) (r : Record) (n : Nat) (w w' : Workspace) : Prop where
  directory : w'.directory = w.directory
  content : ∀ old, w.contentAt? path = some old → ∃ kept lines, (kept = old ∨ kept = []) ∧
    lines.length ≤ n ∧ (∀ l ∈ lines, r.Line l) ∧
    w'.contentAt? path = some (kept ++ bytesOfLines lines)
  directories : w.IsClear path → ∀ q, w'.tree.entry? q = some .directory ↔
    w.tree.entry? q = some .directory

theorem Taken.unchanged (path : String) (r : Record) (n : Nat) (w : Workspace) :
    Taken path r n w w where
  directory := rfl
  content old h := ⟨old, [], .inl rfl, Nat.zero_le n, List.forall_mem_nil _, by
    rw [bytesOfLines, List.flatMap_nil, List.append_nil, h]⟩
  directories _ _ := Iff.rfl

theorem Taken.kept (h : Taken path r n w w') : Kept path w w' where
  directory := h.directory
  there hthere := by
    obtain ⟨old, hold⟩ := Option.isSome_iff_exists.mp hthere
    obtain ⟨kept, lines, -, -, -, hnew⟩ := h.content old hold
    rw [hnew]
    rfl
  directories := h.directories

theorem Taken.trans (h : Taken path r n w w') (h' : Taken path r' n' w' w'')
    (hline : ∀ s, r'.Line s → r.Line s) : Taken path r (n + n') w w'' where
  directory := (h.kept.trans h'.kept).directory
  content old hold := by
    obtain ⟨kept, lines, hkept, hlength, hlines, hcontent⟩ := h.content old hold
    obtain ⟨kept', lines', hkept', hlength', hlines', hcontent'⟩ := h'.content _ hcontent
    have hlater : ∀ l ∈ lines', r.Line l := fun l hl => hline l (hlines' l hl)
    rcases hkept' with rfl | rfl
    · refine ⟨kept, lines ++ lines', hkept, ?_, List.forall_mem_append.mpr ⟨hlines, hlater⟩, ?_⟩
      · rw [List.length_append]
        exact Nat.add_le_add hlength hlength'
      · rw [hcontent', List.append_assoc, bytesOfLines, bytesOfLines, bytesOfLines,
          List.flatMap_append]
    · exact ⟨[], lines', .inr rfl, hlength'.trans (Nat.le_add_left n' n), hlater, hcontent'⟩
  directories := (h.kept.trans h'.kept).directories

theorem Taken.mono (h : Taken path r n w w') (hn : n ≤ n') : Taken path r n' w w' where
  directory := h.directory
  content old hold := by
    obtain ⟨kept, lines, hkept, hlength, hrest⟩ := h.content old hold
    exact ⟨kept, lines, hkept, hlength.trans hn, hrest⟩
  directories := h.directories

/-- Where a file is put, there was no directory and there is none. -/
theorem directory_put_iff (hentry : w.tree.entry? place ≠ some .directory) (new : List UInt8)
    (q : Place) :
    FileTree.entry? (w.tree.put place (.file new)) q = some .directory ↔
      w.tree.entry? q = some .directory := by
  have hplace : place ≠ [] := by
    rintro rfl
    exact hentry rfl
  by_cases hq : q = place
  · rw [hq, FileTree.entry?_put_self hplace]
    exact iff_of_false nofun hentry
  · rw [FileTree.entry?_put_of_ne hq]

/-- A line is written at the end of the file, or of another one. -/
theorem Taken.put {line : String} (hfile : w.tree.entry? place = some (.file old))
    (hline : r.Line line) : Taken path r 1 w (w.withTree (w.tree.put place
      (.file (old ++ Text.Utf8.encode (line ++ "\n").toList)))) where
  directory := rfl
  directories _ q := directory_put_iff (fun h => nomatch hfile.symm.trans h) _ q
  content content hcontent := by
    by_cases hplace : w.destination path = place
    · subst hplace
      cases (entry?_of_contentAt? hcontent).symm.trans hfile
      refine ⟨old, [line], .inl rfl, Nat.le_refl 1, List.forall_mem_singleton.mpr hline, ?_⟩
      rw [bytesOfLines, List.flatMap_singleton]
      exact contentAt?_put (contentAt?_eq_some_iff.mp hcontent)
    · refine ⟨content, [], .inl rfl, Nat.zero_le 1, List.forall_mem_nil _, ?_⟩
      rw [bytesOfLines, List.flatMap_nil, List.append_nil]
      have hdirectories := directory_put_iff (fun h => nomatch hfile.symm.trans h)
        (old ++ Text.Utf8.encode (line ++ "\n").toList)
      refine contentAt?_of_entry (w := w) rfl (fun q hq => (hdirectories q).mpr hq) hcontent ?_
      exact (FileTree.entry?_put_of_ne hplace _).trans (entry?_of_contentAt? hcontent)

def IsOpen (w : Workspace) (path : String) (files : List String) : Prop :=
  ∀ p ∈ files, p = path ∧ (w.contentAt? path).isSome = true

theorem IsOpen.kept {files : List String} (hopen : w.IsOpen path files) (h : w.Kept path w') :
    w'.IsOpen path files := fun p hp => ⟨(hopen p hp).1, h.there (hopen p hp).2⟩

end Workspace

/-! ## What log files do -/

namespace LogFile
variable {f : LogFile} {w : Workspace} {r : Record} {old : List UInt8}

theorem openLog_of_content {path : String} (hnul : FileTree.hasNul path = false)
    (h : w.contentAt? path = some old) :
    Run.openLog path w = .ok (w.destination path) w :=
  bind_of_ok (Run.locate_of_contentAt? hnul h)

theorem reaches_opened (hnul : FileTree.hasNul f.path = false)
    (h : w.contentAt? f.path = some old) :
    Reaches f.opened w fun f' w' => w' = w ∧ f'.path = f.path ∧ f'.stream.isOpen = true := by
  rw [opened]
  split
  case isTrue hopen => exact reaches_pure ⟨rfl, rfl, hopen⟩
  case isFalse =>
    have hrun : (do
        let place ← Run.openLog f.path
        pure { f with stream := .standing place } : Run LogFile) w =
          .ok { f with stream := .standing (w.destination f.path) } w :=
      bind_of_ok (openLog_of_content hnul h)
    exact ⟨_, w, tryCatch_of_ok hrun, rfl, rfl, rfl⟩

theorem mayRotate_of_content (hnul : FileTree.hasNul f.path = false)
    (h : w.contentAt? f.path = some old) : f.mayRotate w = true := by
  rw [mayRotate, FileTree.hasFile, hnul, FileTree.lookup?, Workspace.contentAt?_eq_some_iff.mp h]
  exact Bool.or_true _

theorem append_of_standing {place : Place} (text : String) (hstream : f.stream = .standing place)
    (hentry : w.tree.entry? place = some (.file old)) : f.append text w =
      .ok f (w.withTree (w.tree.put place (.file (old ++ Text.Utf8.encode text.toList)))) := by
  rw [append, hstream]
  dsimp only
  rw [get_bind, hentry]
  rfl

theorem reaches_append {line : String} (hline : r.Line line) (path : String) :
    Reaches (f.append (line ++ "\n")) w fun f' w' => f'.path = f.path ∧ w.Taken path r 1 w' := by
  rw [append]
  split
  · exact reaches_pure ⟨rfl, .unchanged path r 1 w⟩
  · exact reaches_pure ⟨rfl, .unchanged path r 1 w⟩
  · rename_i place _
    rw [Reaches, get_bind]
    cases hentry : w.tree.entry? place with
    | none => exact reaches_pure ⟨rfl, .unchanged path r 1 w⟩
    | some e =>
      cases e with
      | directory => exact reaches_pure ⟨rfl, .unchanged path r 1 w⟩
      | file content => exact ⟨f, _, rfl, rfl, .put hentry hline⟩

/-- A way that does not go up finds the file again where it was, unless it has been put aside. -/
theorem locate_rotated {path : String} (hup : ".." ∉ Path.parts path)
    (h : w.contentAt? path = some old) :
    (rotated path w.tree (w.destination path)).tree.locate w.directory path =
      .ok (if (rotated path w.tree (w.destination path)).isStuck
        then .present (w.destination path) (.file old) else .free (w.destination path) false) := by
  obtain ⟨hpath, hway⟩ := FileTree.way_of_locate (Workspace.contentAt?_eq_some_iff.mp h)
  obtain ⟨habove, hplace⟩ := entry?_rotated path (Workspace.entry?_of_contentAt? h)
  refine FileTree.locate_of_way hpath (hway.of_above hup habove fun hname hend => ?_)
  rw [← hend] at hplace ⊢
  split
  case isTrue hstuck => exact .file hname (by rw [hplace, if_pos hstuck])
  case isFalse hstuck => exact .free hname (by rw [hplace, if_neg hstuck]) rfl

/-- The file is put aside and an empty one is there instead, or it stays. -/
theorem reaches_rotate (hnul : FileTree.hasNul f.path = false) (hup : ".." ∉ Path.parts f.path)
    (h : w.contentAt? f.path = some old) (r : Record) :
    Reaches f.rotate w fun e w' => e.1.path = f.path ∧ w.Taken f.path r 0 w' := by
  have hlocate := locate_rotated hup h
  have hdirectories (hclear : w.IsClear f.path) :=
    directory_rotated_iff f.path (Workspace.entry?_of_contentAt? h) hclear
  rw [rotate, Reaches, get_bind, Workspace.contentAt?_eq_some_iff.mp h]
  dsimp only
  generalize w.destination f.path = place at hlocate hdirectories ⊢
  generalize rotated f.path w.tree place = aside at hlocate hdirectories ⊢
  have hset : (set (w.withTree aside.tree) : Run PUnit) w = .ok () (w.withTree aside.tree) := rfl
  rw [bind_of_ok hset]
  split
  case isTrue hstuck =>
    rw [if_pos hstuck] at hlocate
    refine ⟨_, _, rfl, rfl, rfl, fun content hcontent => ?_, hdirectories⟩
    cases hcontent.symm.trans h
    refine ⟨old, [], .inl rfl, Nat.le_refl 0, List.forall_mem_nil _, ?_⟩
    have hlookup : (w.withTree aside.tree).tree.lookup? (w.withTree aside.tree).directory f.path =
        some (place, .file old) := FileTree.lookup?_eq_some_iff.mpr hlocate
    rw [Workspace.contentAt?, hlookup, Workspace.bytesOfLines, List.flatMap_nil, List.append_nil]
  case isFalse hstuck =>
    rw [if_neg hstuck] at hlocate
    have hadmits : (FileTree.Target.free place false).Admits (.file []) :=
      fun hasked => absurd hasked Bool.false_ne_true
    have hempty : FileTree.entry? (w.withTree aside.tree).tree place ≠ some .directory :=
      ((FileTree.way_of_locate hlocate).2.found.not_directory hadmits).2
    have hopen : Run.openLog f.path (w.withTree aside.tree) =
        .ok place (w.withTree (aside.tree.put place (.file []))) :=
      bind_of_ok (Run.locate_of_ok (w := w.withTree aside.tree) hnul hlocate)
    have hrun : f.reopen (w.withTree aside.tree) = .ok { f with stream := .standing place }
        (w.withTree (aside.tree.put place (.file []))) :=
      tryCatch_of_ok (bind_of_ok hopen)
    rw [bind_of_ok hrun]
    refine ⟨_, _, rfl, rfl, rfl, fun content _ => ?_, fun hclear q => ?_⟩
    · refine ⟨[], [], .inr rfl, Nat.le_refl 0, List.forall_mem_nil _, ?_⟩
      exact Workspace.contentAt?_put_of_admits (w := w.withTree aside.tree) hlocate hadmits
    · exact (Workspace.directory_put_iff hempty _ q).trans (hdirectories hclear q)

end LogFile

/-! ## What handlers do -/

namespace Handler
variable {path : String} {r : Record} {h : Handler} {hs : List Handler} {w : Workspace}
  {f : LogFile} {old : List UInt8}

def file? (h : Handler) : Option String :=
  match h.sink with
  | .stream _ => none
  | .file f => some f.path

def files (hs : List Handler) : List String := hs.filterMap file?

theorem files_cons (h : Handler) (hs : List Handler) :
    files (h :: hs) = h.file?.toList ++ files hs := by
  rw [files, List.filterMap_cons, files]
  cases h.file? <;> rfl

theorem file?_follow (h : Handler) (moves : List LogFile.Move) :
    (h.follow moves).file? = h.file? := by
  rw [follow]
  cases hsink : h.sink with
  | stream => rfl
  | file f => simp [file?, hsink, LogFile.follow]

theorem line_of_seen {s : String} (hline : (h.seen r).Line s) : r.Line s := by
  rw [seen] at hline
  split at hline
  · exact hline
  · exact .stripped hline

theorem reaches_writeTo (h : Handler) (f : LogFile) (r : Record) (path : String) (w : Workspace) :
    Reaches (h.writeTo f r) w fun e w' =>
      e.1.file? = some f.path ∧ e.2 = h.seen r ∧ w.Taken path r 1 w' := by
  rw [writeTo]
  split
  case h_1 => exact reaches_pure ⟨rfl, rfl, .unchanged path r 1 w⟩
  case h_2 line hline =>
    refine (LogFile.reaches_append (.made hline) path).bind fun f' w' ⟨hpath, htaken⟩ => ?_
    exact reaches_pure ⟨congrArg some hpath, rfl, htaken⟩

theorem reaches_emitFile (hnul : FileTree.hasNul f.path = false) (hup : ".." ∉ Path.parts f.path)
    (hcontent : w.contentAt? f.path = some old) :
    Reaches (h.emitFile f r) w fun e w' => e.handler.file? = some f.path ∧
      (∀ s, e.record.Line s → r.Line s) ∧ w.Taken f.path r 1 w' := by
  have hwrite {f' : LogFile} {w' : Workspace} {moves : List LogFile.Move}
      (hpath : f'.path = f.path) (hbefore : w.Taken f.path r 0 w') :
      Reaches (h.writeTo f' (h.seen r) >>= fun e => pure ⟨e.1, e.2, moves⟩) w'
        fun (e : Emission) w'' => e.handler.file? = some f.path ∧
          (∀ s, e.record.Line s → r.Line s) ∧ w.Taken f.path r 1 w'' := by
    refine (reaches_writeTo h f' (h.seen r) f.path w').bind fun e w'' hwritten => ?_
    obtain ⟨hfile, hrecord, htaken⟩ := hwritten
    refine reaches_pure ⟨hpath ▸ hfile, fun s hs => ?_, ?_⟩
    · exact line_of_seen (line_of_seen (hrecord ▸ hs))
    · exact (hbefore.trans htaken fun s hs => line_of_seen hs).mono (Nat.le_refl 1)
  have hsame := Workspace.Taken.unchanged f.path r 1 w
  rw [emitFile, Reaches, get_bind, LogFile.mayRotate_of_content hnul hcontent]
  refine (LogFile.reaches_opened hnul hcontent).bind fun f' w' hopened => ?_
  obtain ⟨rfl, hpath, hopen⟩ := hopened
  rw [hopen]
  split
  case isTrue => exact reaches_pure ⟨congrArg some hpath, fun s hs => hs, hsame⟩
  dsimp only
  split
  case h_1 => exact reaches_pure ⟨congrArg some hpath, fun s hs => line_of_seen hs, hsame⟩
  case h_2 line hline =>
    rw [Reaches, get_bind]
    split
    case isTrue => exact hwrite hpath (.unchanged f.path r 0 w')
    case isFalse =>
      rw [← hpath] at hnul hup hcontent
      refine (LogFile.reaches_rotate hnul hup hcontent r).bind fun e u hrotated => ?_
      obtain ⟨hpath', htaken⟩ := hrotated
      rw [hpath] at hpath' htaken
      obtain ⟨f'', moves⟩ := e
      dsimp only at hpath' ⊢
      split
      case isTrue =>
        exact reaches_pure ⟨congrArg some hpath', fun s hs => line_of_seen hs, htaken.mono (Nat.zero_le 1)⟩
      case isFalse => exact hwrite hpath' htaken

theorem reaches_emit (hnul : FileTree.hasNul path = false) (hup : ".." ∉ Path.parts path)
    (hopen : w.IsOpen path h.file?.toList) (r : Record) :
    Reaches (h.emit r) w fun e w' => e.handler.file? = h.file? ∧ (∀ s, e.record.Line s → r.Line s) ∧
      w.Taken path r h.file?.toList.length w' ∧ (h.file? = none → w' = w) := by
  rw [emit]
  cases hsink : h.sink with
  | stream written =>
    have hnone : h.file? = none := by rw [file?, hsink]
    rw [hnone]
    dsimp only
    split
    · exact reaches_pure ⟨hnone, fun s hs => line_of_seen hs, .unchanged path r 0 w, fun _ => rfl⟩
    · exact reaches_pure ⟨rfl, fun s hs => line_of_seen hs, .unchanged path r 0 w, fun _ => rfl⟩
  | file f =>
    have hsome : h.file? = some f.path := by rw [file?, hsink]
    rw [hsome] at hopen ⊢
    obtain ⟨rfl, hthere⟩ := hopen f.path (Option.mem_toList.mpr rfl)
    obtain ⟨old, hold⟩ := Option.isSome_iff_exists.mp hthere
    refine (reaches_emitFile hnul hup hold).mono fun e w' ⟨hfile, hline, htaken⟩ => ?_
    exact ⟨hfile, hline, htaken, nofun⟩

/-- Handlers of a log file take a record without a fault. Each of them adds at most one line of it to
the file. -/
theorem reaches_handle (hnul : FileTree.hasNul path = false) (hup : ".." ∉ Path.parts path)
    (hopen : w.IsOpen path (files hs)) (moves : List LogFile.Move) (r : Record) :
    Reaches (handle moves r hs) w fun e w' => files e.1 = files hs ∧
      w.Taken path r (files hs).length w' ∧ (files hs = [] → w' = w) := by
  induction hs generalizing moves r w with
  | nil => exact reaches_pure ⟨rfl, .unchanged path r 0 w, fun _ => rfl⟩
  | cons h rest ih =>
    rw [files_cons, Workspace.IsOpen, List.forall_mem_append] at hopen
    obtain ⟨hfirst, hrest⟩ := hopen
    rw [handle, files_cons, List.length_append]
    dsimp only
    split
    case isTrue =>
      rw [← file?_follow h moves] at hfirst ⊢
      refine (reaches_emit hnul hup hfirst r).bind fun e u ⟨hfile, hline, htaken, hnone⟩ => ?_
      have hopenu : u.IsOpen path (files rest) := Workspace.IsOpen.kept hrest htaken.kept
      refine (ih hopenu _ e.record).bind fun ⟨hs', later⟩ w' ⟨hfiles, htaken', hnone'⟩ => ?_
      refine reaches_pure ⟨?_, htaken.trans htaken' hline, fun hempty => ?_⟩
      · rw [files_cons, file?_follow, hfile, hfiles]
      · obtain ⟨hleft, hright⟩ := List.append_eq_nil_iff.mp hempty
        rw [hnone' hright, hnone (Option.toList_eq_nil_iff.mp hleft)]
    case isFalse =>
      refine (ih hrest moves r).bind fun ⟨hs', later⟩ w' ⟨hfiles, htaken, hnone⟩ => ?_
      refine reaches_pure ⟨?_, htaken.mono (Nat.le_add_left _ _), fun hempty => ?_⟩
      · rw [files_cons, file?_follow, file?_follow, hfiles]
      · exact hnone (List.append_eq_nil_iff.mp hempty).2

/-! ## Lines of a record -/

/-- The record that the handler behind sees, where nothing is in the way of the line. -/
def behind (h : Handler) (r : Record) : Record :=
  if h.accepts r then
    match h.sink, r.line h.isColored with
    | .file _, .ok _ => h.seen (h.seen r)
    | _, _ => h.seen r
  else r

def ownLines (r : Record) (h : Handler) : List String :=
  match h.sink, r.line h.isColored, (h.seen r).line h.isColored with
  | .file _, .ok _, .ok line => if h.accepts r then [line] else []
  | _, _, _ => []

def lines (r : Record) : List Handler → List String
  | [] => []
  | h :: rest => ownLines r h ++ lines (h.behind r) rest

/-- Each handler that takes a record has the log open and finds room for the line. -/
def Fits (place : Place) : Nat → Record → List Handler → Prop
  | _, _, [] => True
  | size, r, h :: rest =>
    (∀ f, h.sink = .file f → h.accepts r = true → f.stream = .standing place ∧
      ∀ line, r.line h.isColored = .ok line → size + line.length + 1 < LogFile.greatestSize) ∧
    Fits place (size + (Workspace.bytesOfLines (ownLines r h)).length) (h.behind r) rest

theorem follow_nil (h : Handler) : h.follow [] = h := by
  obtain ⟨level, isColored, sink⟩ := h
  cases sink <;> rfl

theorem behind_of_not_accepts (haccepts : ¬ h.accepts r = true) : h.behind r = r := by
  rw [behind, if_neg haccepts]

theorem ownLines_of_not_accepts (haccepts : ¬ h.accepts r = true) : ownLines r h = [] := by
  unfold ownLines
  split
  · exact if_neg haccepts
  · rfl

theorem ownLines_of_stream {written : String} (hsink : h.sink = .stream written) :
    ownLines r h = [] := by
  simp [ownLines, hsink]

theorem behind_of_stream {written : String} (hsink : h.sink = .stream written)
    (haccepts : h.accepts r = true) : h.behind r = h.seen r := by
  simp [behind, hsink, haccepts]

/-- A handler whose log is open and has room writes its line, and nothing is moved. -/
theorem reaches_emit_of_fits (hnul : FileTree.hasNul path = false) (haccepts : h.accepts r = true)
    (hpath : ∀ p, h.file? = some p → p = path) (hold : w.contentAt? path = some old)
    (hfits : ∀ f, h.sink = .file f → f.stream = .standing (w.destination path) ∧
      ∀ line, r.line h.isColored = .ok line → old.length + line.length + 1 < LogFile.greatestSize) :
    Reaches (h.emit r) w fun e w' => e.record = h.behind r ∧ e.moves = [] ∧
      w'.directory = w.directory ∧
      w'.contentAt? path = some (old ++ Workspace.bytesOfLines (ownLines r h)) := by
  have hsame : w.contentAt? path = some (old ++ Workspace.bytesOfLines []) := by
    rw [hold, Workspace.bytesOfLines, List.flatMap_nil, List.append_nil]
  rw [emit]
  cases hsink : h.sink with
  | stream written =>
    rw [ownLines_of_stream hsink, behind_of_stream hsink haccepts]
    dsimp only
    split <;> exact reaches_pure ⟨rfl, rfl, rfl, hsame⟩
  | file f =>
    obtain ⟨hstream, hroom⟩ := hfits f hsink
    obtain rfl : f.path = path := hpath _ (by rw [file?, hsink])
    have hopen : f.stream.isOpen = true := by rw [hstream]; rfl
    have hopened : f.opened w = .ok f w := by rw [LogFile.opened, if_pos hopen]; rfl
    dsimp only
    rw [emitFile, Reaches, get_bind, LogFile.mayRotate_of_content hnul hold, bind_of_ok hopened, hopen,
      behind, if_pos haccepts, ownLines, hsink]
    dsimp only
    cases hline : r.line h.isColored with
    | error => exact reaches_pure ⟨rfl, rfl, rfl, hsame⟩
    | ok line =>
      have hentry := Workspace.entry?_of_contentAt? hold
      have hsize : f.size w.tree = old.length := by simp only [LogFile.size, hstream, hentry]
      simp only [Bool.not_true, Bool.false_eq_true, if_false]
      rw [get_bind, hsize, if_pos (hroom line hline), writeTo]
      cases hwritten : (h.seen r).line h.isColored with
      | error => exact reaches_pure ⟨rfl, rfl, rfl, hsame⟩
      | ok written =>
        have hput := LogFile.append_of_standing (written ++ "\n") hstream hentry
        have hrun : (do
            let f ← f.append (written ++ "\n")
            pure (h.withFile f, h.seen (h.seen r)) : Run (Handler × Record)) w = .ok _ _ :=
          bind_of_ok hput
        dsimp only
        rw [bind_of_ok hrun, if_pos haccepts]
        refine ⟨_, _, rfl, rfl, rfl, rfl, ?_⟩
        rw [Workspace.bytesOfLines, List.flatMap_singleton]
        exact Workspace.contentAt?_put (Workspace.contentAt?_eq_some_iff.mp hold)

/-- Where no handler has to put the log aside, the log gains the lines of the record. -/
theorem reaches_handle_of_fits (hnul : FileTree.hasNul path = false)
    (hpath : ∀ p ∈ files hs, p = path) (hold : w.contentAt? path = some old)
    (hfits : Fits (w.destination path) old.length r hs) :
    Reaches (handle [] r hs) w fun e w' => e.2 = [] ∧
      w'.contentAt? path = some (old ++ Workspace.bytesOfLines (lines r hs)) := by
  induction hs generalizing r w old with
  | nil =>
    refine reaches_pure ⟨rfl, ?_⟩
    rw [hold, lines, Workspace.bytesOfLines, List.flatMap_nil, List.append_nil]
  | cons h rest ih =>
    rw [files_cons, List.forall_mem_append] at hpath
    obtain ⟨hfirst, hrest⟩ := hpath
    obtain ⟨hroom, hlater⟩ := hfits
    rw [handle, follow_nil, lines]
    dsimp only
    split
    case isTrue haccepts =>
      refine (reaches_emit_of_fits hnul haccepts (fun p hp => hfirst p (Option.mem_toList.mpr hp)) hold
        fun f hf => hroom f hf haccepts).bind fun e u ⟨hrecord, hmoves, hdirectory, hcontent⟩ => ?_
      rw [hmoves, List.append_nil, hrecord]
      rw [← Workspace.destination_eq_of_directory hdirectory, ← List.length_append] at hlater
      refine (ih hrest hcontent hlater).bind fun e' w' ⟨hnone, hcontent'⟩ => ?_
      refine reaches_pure ⟨hnone, ?_⟩
      rw [hcontent', List.append_assoc, Workspace.bytesOfLines, Workspace.bytesOfLines,
        Workspace.bytesOfLines, List.flatMap_append]
    case isFalse haccepts =>
      rw [behind_of_not_accepts haccepts, ownLines_of_not_accepts haccepts] at hlater ⊢
      refine (ih hrest hold hlater).bind fun e' w' ⟨hnone, hcontent⟩ => ?_
      exact reaches_pure ⟨hnone, hcontent⟩

end Handler
end FirmwareKit
