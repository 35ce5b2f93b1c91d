import FirmwareKit.Proofs.Build.Step
import FirmwareKit.Proofs.Files.Settled
import FirmwareKit.Proofs.Text.Integer
set_option autoImplicit false

/-!
# Temporary data of steps

While a step has a directory, the paths that it hands out are all different, and data that it has put
into a file is loaded from there unchanged, whatever else is done through the step. A relative path is
loaded by the path from the root that it stands for, so that one must lead to the file as well.
-/
namespace FirmwareKit

namespace BuildContext
variable {e f : String} {m n : Nat}

/-- An extension that does not run into the number before it. -/
def IsExtension (e : String) : Prop := e = "" ∨ e.toList.head? = some '.'

theorem toList_temporaryName (n : Nat) (e : String) :
    (temporaryName n e).toList =
      'w' :: 'f' :: (Text.padLeft 5 '0' (Text.decimal n) ++ e.toList) := by
  simp [temporaryName]

theorem isDigit_of_mem_number {c : Char} (h : c ∈ Text.padLeft 5 '0' (Text.decimal n)) :
    c.isDigit = true := by
  rcases List.mem_append.mp h with h | h
  · cases List.eq_of_mem_replicate h
    rfl
  · exact Text.isDigit_of_mem_decimal h

theorem takeWhile_number (he : IsExtension e) :
    (Text.padLeft 5 '0' (Text.decimal n) ++ e.toList).takeWhile Char.isDigit =
      Text.padLeft 5 '0' (Text.decimal n) := by
  have hend : e.toList.takeWhile Char.isDigit = [] := by
    rcases he with rfl | he
    · rfl
    · obtain ⟨rest, hrest⟩ := List.head?_eq_some_iff.mp he
      rw [hrest]
      rfl
  rw [List.takeWhile_append_of_pos fun c hc => isDigit_of_mem_number hc, hend, List.append_nil]

/-- Numbers are told apart by the names, also when they have more digits than room was left for. -/
theorem number_of_temporaryName (he : IsExtension e) (hf : IsExtension f)
    (h : temporaryName m e = temporaryName n f) : m = n := by
  -- The digits end where the extension begins, so the number can be read off the name.
  have hchars := congrArg String.toList h
  rw [toList_temporaryName, toList_temporaryName] at hchars
  have hnumber := congrArg (List.takeWhile Char.isDigit) (List.cons.inj (List.cons.inj hchars).2).2
  rw [takeWhile_number he, takeWhile_number hf] at hnumber
  have hread := congrArg (Text.readDigits? 10) hnumber
  rw [Text.readDigits?_padLeft, Text.readDigits?_padLeft] at hread
  exact Option.some.inj hread

theorem isAbsolute_temporaryName (n : Nat) (e : String) :
    Path.isAbsolute (temporaryName n e) = false := by
  rw [Path.isAbsolute, toList_temporaryName]
  rfl

theorem not_mem_temporaryName {c : Char} (hlead : c ∉ ['w', 'f']) (hdigit : c.isDigit = false)
    (he : c ∉ e.toList) : c ∉ (temporaryName n e).toList := by
  have hnumber : c ∉ Text.padLeft 5 '0' (Text.decimal n) := fun h => by
    rw [isDigit_of_mem_number h] at hdigit
    cases hdigit
  rw [toList_temporaryName]
  simp only [List.mem_cons, List.mem_append, not_or, List.not_mem_nil, not_false_eq_true, and_true]
    at hlead ⊢
  exact ⟨hlead.1, hlead.2, hnumber, he⟩

/-- The names of files that hold data are single parts of paths. -/
theorem isSingle_temporaryName (n : Nat) : Path.IsSingle (temporaryName n ".tmp") := by
  have hne {name : String} (hname : name.toList.head? ≠ some 'w') :
      temporaryName n ".tmp" ≠ name := by
    rintro rfl
    rw [toList_temporaryName] at hname
    exact hname rfl
  exact ⟨not_mem_temporaryName (by decide) (by decide) (by decide),
    not_mem_temporaryName (by decide) (by decide) (by decide),
    not_or.mpr ⟨hne (by decide), hne (by decide)⟩, hne (by decide)⟩

@[irreducible] def grantedPath (directory : String) (n : Nat) (e : String) : String :=
  Path.join directory (temporaryName n e)

theorem grantedPath_eq (directory : String) (n : Nat) (e : String) :
    grantedPath directory n e = Path.stem directory ++ temporaryName n e := by
  rw [grantedPath, Path.join_eq directory (isAbsolute_temporaryName n e)]

theorem number_of_grantedPath {directory : String} (he : IsExtension e) (hf : IsExtension f)
    (h : grantedPath directory m e = grantedPath directory n f) : m = n := by
  rw [grantedPath_eq, grantedPath_eq, ← String.toList_inj, String.toList_append,
    String.toList_append] at h
  exact number_of_temporaryName he hf (String.toList_inj.mp (List.append_cancel_left h))

/-- A path that is handed out is as absolute as the directory is. -/
theorem isAbsolute_grantedPath (directory : String) (n : Nat) (e : String) :
    Path.isAbsolute (Path.withSlashes (grantedPath directory n e)) =
      Path.isAbsolute (Path.withSlashes directory) := by
  rw [grantedPath_eq]
  by_cases hempty : directory = ""
  · subst hempty
    have hname : Path.stem "" ++ temporaryName n e = temporaryName n e := String.empty_append
    rw [hname, Path.withSlashes, Path.isAbsolute, String.toList_ofList, toList_temporaryName]
    rfl
  · exact Path.isAbsolute_withSlashes_stem hempty _

end BuildContext

namespace Workspace

/-- Where a name leads that is joined to a path: into one directory, whatever the name. -/
theorem exists_destination_join (w : Workspace) (directory : String) :
    ∃ here, ∀ name : String, Path.IsSingle name →
      w.destination (Path.withSlashes (Path.join directory name)) = here ++ [name] := by
  have hlast {here : Place} {name : String} (hname : Path.IsSingle name) :
      FileTree.destination here [name] = here ++ [name] := by
    rw [FileTree.destination, if_neg hname.not_blank, if_neg hname.not_up]
    rfl
  rcases Path.stem_cases directory with ⟨-, hstem⟩ | ⟨before, hstem, -⟩
  · refine ⟨w.directory, fun name hname => ?_⟩
    rw [Path.join_eq directory hname.isAbsolute, hstem, String.empty_append,
      Path.withSlashes_eq_self hname.no_backslash, destination,
      Path.parts_of_not_mem hname.no_slash, hlast hname, start, hname.isAbsolute,
      if_neg Bool.false_ne_true]
  · refine ⟨FileTree.destination (w.start (Path.withSlashes (before ++ "/")))
      (Path.parts (Path.withSlashes before)), fun name hname => ?_⟩
    have hslashes : Path.withSlashes (Path.join directory name) =
        Path.withSlashes before ++ "/" ++ name := by
      rw [Path.join_eq directory hname.isAbsolute, hstem, Path.withSlashes_append,
        Path.withSlashes_append, Path.withSlashes_eq_self hname.no_backslash]
      rfl
    have hstart : w.start (Path.withSlashes before ++ "/" ++ name) =
        w.start (Path.withSlashes (before ++ "/")) := by
      rw [Path.withSlashes_append, start, Path.isAbsolute_append_of_ne (by simp)]
      rfl
    rw [hslashes, destination, hstart, Path.parts_append_slash, Path.parts_of_not_mem hname.no_slash,
      FileTree.destination_append, hlast hname]

/-- Files that hold data are apart when their numbers are. -/
theorem destination_ne (w : Workspace) (directory : String) {m n : Nat} (h : m ≠ n) :
    w.destination (Path.withSlashes (BuildContext.grantedPath directory m ".tmp")) ≠
      w.destination (Path.withSlashes (BuildContext.grantedPath directory n ".tmp")) := by
  obtain ⟨here, hhere⟩ := exists_destination_join w directory
  rw [BuildContext.grantedPath, BuildContext.grantedPath,
    hhere _ (BuildContext.isSingle_temporaryName m), hhere _ (BuildContext.isSingle_temporaryName n)]
  intro heq
  have hname := (List.cons.inj (List.append_cancel_left heq)).1
  exact h (BuildContext.number_of_temporaryName (.inr rfl) (.inr rfl) hname)

end Workspace

namespace Build
open BuildContext (grantedPath)

/-! ## What is done through a step -/

inductive Use where
  | allocate (extension : String)
  | toFile (data : List UInt8)
  | toData (source : Reference)
  | access (path mode : String)
deriving DecidableEq, Repr

/-- A path that has been handed out, with the data that it was handed out for. -/
structure Grant where
  path : String
  data : Option (List UInt8)
deriving DecidableEq, Repr

def Use.perform : Use → Build (Option Grant)
  | .allocate extension => (fun path => some ⟨path, none⟩) <$> Build.allocate extension
  | .toFile data => (fun path => some ⟨path, some data⟩) <$> Build.toFile (.data data)
  | .toData source => (fun _ => none) <$> Build.toData source
  | .access path mode => (fun _ => none) <$> Build.access path mode

/-- What is not lost from one state to a later one: the directories, the count, and the data in the
files that have been counted. -/
structure Kept (s s' : BuildState) : Prop where
  place : s'.workspace.directory = s.workspace.directory
  scratch : s'.context.scratch = s.context.scratch
  allocated : s.context.allocated ≤ s'.context.allocated
  settled : s.workspace.Settled → s'.workspace.Settled
  content : ∀ directory, s.context.scratch.path? = some directory → ∀ n ≤ s.context.allocated,
    ∀ data, s.workspace.contentAt? (Path.withSlashes (grantedPath directory n ".tmp")) = some data →
      s'.workspace.contentAt? (Path.withSlashes (grantedPath directory n ".tmp")) = some data

instance : Std.Refl Kept := ⟨fun _ => ⟨rfl, rfl, Nat.le_refl _, id, fun _ _ _ _ _ => id⟩⟩

instance : Trans Kept Kept Kept :=
  ⟨fun h h' => ⟨h'.place.trans h.place, h'.scratch.trans h.scratch, h.allocated.trans h'.allocated,
    h'.settled ∘ h.settled, fun directory hdirectory n hn data hdata =>
      h'.content directory (h.scratch ▸ hdirectory) n (hn.trans h.allocated) data
        (h.content directory hdirectory n hn data hdata)⟩⟩

variable {s s' : BuildState}

theorem kept_of_sameFiles (hscratch : s'.context.scratch = s.context.scratch)
    (hallocated : s.context.allocated ≤ s'.context.allocated)
    (hfiles : s.workspace.SameFiles s'.workspace) : Kept s s' := by
  refine ⟨hfiles.directory, hscratch, hallocated, (@Workspace.Stored.same "" _ _ hfiles).settled, ?_⟩
  intro directory _ n _ data hdata
  rwa [Workspace.contentAt?_congr hfiles]

theorem kept_allocate (extension : String) : Keeps Kept (allocate extension) := by
  intro s
  cases hpath : s.context.scratch.path? with
  | none =>
    rw [left, allocate_of_none extension hpath]
    exact Std.Refl.refl s
  | some directory =>
    rw [left, allocate_of_some extension hpath]
    exact kept_of_sameFiles rfl (Nat.le_succ _) (Std.Refl.refl _)

theorem kept_access (path mode : String) : Keeps Kept (access path mode) := by
  intro s
  have hcount : (s.context.access path mode).allocated = s.context.allocated := by
    rw [BuildContext.access]
    split <;> rfl
  exact kept_of_sameFiles (reads_access path mode s).scratch (Nat.le_of_eq hcount.symm)
    (Std.Refl.refl _)

theorem kept_within {α : Type} {r : Run α} (hr : Run.Reads r) : Keeps Kept (within r) := by
  intro s
  have hcontext : (left (within r) s).context = s.context := by
    rw [left, within]
    cases r s.workspace <;> rfl
  exact kept_of_sameFiles (by rw [hcontext]) (by rw [hcontext]) (reads_within hr s).workspace

theorem kept_toData (source : Reference) : Keeps Kept (toData source) := by
  cases source with
  | data bytes => exact keeps_pure bytes
  | file path =>
    exact (kept_access path "rb").bind fun _ => kept_within (Run.reads_loadBytes _ path)

theorem allocate_eq {directory : String} (h : s.context.scratch.path? = some directory)
    (extension : String) :
    allocate extension s = .ok (grantedPath directory (s.context.allocated + 1) extension)
      ⟨{ s.context with allocated := s.context.allocated + 1 }, s.workspace⟩ := by
  rw [allocate_of_some extension h, grantedPath]

theorem toFile_eq (data : List UInt8) (s : BuildState) : toFile (.data data) s =
    (allocate ".tmp" >>= fun path =>
      within (Run.storeBytes data path) >>= fun _ => pure path : Build String) s := rfl

/-- Data goes to a file of the next number. -/
theorem toFile_of_ok {directory : String} {data : List UInt8} {w : Workspace}
    (h : s.context.scratch.path? = some directory)
    (hstored : Run.storeBytes data (grantedPath directory (s.context.allocated + 1) ".tmp") s.workspace =
      .ok () w) :
    toFile (.data data) s = .ok (grantedPath directory (s.context.allocated + 1) ".tmp")
      ⟨{ s.context with allocated := s.context.allocated + 1 }, w⟩ := by
  have hrun (c : BuildContext) :
      within (Run.storeBytes data (grantedPath directory (s.context.allocated + 1) ".tmp"))
        ⟨c, s.workspace⟩ = .ok () ⟨c, w⟩ := by
    rw [within, hstored]
  rw [toFile_eq, bind_of_ok (allocate_eq h ".tmp")]
  exact (bind_of_ok (hrun _)).trans rfl

/-- The number is taken also when the data cannot be stored. -/
theorem toFile_of_error {directory : String} {data : List UInt8} {f : Fault} {w : Workspace}
    (h : s.context.scratch.path? = some directory)
    (hfailed : Run.storeBytes data (grantedPath directory (s.context.allocated + 1) ".tmp") s.workspace =
      .error f w) :
    toFile (.data data) s =
      .error f ⟨{ s.context with allocated := s.context.allocated + 1 }, w⟩ := by
  rw [toFile_eq, bind_of_ok (allocate_eq h ".tmp")]
  exact bind_of_error (within_of_error hfailed)

theorem kept_toFile (data : List UInt8) : Keeps Kept (toFile (.data data)) := by
  intro s
  cases hpath : s.context.scratch.path? with
  | none =>
    have hfails : toFile (.data data) s = .error .contextInactive s :=
      bind_of_error (allocate_of_none ".tmp" hpath)
    rw [left, hfails]
    exact Std.Refl.refl s
  | some directory =>
    have hstored := Run.stored_storeBytes data (grantedPath directory (s.context.allocated + 1) ".tmp")
      s.workspace
    have hleft : left (toFile (.data data)) s =
        ⟨{ s.context with allocated := s.context.allocated + 1 }, left (Run.storeBytes data
          (grantedPath directory (s.context.allocated + 1) ".tmp")) s.workspace⟩ := by
      rw [left, left]
      cases hresult : Run.storeBytes data (grantedPath directory (s.context.allocated + 1) ".tmp") s.workspace with
      | ok _ w => rw [toFile_of_ok hpath hresult]
      | error f w => rw [toFile_of_error hpath hresult]
    rw [hleft]
    generalize left (Run.storeBytes data (grantedPath directory (s.context.allocated + 1) ".tmp")) s.workspace =
      w at hstored
    -- The data goes to the next number, so it is apart from the files of all numbers up to now.
    refine ⟨hstored.directory_eq, rfl, Nat.le_succ _, hstored.settled, ?_⟩
    intro directory' hdirectory n hn content hcontent
    cases hpath.symm.trans hdirectory
    exact hstored.contentAt? hcontent (Workspace.destination_ne _ directory (by omega))

theorem kept_use (use : Use) : Keeps Kept use.perform := by
  cases use with
  | allocate extension => exact (kept_allocate extension).map _
  | toFile data => exact (kept_toFile data).map _
  | toData source => exact (kept_toData source).map _
  | access path mode => exact (kept_access path mode).map _

/-- What is handed out bears the next number, and data is in its file then. -/
theorem grant_cases {use : Use} {g : Grant} {directory : String}
    (hactive : s.context.scratch.path? = some directory) (h : handed? use.perform s = some g) :
    (left use.perform s).context.allocated = s.context.allocated + 1 ∧
      ((∃ extension, use = .allocate extension ∧
          g = ⟨grantedPath directory (s.context.allocated + 1) extension, none⟩) ∨
        ∃ data, use = .toFile data ∧
          g = ⟨grantedPath directory (s.context.allocated + 1) ".tmp", some data⟩ ∧
          (left use.perform s).workspace.contentAt? (Path.withSlashes g.path) = some data ∧
          FileTree.hasNul (Path.withSlashes g.path) = false) := by
  obtain ⟨t, ht⟩ := ok_of_handed? h
  have hleft : left use.perform s = t := by rw [left, ht]
  rw [hleft]
  cases use with
  | allocate extension =>
    obtain ⟨path, hok, hg⟩ := ok_of_map ht
    rw [allocate_eq hactive extension] at hok
    cases hok
    cases hg
    exact ⟨rfl, .inl ⟨extension, rfl, rfl⟩⟩
  | toFile data =>
    obtain ⟨path, hok, hg⟩ := ok_of_map ht
    cases hresult : Run.storeBytes data (grantedPath directory (s.context.allocated + 1) ".tmp") s.workspace with
    | ok _ w =>
      rw [toFile_of_ok hactive hresult] at hok
      cases hok
      cases hg
      exact ⟨rfl, .inr ⟨data, rfl, rfl, Run.contentAt?_of_storeBytes hresult⟩⟩
    | error f w =>
      rw [toFile_of_error hactive hresult] at hok
      cases hok
  | toData source =>
    obtain ⟨_, -, hg⟩ := ok_of_map ht
    cases hg
  | access path mode =>
    obtain ⟨_, -, hg⟩ := ok_of_map ht
    cases hg

/-! ## What has been handed out -/

variable {uses : List Use} {g : Grant} {directory : String}

theorem number_of_handed? {use : Use} (hactive : s.context.scratch.path? = some directory)
    (hextension : ∀ e, use = .allocate e → BuildContext.IsExtension e)
    (h : handed? use.perform s = some g) :
    ∃ e, BuildContext.IsExtension e ∧
      g.path = grantedPath directory (s.context.allocated + 1) e := by
  obtain ⟨-, ⟨e, huse, rfl⟩ | ⟨data, -, rfl, -⟩⟩ := grant_cases hactive h
  · exact ⟨e, hextension e huse, rfl⟩
  · exact ⟨".tmp", .inr rfl, rfl⟩

/-- Whatever is handed out later bears a later number. -/
theorem number_of_mem_handed (hactive : s.context.scratch.path? = some directory)
    (hextensions : ∀ e, .allocate e ∈ uses → BuildContext.IsExtension e)
    (hg : g ∈ handed Use.perform s uses) :
    ∃ n e, s.context.allocated < n ∧ BuildContext.IsExtension e ∧
      g.path = grantedPath directory n e := by
  obtain ⟨before, use, behind, rfl, hhanded⟩ := exists_of_mem_handed hg
  have hkept : Kept s (after Use.perform s before) := related_after (fun use _ => kept_use use) s
  obtain ⟨e, he, hpath⟩ := number_of_handed? (hkept.scratch ▸ hactive)
    (fun e huse => hextensions e (by simp [huse])) hhanded
  exact ⟨_, e, Nat.lt_succ_of_le hkept.allocated, he, hpath⟩

theorem nodup_handed (hactive : s.context.scratch.path? = some directory)
    (hextensions : ∀ e, .allocate e ∈ uses → BuildContext.IsExtension e) :
    ((handed Use.perform s uses).map Grant.path).Nodup := by
  induction uses generalizing s with
  | nil => exact List.nodup_nil
  | cons use rest ih =>
    have hrest := fun e he => hextensions e (List.mem_cons_of_mem use he)
    have hactive' : (left use.perform s).context.scratch.path? = some directory :=
      (kept_use use s).scratch ▸ hactive
    rw [handed, List.map_append]
    cases hhanded : handed? use.perform s with
    | none => exact ih hactive' hrest
    | some first =>
      -- A path behind it would have a later number and be the same name.
      refine List.nodup_cons.mpr ⟨fun hmem => ?_, ih hactive' hrest⟩
      obtain ⟨g, hg, hpath⟩ := List.mem_map.mp hmem
      obtain ⟨n, e, hlater, he, hlast⟩ := number_of_mem_handed hactive' hrest hg
      obtain ⟨f, hf, hfirst⟩ := number_of_handed? hactive
        (fun e huse => hextensions e (huse ▸ List.mem_cons_self)) hhanded
      rw [hlast, hfirst] at hpath
      have hnumber := BuildContext.number_of_grantedPath he hf hpath
      have hcount := (grant_cases hactive hhanded).1
      omega

/-- Data that has been put into a file is there from then on. -/
theorem content_of_mem_handed (hactive : s.context.scratch.path? = some directory)
    (hg : g ∈ handed Use.perform s uses) {data : List UInt8} (hdata : g.data = some data) :
    (after Use.perform s uses).workspace.contentAt? (Path.withSlashes g.path) = some data ∧
      FileTree.hasNul (Path.withSlashes g.path) = false := by
  obtain ⟨before, use, behind, rfl, hhanded⟩ := exists_of_mem_handed hg
  have hbefore : Kept s (after Use.perform s before) := related_after (fun use _ => kept_use use) s
  have hbehind : Kept (left use.perform (after Use.perform s before))
      (after Use.perform (left use.perform (after Use.perform s before)) behind) :=
    related_after (fun use _ => kept_use use) _
  have hthere : (after Use.perform s before).context.scratch.path? = some directory :=
    hbefore.scratch ▸ hactive
  obtain ⟨hcount, ⟨e, rfl, rfl⟩ | ⟨data', rfl, rfl, hcontent, hnul⟩⟩ := grant_cases hthere hhanded
  · cases hdata
  · cases hdata
    rw [after_append]
    refine ⟨hbehind.content directory ?_ _ (Nat.le_of_eq hcount.symm) data hcontent, hnul⟩
    rw [(kept_use (.toFile data) _).scratch]
    exact hthere

theorem exists_toData {path : String} {data : List UInt8} {w : Workspace}
    (h : Run.loadBytes Search.here path s.workspace = .ok data w) :
    ∃ t, toData (.file path) s = .ok data t := by
  have hrun : toData (.file path) s = within (Run.loadBytes Search.here path)
      ⟨s.context.access path "rb", s.workspace⟩ := rfl
  rw [hrun, within, h]
  exact ⟨_, rfl⟩

/-- A step that has a directory. -/
structure Active where
  state : BuildState
  directory : String
  active : state.context.scratch.path? = some directory

def Active.isFromRoot (step : Active) : Bool := Path.isAbsolute (Path.withSlashes step.directory)

/-- The path that is loaded for a relative one is not too long. -/
def Active.IsNear (step : Active) (path : String) : Prop :=
  (Path.absolute step.state.workspace.directoryPath (Path.withSlashes path)).utf8ByteSize ≤
    FileTree.greatestPathSize

/-- The path gives the data back, in the step and outside of it. -/
def GivesBack (s : BuildState) (path : String) (data : List UInt8) : Prop :=
  (∃ t, toData (.file path) s = .ok data t) ∧
    ∃ w, (Reference.file path).load s.workspace = .ok data w

theorem givesBack_iff {path : String} {data : List UInt8} :
    GivesBack s path data ↔ s.workspace.Loads path data := by
  refine ⟨And.right, fun h => ⟨?_, h⟩⟩
  obtain ⟨w, hw⟩ := h
  exact exists_toData hw

/-- Whatever is done through a step while it has its directory, the paths that are handed out are
pairwise different. Data that a path was handed out for is loaded by that path if the directory is
named from the root; if it is named from a working directory whose own path is proper, with no
backslash in it, that is so as long as the path from the root is not too long. -/
theorem temporaries_kept (step : Active)
    (hextensions : ∀ e, .allocate e ∈ uses → BuildContext.IsExtension e) :
    ((handed Use.perform step.state uses).map Grant.path).Nodup ∧
      ∀ g ∈ handed Use.perform step.state uses, ∀ data, g.data = some data →
        (step.isFromRoot = true → GivesBack (after Use.perform step.state uses) g.path data) ∧
          (step.isFromRoot = false → step.state.workspace.Settled →
            (GivesBack (after Use.perform step.state uses) g.path data ↔ step.IsNear g.path)) := by
  refine ⟨nodup_handed step.active hextensions, fun g hg data hdata => ?_⟩
  obtain ⟨hcontent, hnul⟩ := content_of_mem_handed step.active hg hdata
  have hkept : Kept step.state (after Use.perform step.state uses) :=
    related_after (fun use _ => kept_use use) step.state
  have hroot : Path.isAbsolute (Path.withSlashes g.path) = step.isFromRoot := by
    obtain ⟨n, e, -, -, hpath⟩ := number_of_mem_handed step.active hextensions hg
    rw [hpath, BuildContext.isAbsolute_grantedPath, Active.isFromRoot]
  rw [givesBack_iff]
  refine ⟨fun habsolute => ?_, fun hrelative hsettled => ?_⟩
  · exact Workspace.loads_of_absolute hcontent hnul (hroot.trans habsolute)
  · rw [Workspace.loads_iff_of_relative (hkept.settled hsettled) hcontent hnul (hroot.trans hrelative),
      Active.IsNear, Workspace.directoryPath, Workspace.directoryPath, hkept.place]

def besideStep : Active := ⟨⟨.ofDirectory? (some "t"), freshWorkspace⟩, "t", rfl⟩

def rootStep : Active := ⟨⟨.ofDirectory? (some "/tmp"), freshWorkspace⟩, "/tmp", rfl⟩

def besideUses : List Use :=
  [.allocate ".o", .toFile [1, 2], .toFile [], .access "t/wf00002.tmp" "wb",
    .toData (.file "t/wf00003.tmp"), .allocate ".tmp"]

/-- The second use puts data into a file, which is loaded after the last. -/
theorem temporaries_kept_beside :
    GivesBack (after Use.perform besideStep.state besideUses) "t/wf00002.tmp" [1, 2] ∧
      GivesBack (after Use.perform rootStep.state besideUses) "/tmp/wf00002.tmp" [1, 2] := by
  have hextensions (e : String) (he : .allocate e ∈ besideUses) : BuildContext.IsExtension e := by
    have hcases : e = ".o" ∨ e = ".tmp" := by simpa [besideUses] using he
    exact hcases.elim (fun h => .inr (h ▸ rfl)) (fun h => .inr (h ▸ rfl))
  constructor
  · have hgrant : ⟨"t/wf00002.tmp", some [1, 2]⟩ ∈ handed Use.perform besideStep.state besideUses := by
      decide +kernel
    have hsettled : freshWorkspace.Settled := by
      refine ⟨by decide, by decide, fun n hn => ?_⟩
      cases List.mem_singleton.mp hn
      exact ⟨⟨by decide, by decide, by decide⟩, by decide, by decide, by decide⟩
    have hnear : besideStep.IsNear "t/wf00002.tmp" := by
      unfold Active.IsNear
      decide +kernel
    exact (((temporaries_kept besideStep hextensions).2 _ hgrant _ rfl).2 (by decide +kernel)
      hsettled).mpr hnear
  · have hgrant : ⟨"/tmp/wf00002.tmp", some [1, 2]⟩ ∈ handed Use.perform rootStep.state besideUses := by
      decide +kernel
    exact ((temporaries_kept rootStep hextensions).2 _ hgrant _ rfl).1 (by decide +kernel)

/-- A working directory with a backslash in its path. -/
def slantedWorkspace : Workspace :=
  ⟨⟨[(["x"], .directory), (["x", "a\\b"], .directory)]⟩, ["x", "a\\b"], [], "/tmp/wswantool", 0, .usual⟩

/-- There the data is in its file, and is not found when it is loaded. -/
theorem temporaries_lost :
    handed Use.perform ⟨.ofDirectory? (some "t"), slantedWorkspace⟩ [.toFile [1, 2]] =
        [⟨"t/wf00001.tmp", some [1, 2]⟩] ∧
      ¬ GivesBack (after Use.perform ⟨.ofDirectory? (some "t"), slantedWorkspace⟩ [.toFile [1, 2]])
        "t/wf00001.tmp" [1, 2] := by
  refine ⟨by decide +kernel, ?_⟩
  rintro ⟨⟨t, ht⟩, -⟩
  obtain ⟨f, u, hfails⟩ := exists_of_not_ends (r := toData (.file "t/wf00001.tmp") (after Use.perform
    ⟨.ofDirectory? (some "t"), slantedWorkspace⟩ [.toFile [1, 2]])) (by decide +kernel)
  cases hfails.symm.trans ht

end Build
end FirmwareKit
