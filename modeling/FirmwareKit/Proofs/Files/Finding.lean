import FirmwareKit.Proofs.Files.Inquiry
import FirmwareKit.Proofs.Files.Settled
import FirmwareKit.Proofs.Sequence
set_option autoImplicit false

namespace FirmwareKit

def FileTree.Entry.IsOf (e : FileTree.Entry) : Sought → Prop
  | .file => ∃ content, e = .file content
  | .directory => e = .directory

namespace Search
variable {w : Workspace} {kind : Sought} {s : Search} {path : String}

theorem isThere_iff : isThere w kind path = true ↔ FileTree.hasNul path = false ∧
    ∃ place e, w.tree.lookup? w.directory path = some (place, e) ∧ e.IsOf kind := by
  cases hlookup : w.tree.lookup? w.directory path with
  | none =>
    cases kind <;> simp [isThere, FileTree.hasFile, FileTree.hasDirectory, hlookup]
  | some found =>
    obtain ⟨place, e⟩ := found
    cases kind <;> cases e <;>
      simp [isThere, FileTree.hasFile, FileTree.hasDirectory, hlookup, FileTree.Entry.IsOf]

/-- What a search tries, and what it gives if that is there. -/
structure Candidate where
  tried : String
  given : String
deriving DecidableEq, Repr

def joined (directory path place : String) : String :=
  Path.absolute directory (Path.join (Path.withSlashes place) path)

/-- The candidates of a search in their order: an absolute path only; else the path joined to each
search path that is not empty, and then, if the working directory is searched, the path as it stands,
for which its normal form is given. -/
def tries (s : Search) (directory path : String) : List Candidate :=
  if Path.isAbsolute path then [⟨path, path⟩]
  else
    ((s.places.filter fun p => p ≠ "").map fun p =>
        ⟨joined directory path p, joined directory path p⟩) ++
      if s.inDirectory then [⟨path, Path.absolute directory path⟩] else []

/-- A working directory whose path has no backslash takes none into what is joined to it. -/
theorem fromBase_place (hdirectory : '\\' ∉ w.directoryPath.toList)
    (hrelative : Path.isAbsolute path = false) (hpath : '\\' ∉ path.toList) {p : String}
    (hne : p ≠ "") : Path.fromBase w.directoryPath path (some (Path.withSlashes p)) =
      joined w.directoryPath path p := by
  have hplace : Path.withSlashes p ≠ "" := by
    rw [Path.withSlashes]
    simpa using hne
  have hjoin {base rest : String} (hbase : '\\' ∉ base.toList) (hrest : '\\' ∉ rest.toList) :
      '\\' ∉ (Path.join base rest).toList := by
    rw [Path.join]
    split
    · exact hrest
    split <;> simp [hbase, hrest]
  have hnormal {q : String} (hq : '\\' ∉ q.toList) :
      '\\' ∉ (Path.absolute w.directoryPath q).toList := by
    rw [Path.absolute]
    refine Path.not_mem_normalize (by decide) (by decide) ?_
    split
    · exact hq
    · exact hjoin hdirectory hq
  rw [joined, Path.fromBase, if_neg (by rw [hrelative]; exact Bool.false_ne_true)]
  dsimp only
  rw [if_neg (by simpa using hplace), Path.withSlashes_eq_self]
  exact hnormal (hjoin (Path.backslash_not_mem_withSlashes p) hpath)

theorem candidates_eq (hdirectory : '\\' ∉ w.directoryPath.toList)
    (hrelative : Path.isAbsolute path = false) (hpath : '\\' ∉ path.toList) :
    s.candidates w path = (s.places.filter fun p => p ≠ "").map (joined w.directoryPath path) := by
  have hused : (s.places.filter fun p => !p.isEmpty) = s.places.filter fun p => p ≠ "" :=
    List.filter_congr fun p _ => Bool.eq_iff_iff.mpr (by simp)
  rw [candidates, usedPlaces, hused, List.map_map]
  refine List.map_congr_left fun p hp => ?_
  exact fromBase_place hdirectory hrelative hpath (by simpa using (List.mem_filter.mp hp).2)

/-- A search gives what belongs to the first of its candidates that is there. -/
theorem find?_eq (h : w.Settled) (kind : Sought) (s : Search) (path : String) :
    s.find? w kind path = ((s.tries w.directoryPath (Path.withSlashes path)).find? fun c =>
      isThere w kind c.tried).map Candidate.given := by
  have hpath := Path.backslash_not_mem_withSlashes path
  generalize hclean : Path.withSlashes path = clean at hpath
  rw [find?, hclean, tries]
  by_cases habsolute : Path.isAbsolute clean = true
  · rw [if_pos habsolute, if_pos habsolute]
    cases hthere : isThere w kind clean <;> simp [hthere]
  · have hrelative : Path.isAbsolute clean = false := Bool.eq_false_iff.mpr habsolute
    have hlast : (if s.inDirectory && isThere w kind clean then
        some (Path.fromBase w.directoryPath clean none) else none) =
        ((if s.inDirectory then [⟨clean, Path.absolute w.directoryPath clean⟩] else []).find?
          fun c => isThere w kind c.tried).map Candidate.given := by
      rw [Workspace.fromBase_eq h hrelative hpath, ← Workspace.absolute_eq h hrelative]
      cases s.inDirectory <;> cases hthere : isThere w kind clean <;> simp [hthere]
    rw [if_neg habsolute, if_neg habsolute, hlast,
      candidates_eq (Workspace.backslash_not_mem_directoryPath h) hrelative hpath, List.find?_append,
      List.find?_map, List.find?_map]
    simp only [Function.comp_def]
    cases (s.places.filter fun p => p ≠ "").find? fun p =>
        isThere w kind (joined w.directoryPath clean p) with
    | none => simp
    | some p => simp

theorem mem_tries {directory : String} {c : Candidate} (h : c ∈ s.tries directory path) :
    c = ⟨path, path⟩ ∧ Path.isAbsolute path = true ∨
      (∃ p, c = ⟨joined directory path p, joined directory path p⟩) ∨
      c = ⟨path, Path.absolute directory path⟩ ∧ Path.isAbsolute path = false := by
  rw [tries] at h
  split at h
  case isTrue habsolute => exact .inl ⟨List.mem_singleton.mp h, habsolute⟩
  case isFalse hnot =>
    rcases List.mem_append.mp h with h | h
    · obtain ⟨p, -, hp⟩ := List.mem_map.mp h
      exact .inr (.inl ⟨p, hp.symm⟩)
    · split at h
      case isFalse => cases h
      case isTrue => exact .inr (.inr ⟨List.mem_singleton.mp h, Bool.eq_false_iff.mpr hnot⟩)

theorem isAbsolute_joined (w : Workspace) (path place : String) :
    Path.isAbsolute (joined w.directoryPath path place) = true := by
  rw [joined]
  exact Path.isAbsolute_absolute w.isAbsolute_directoryPath _

/-- What a search gives is a path from the root that names what its candidate leads to. By that path
it is found again, if the path is not too long. -/
theorem given_of_there (h : w.Settled) {c : Candidate}
    (hc : c ∈ s.tries w.directoryPath path) (hthere : isThere w kind c.tried = true) :
    ∃ place e, w.tree.lookup? w.directory c.tried = some (place, e) ∧ e.IsOf kind ∧
      w.tree.Names c.given place e ∧
      (c.given.utf8ByteSize ≤ FileTree.greatestPathSize → isThere w kind c.given = true ∧
        w.tree.lookup? w.directory c.given = some (place, e)) := by
  obtain ⟨hnul, place, e, hlookup, hkind⟩ := isThere_iff.mp hthere
  have hsame (habsolute : Path.isAbsolute c.tried = true) : w.tree.Names c.tried place e := by
    obtain ⟨-, hway⟩ := FileTree.way_of_locate (FileTree.lookup?_eq_some_iff.mp hlookup)
    rw [if_pos habsolute] at hway
    exact ⟨habsolute, hway⟩
  refine ⟨place, e, hlookup, hkind, ?_⟩
  rcases mem_tries hc with ⟨rfl, habsolute⟩ | ⟨p, rfl⟩ | ⟨rfl, hrelative⟩
  · exact ⟨hsame habsolute, fun _ => ⟨hthere, hlookup⟩⟩
  · dsimp only at hsame hthere hlookup ⊢
    exact ⟨hsame (isAbsolute_joined w path p), fun _ => ⟨hthere, hlookup⟩⟩
  · dsimp only at hnul hlookup ⊢
    have hnames := Workspace.names_fromRoot h hlookup
    have hnul' := Workspace.hasNul_fromRoot h hnul
    rw [← Workspace.absolute_eq h hrelative] at hnames hnul'
    refine ⟨hnames, fun hfits => ?_⟩
    exact ⟨isThere_iff.mpr ⟨hnul', place, e, hnames.lookup? hfits, hkind⟩, hnames.lookup? hfits⟩

theorem kind_failure (w : Workspace) (s : Search) (path : String) :
    (s.failure w path).kind = .general := by
  rw [failure]
  split <;> rfl

end Search

namespace Run

theorem ending_find (kind : Sought) (s : Search) (path : String) (w : Workspace) :
    (find kind s path).ending w =
      ((s.find? w kind path).map .ok).getD (.error (s.failure w path)) := by
  rw [ending, find_eq]
  cases s.find? w kind path <;> rfl

theorem ending_findOrEmpty (kind : Sought) (s : Search) (path : String) (w : Workspace) :
    (findOrEmpty kind s path).ending w = .ok ((s.find? w kind path).getD "") :=
  Inquires.ending_bind (.pure _) (reads_find? kind s path) (ending_find? kind s path w)

/-- From a settled working directory, a search ends with the first of its candidates that is there:
it gives a path from the root that names the same entry, which is of the kind that is sought, and
which is found by that path unless the path is longer than any path may be. If no candidate is there,
the search fails with a fault of the general kind, or gives an empty text where nothing is to fail.
Backslashes count as slashes throughout. -/
theorem first_hit {w : Workspace} (h : w.Settled) (kind : Sought) (s : Search) (path : String) :
    (∃ c, First (fun c => Search.isThere w kind c.tried = true)
          (s.tries w.directoryPath (Path.withSlashes path)) c ∧
        (find kind s path).ending w = .ok c.given ∧
        (findOrEmpty kind s path).ending w = .ok c.given ∧
        ∃ place e, w.tree.lookup? w.directory c.tried = some (place, e) ∧ e.IsOf kind ∧
          w.tree.Names c.given place e ∧
          (c.given.utf8ByteSize ≤ FileTree.greatestPathSize →
            Search.isThere w kind c.given = true ∧
              w.tree.lookup? w.directory c.given = some (place, e))) ∨
      (∀ c ∈ s.tries w.directoryPath (Path.withSlashes path),
          Search.isThere w kind c.tried = false) ∧
        (∃ f, f.kind = .general ∧ (find kind s path).ending w = .error f) ∧
        (findOrEmpty kind s path).ending w = .ok "" := by
  rw [ending_find, ending_findOrEmpty, Search.find?_eq h]
  cases hfound : (s.tries w.directoryPath (Path.withSlashes path)).find?
      fun c => Search.isThere w kind c.tried with
  | some c =>
    have hfirst := (First.find?_eq_some_iff _ _ c).mp hfound
    exact .inl ⟨c, hfirst, rfl, rfl, Search.given_of_there h hfirst.mem hfirst.holds⟩
  | none =>
    refine .inr ⟨fun c hc => ?_, ⟨s.failure w path, Search.kind_failure w s path, rfl⟩, rfl⟩
    exact Bool.eq_false_iff.mpr (List.find?_eq_none.mp hfound c hc)

def shelves : Workspace :=
  ⟨⟨[(["work"], .directory), (["work", "a"], .directory), (["work", "b"], .directory),
    (["work", "b", "f"], .file [1])]⟩, ["work"], [], "/tmp", 0, .usual⟩

/-- The file is found in the second search path that is not empty, and a directory only in the working
directory. -/
theorem first_hit_shelves :
    (find .file ⟨true, ["", "a", "b\\"]⟩ "x\\..\\f").ending shelves = .ok "/work/b/f" ∧
      (find .directory ⟨true, ["a"]⟩ "b/../a").ending shelves = .ok "/work/a" := by
  have hsettled : shelves.Settled := by
    refine ⟨by decide, by decide, fun n hn => ?_⟩
    cases List.mem_singleton.mp hn
    exact ⟨⟨by decide, by decide, by decide⟩, by decide, by decide, by decide⟩
  constructor
  · rcases first_hit hsettled .file ⟨true, ["", "a", "b\\"]⟩ "x\\..\\f" with
      ⟨c, hfirst, hfind, -⟩ | ⟨hnone, -⟩
    · have hfound := (First.find?_eq_some_iff _ _ c).mpr hfirst
      obtain rfl : c = ⟨"/work/b/f", "/work/b/f"⟩ :=
        Option.some.inj (hfound.symm.trans (by decide +kernel))
      exact hfind
    · exact absurd (hnone ⟨"/work/b/f", "/work/b/f"⟩ (by decide +kernel)) (by decide +kernel)
  · rcases first_hit hsettled .directory ⟨true, ["a"]⟩ "b/../a" with
      ⟨c, hfirst, hfind, -⟩ | ⟨hnone, -⟩
    · have hfound := (First.find?_eq_some_iff _ _ c).mpr hfirst
      obtain rfl : c = ⟨"b/../a", "/work/a"⟩ :=
        Option.some.inj (hfound.symm.trans (by decide +kernel))
      exact hfind
    · exact absurd (hnone ⟨"b/../a", "/work/a"⟩ (by decide +kernel)) (by decide +kernel)

end Run
end FirmwareKit
