import FirmwareKit.Proofs.Files.Loading
import FirmwareKit.Proofs.Files.Parts
set_option autoImplicit false

/-!
# Files found from the root

A file that a relative path leads to is loaded from the root, by a path without dots. In a tree whose
entries stand in directories that is the same file, as long as the path of the working directory is
one of proper names and the path from the root is not too long.
-/
namespace FirmwareKit

namespace FileTree
variable {t : FileTree} {p q here : Place} {parts : List String} {target : Target} {e x : Entry}
  {content : List UInt8}

theorem Rooted.above (hrooted : t.Rooted) (hentry : t.entry? p = some e) (hq : q <+: p)
    (hne : q ≠ p) : t.entry? q = some .directory := by
  have hp : p ≠ [] := by
    rintro rfl
    exact hne (List.prefix_nil.mp hq)
  rw [entry?_of_ne_nil hp] at hentry
  obtain ⟨found, hfound, -⟩ := Option.map_eq_some_iff.mp hentry
  have heq : found.1 = p := by simpa using List.find?_some hfound
  subst heq
  exact hrooted found (List.mem_of_find?_eq_some hfound) q hq hne

theorem Rooted.dropLast (hrooted : t.Rooted) (hentry : t.entry? p = some .directory) :
    t.entry? p.dropLast = some .directory := by
  by_cases hp : p = []
  · subst hp
    rfl
  · refine hrooted.above hentry (List.dropLast_prefix p) fun heq => ?_
    have hlength := congrArg List.length heq
    have hpos := List.length_pos_iff.mpr hp
    rw [List.length_dropLast] at hlength
    omega

theorem mem_put {f : Place × Entry} (h : f ∈ (t.put p x).entries) : f = (p, x) ∨ f ∈ t.entries := by
  rw [put] at h
  split at h
  case isTrue =>
    obtain ⟨f', hf', rfl⟩ := List.mem_map.mp h
    split
    · exact .inl rfl
    · exact .inr hf'
  case isFalse => exact (List.mem_append.mp h).symm.imp_left List.mem_singleton.mp

/-- What is put into a directory stands in directories. -/
theorem Rooted.put (hrooted : t.Rooted) (hparent : t.entry? p.dropLast = some .directory)
    (hp : t.entry? p ≠ some .directory) : (t.put p x).Rooted := by
  intro f hf q hq hne
  have hold : t.entry? q = some .directory := by
    rcases mem_put hf with rfl | hf
    · have hq' : q <+: p.dropLast := by
        by_cases hnil : p = []
        · subst hnil
          exact hq
        · rw [← List.dropLast_concat_getLast hnil, List.prefix_concat_iff,
            List.dropLast_concat_getLast hnil] at hq
          exact hq.resolve_left hne
      by_cases hlast : q = p.dropLast
      · exact hlast ▸ hparent
      · exact hrooted.above hparent hq' hlast
    · exact hrooted f hf q hq hne
  have hother : q ≠ p := fun heq => hp (heq ▸ hold)
  rw [entry?_put_of_ne hother, hold]

theorem Way.parent (hrooted : t.Rooted) (hhere : t.entry? here = some .directory)
    (h : Way t here parts target) (hfree : t.entry? target.place ≠ some .directory) :
    t.entry? target.place.dropLast = some .directory := by
  induction h with
  | here => exact absurd hhere hfree
  | stay _ _ ih => exact ih hhere hfree
  | up _ ih => exact ih (hrooted.dropLast hhere) hfree
  | enter _ hentry _ ih => exact ih hentry hfree
  | file => rwa [Target.place, List.dropLast_concat]
  | free => rwa [Target.place, List.dropLast_concat]

/-- A walk in directories ends at what it has found there. -/
theorem Way.entry? (hrooted : t.Rooted) (hhere : t.entry? here = some .directory)
    (h : Way t here parts target) (htarget : target = .present p e) : t.entry? p = some e := by
  induction h with
  | here =>
    cases htarget
    exact hhere
  | stay _ _ ih => exact ih hhere htarget
  | up _ ih => exact ih (hrooted.dropLast hhere) htarget
  | enter _ hentry _ ih => exact ih hentry htarget
  | file _ hentry =>
    cases htarget
    exact hentry
  | free => cases htarget

theorem Way.names (h : Way t here parts target) (hhere : ∀ n ∈ here, IsName n) :
    ∀ n ∈ target.place, IsName n := by
  have hnext {here : Place} {part : String} (hhere : ∀ n ∈ here, IsName n) (hpart : IsName part) :
      ∀ n ∈ here ++ [part], IsName n :=
    List.forall_mem_append.mpr ⟨hhere, List.forall_mem_singleton.mpr hpart⟩
  induction h with
  | here => exact hhere
  | stay _ _ ih => exact ih hhere
  | up _ ih => exact ih fun n hn => hhere n (List.mem_of_mem_dropLast hn)
  | enter hname _ _ ih => exact ih (hnext hhere hname)
  | file hname => exact hnext hhere hname
  | free hname => exact hnext hhere hname

/-- An entry is walked to from the root by its place. -/
theorem Way.of_place (hrooted : t.Rooted) (hentry : t.entry? (here ++ parts) = some e)
    (hhere : t.entry? here = some .directory) (hnames : ∀ n ∈ parts, IsName n) :
    Way t here parts (.present (here ++ parts) e) := by
  induction parts generalizing here with
  | nil =>
    rw [List.append_nil, hhere] at hentry
    cases hentry
    rw [List.append_nil]
    exact .here here
  | cons part rest ih =>
    obtain ⟨hname, hrest⟩ := List.forall_mem_cons.mp hnames
    have hnext : here ++ part :: rest = (here ++ [part]) ++ rest := by simp
    rw [hnext] at hentry ⊢
    -- What is below the first part makes it a directory; it may be a file only where the way ends.
    by_cases hlast : rest = [] ∧ e ≠ .directory
    · obtain ⟨rfl, hfile⟩ := hlast
      rw [List.append_nil] at hentry ⊢
      cases e with
      | directory => exact absurd rfl hfile
      | file content => exact .file hname hentry
    · have hdirectory : t.entry? (here ++ [part]) = some .directory := by
        cases rest with
        | nil =>
          obtain rfl : e = .directory := by simpa using hlast
          rwa [List.append_nil] at hentry
        | cons next rest => exact hrooted.above hentry (List.prefix_append _ _) (by simp)
      exact .enter hname hdirectory (ih hentry hdirectory hrest)

theorem collapse_eq_destination {stack : List String} (hstack : ∀ n ∈ stack, n ≠ "..")
    (parts : List String) :
    Path.collapse true stack parts = destination stack.reverse parts := by
  induction parts generalizing stack with
  | nil => rfl
  | cons part rest ih =>
    rw [Path.collapse.eq_def, destination]
    dsimp only
    split
    · exact ih hstack
    split
    · cases stack with
      | nil => exact ih (List.forall_mem_nil _)
      | cons top below =>
        obtain ⟨htop, hbelow⟩ := List.forall_mem_cons.mp hstack
        rw [List.reverse_cons, List.dropLast_concat]
        dsimp only
        rw [if_neg htop]
        exact ih hbelow
    · rename_i hup
      rw [← List.reverse_cons]
      exact ih (List.forall_mem_cons.mpr ⟨hup, hstack⟩)

theorem destination_of_names {names : List String} (hnames : ∀ n ∈ names, IsName n) :
    destination here names = here ++ names := by
  induction names generalizing here with
  | nil => exact (List.append_nil here).symm
  | cons n ns ih =>
    obtain ⟨hn, hns⟩ := List.forall_mem_cons.mp hnames
    rw [destination_of_name hn, ih hns, List.append_assoc, List.singleton_append]

theorem mem_of_mem_destination {n : String} (h : n ∈ destination here parts) :
    n ∈ here ∨ n ∈ parts := by
  induction parts generalizing here with
  | nil => exact .inl h
  | cons part rest ih =>
    rw [destination] at h
    split at h
    · exact (ih h).imp_right (List.mem_cons_of_mem part)
    split at h
    · exact (ih h).imp List.mem_of_mem_dropLast (List.mem_cons_of_mem part)
    · rcases ih h with h | h
      · rcases List.mem_append.mp h with h | h
        · exact .inl h
        · exact .inr (List.mem_cons.mpr (.inl (List.mem_singleton.mp h)))
      · exact .inr (List.mem_cons_of_mem part h)

end FileTree

namespace Workspace
variable {w w' : Workspace} {path : String} {data : List UInt8}

/-- A working directory that stands in a rooted tree and whose path is one of proper names. -/
structure Settled (w : Workspace) : Prop where
  rooted : w.tree.Rooted
  directory : w.tree.entry? w.directory = some .directory
  names : ∀ n ∈ w.directory, FileTree.IsName n ∧ '/' ∉ n.toList ∧ '\\' ∉ n.toList ∧
    '\x00' ∉ n.toList

theorem Settled.put (h : w.Settled) {target : FileTree.Target} {x : FileTree.Entry}
    (hlocate : w.tree.locate w.directory path = .ok target)
    (hplace : w.tree.entry? target.place ≠ some .directory) :
    (w.withTree (w.tree.put target.place x)).Settled := by
  have hstart : w.tree.entry? (if Path.isAbsolute path = true then [] else w.directory) =
      some .directory := by
    split
    · rfl
    · exact h.directory
  have hparent := (FileTree.way_of_locate hlocate).2.parent h.rooted hstart hplace
  have hother : w.directory ≠ target.place := fun heq => hplace (heq ▸ h.directory)
  exact ⟨h.rooted.put hparent hplace, (FileTree.entry?_put_of_ne hother x).trans h.directory, h.names⟩

/-- To store a file leaves the working directory settled. -/
theorem Stored.settled (h : Stored path w w') (hsettled : w.Settled) : w'.Settled := by
  induction h with
  | same h =>
    exact ⟨h.tree ▸ hsettled.rooted, by rw [h.tree, h.directory]; exact hsettled.directory,
      h.directory ▸ hsettled.names⟩
  | directory hlocate =>
    have hfree : FileTree.entry? _ _ = none := (FileTree.way_of_locate hlocate).2.found
    exact hsettled.put hlocate (by rw [FileTree.Target.place, hfree]; exact (Option.some_ne_none _).symm)
  | file hlocate hadmits =>
    exact hsettled.put hlocate ((FileTree.way_of_locate hlocate).2.found.not_directory hadmits).2
  | trans _ _ ih ih' => exact ih' (ih hsettled)

theorem mem_of_mem_destination {n : String} (h : n ∈ w.destination path) :
    n ∈ w.directory ∨ n ∈ Path.parts path := by
  refine (FileTree.mem_of_mem_destination h).imp_left fun h => ?_
  rw [start] at h
  split at h
  · cases h
  · exact h

theorem not_mem_destination {c : Char} (hc : c ≠ '/') (hdirectory : ∀ n ∈ w.directory, c ∉ n.toList)
    (hpath : c ∉ path.toList) : c ∉ ("/" ++ Path.ofParts (w.destination path)).toList := by
  rw [String.toList_append, List.mem_append, not_or]
  refine ⟨by simpa using hc, Text.not_mem_intercalate (by simpa using hc) fun n hn hmem => ?_⟩
  rcases mem_of_mem_destination hn with hn | hn
  · exact hdirectory n hn hmem
  · exact hpath (Path.mem_of_mem_part hn hmem).1

theorem isAbsolute_directoryPath (w : Workspace) : Path.isAbsolute w.directoryPath = true := by
  rw [directoryPath]
  exact Path.isAbsolute_slash _

theorem backslash_not_mem_directoryPath (h : w.Settled) : '\\' ∉ w.directoryPath.toList := by
  rw [directoryPath, String.toList_append, List.mem_append, not_or]
  exact ⟨by decide, Text.not_mem_intercalate (by decide) fun n hn => (h.names n hn).2.2.1⟩

theorem parts_directoryPath (h : w.Settled) (hne : w.directory ≠ []) :
    Path.parts w.directoryPath = "" :: w.directory := by
  rw [directoryPath, Path.parts_slash, Path.parts_ofParts hne fun n hn => (h.names n hn).2.1]

theorem parts_join_directoryPath (h : w.Settled) (hrelative : Path.isAbsolute path = false) :
    Path.parts (Path.join w.directoryPath path) = "" :: (w.directory ++ Path.parts path) := by
  by_cases hroot : w.directory = []
  · have hslash : Path.join "/" path = "/" ++ path := by
      rw [Path.join, if_neg (by rw [hrelative]; exact Bool.false_ne_true)]
      rfl
    have hpath : w.directoryPath = "/" := by rw [directoryPath, hroot]; rfl
    rw [hpath, hslash, Path.parts_slash, hroot, List.nil_append]
  have hbase := parts_directoryPath h hroot
  rw [Path.join_eq w.directoryPath hrelative]
  rcases Path.stem_cases w.directoryPath with ⟨hempty, -⟩ | ⟨before, hstem, hbefore | rfl⟩
  · rw [hempty] at hbase
    exact absurd (List.cons.inj hbase).2.symm hroot
  · -- The last name would be empty.
    rw [hbefore, ← String.append_empty (s := before ++ "/"), Path.parts_append_slash] at hbase
    have hlast : ("" : String) ∈ w.directory := by
      cases hparts : Path.parts before with
      | nil => exact absurd hparts (Path.parts_ne_nil before)
      | cons first rest =>
        rw [hparts, List.cons_append] at hbase
        rw [← (List.cons.inj hbase).2]
        exact List.mem_append_right _ List.mem_cons_self
    exact absurd (.inl rfl) (h.names _ hlast).1.not_blank
  · rw [hstem, Path.parts_append_slash, hbase, List.cons_append]

/-- There is one slash before the path of the working directory, and none before its first name. -/
theorem join_directoryPath (h : w.Settled) (hrelative : Path.isAbsolute path = false) :
    ∃ rest, Path.join w.directoryPath path = "/" ++ rest ∧ Path.isAbsolute rest = false := by
  rw [Path.join_eq w.directoryPath hrelative, directoryPath]
  by_cases hroot : w.directory = []
  · exact ⟨path, by rw [hroot]; rfl, hrelative⟩
  obtain ⟨n, ns, hdirectory⟩ := List.exists_cons_of_ne_nil hroot
  obtain ⟨hname, hslash, -, -⟩ := h.names n (hdirectory ▸ List.mem_cons_self)
  have hne : n ≠ "" := fun heq => hname.not_blank (.inl heq)
  obtain ⟨after, hafter⟩ : ∃ after, Path.ofParts w.directory = n ++ after := by
    rw [hdirectory, Path.ofParts]
    cases ns with
    | nil => exact ⟨"", by rw [String.intercalate_singleton, String.append_empty]⟩
    | cons m ms => exact ⟨_, by rw [String.intercalate_cons_cons, String.append_assoc]⟩
  have hfirst (more : String) : Path.isAbsolute (n ++ more) = false := by
    rw [Path.isAbsolute_append_of_ne hne, Path.isAbsolute, beq_eq_false_iff_ne]
    exact fun hhead => hslash (List.mem_of_mem_head? hhead)
  rw [Path.stem]
  split
  · exact ⟨n ++ (after ++ path), by rw [hafter]; simp only [String.append_assoc], hfirst _⟩
  · exact ⟨n ++ (after ++ ("/" ++ path)), by rw [hafter]; simp only [String.append_assoc], hfirst _⟩

/-- The path from the root to where a relative path leads. -/
theorem absolute_eq (h : w.Settled) (hrelative : Path.isAbsolute path = false) :
    Path.absolute w.directoryPath path = "/" ++ Path.ofParts (w.destination path) := by
  have hnot : ¬ Path.isAbsolute path = true := by rw [hrelative]; exact Bool.false_ne_true
  obtain ⟨rest, hjoin, hrest⟩ := join_directoryPath h hrelative
  have habsolute : Path.isAbsolute (Path.join w.directoryPath path) = true :=
    hjoin ▸ Path.isAbsolute_slash rest
  have hcollapse : Path.collapse true [] (Path.parts (Path.join w.directoryPath path)) =
      w.destination path := by
    rw [FileTree.collapse_eq_destination (List.forall_mem_nil _), parts_join_directoryPath h hrelative,
      List.reverse_nil, FileTree.destination_of_blank (.inl rfl), FileTree.destination_append,
      FileTree.destination_of_names fun n hn => (h.names n hn).1, List.nil_append, destination, start,
      if_neg hnot]
  rw [Path.absolute, if_neg hnot, Path.normalize_of_absolute habsolute, hcollapse, hjoin,
    Path.leadingSlashes_slash hrest]
  rfl

/-- The path from the root that a relative path is loaded by. -/
theorem fromBase_eq (h : w.Settled) (hrelative : Path.isAbsolute path = false)
    (hslashes : '\\' ∉ path.toList) :
    Path.fromBase w.directoryPath path none = "/" ++ Path.ofParts (w.destination path) := by
  have hnot : ¬ Path.isAbsolute path = true := by rw [hrelative]; exact Bool.false_ne_true
  obtain ⟨rest, hjoin, -⟩ := join_directoryPath h hrelative
  have habsolute : Path.isAbsolute (Path.join w.directoryPath path) = true :=
    hjoin ▸ Path.isAbsolute_slash rest
  have hfrom : Path.fromBase w.directoryPath path none =
      Path.withSlashes (Path.absolute w.directoryPath path) := by
    rw [Path.fromBase, if_neg hnot, Path.absolute, if_neg hnot]
    exact congrArg (fun p => Path.withSlashes (Path.normalize p)) (if_pos habsolute)
  rw [hfrom, absolute_eq h hrelative, Path.withSlashes_eq_self]
  exact not_mem_destination (by decide) (fun n hn => (h.names n hn).2.2.1) hslashes

theorem hasNul_fromRoot (h : w.Settled) (hnul : FileTree.hasNul path = false) :
    FileTree.hasNul ("/" ++ Path.ofParts (w.destination path)) = false := by
  rw [FileTree.hasNul, List.contains_eq_mem, decide_eq_false_iff_not] at hnul ⊢
  exact not_mem_destination (by decide) (fun n hn => (h.names n hn).2.2.2) hnul

theorem slash_not_mem_destination (h : w.Settled) (path : String) :
    ∀ n ∈ w.destination path, '/' ∉ n.toList := by
  intro n hn
  rcases mem_of_mem_destination hn with hn | hn
  · exact (h.names n hn).2.1
  · exact fun hmem => (Path.mem_of_mem_part hn hmem).2 rfl

/-- What a path leads to is named from the root by where it stands. -/
theorem names_fromRoot (h : w.Settled) {place : Place} {e : FileTree.Entry}
    (hlookup : w.tree.lookup? w.directory path = some (place, e)) :
    w.tree.Names ("/" ++ Path.ofParts (w.destination path)) place e := by
  have hlocated := FileTree.lookup?_eq_some_iff.mp hlookup
  obtain ⟨-, hway⟩ := FileTree.way_of_locate hlocated
  have hplace : place = w.destination path := place_of_locate hlocated
  have hstart : w.tree.entry? (if Path.isAbsolute path = true then [] else w.directory) =
      some .directory := by
    split
    · rfl
    · exact h.directory
  have hentry : w.tree.entry? place = some e := hway.entry? h.rooted hstart rfl
  have hnames : ∀ n ∈ place, FileTree.IsName n := by
    refine hway.names fun n hn => ?_
    split at hn
    · cases hn
    · exact (h.names n hn).1
  have hdirect : w.tree.Way [] place (.present place e) := .of_place h.rooted hentry rfl hnames
  refine ⟨Path.isAbsolute_slash _, ?_⟩
  rw [Path.parts_slash, ← hplace]
  by_cases hroot : place = []
  · -- The root has a last part of its own, which is empty.
    subst hroot
    exact .stay (.inl rfl) (.stay (.inl rfl) hdirect)
  · rw [Path.parts_ofParts hroot (hplace ▸ slash_not_mem_destination h path)]
    exact .stay (.inl rfl) hdirect

/-- A file is found from the root by where its path leads, if that is not too far from the root. -/
theorem contentAt?_fromRoot_iff (h : w.Settled) (hcontent : w.contentAt? path = some data) :
    w.contentAt? ("/" ++ Path.ofParts (w.destination path)) = some data ↔
      ("/" ++ Path.ofParts (w.destination path)).utf8ByteSize ≤ FileTree.greatestPathSize := by
  have hlookup := FileTree.lookup?_eq_some_iff.mpr (contentAt?_eq_some_iff.mp hcontent)
  constructor
  · intro hfound
    exact (FileTree.way_of_locate (contentAt?_eq_some_iff.mp hfound)).1.fits
  · intro hfits
    rw [contentAt?, (names_fromRoot h hlookup).lookup? hfits]

/-- A file that a path from the root leads to is loaded by that path. -/
theorem loads_of_absolute (hcontent : w.contentAt? (Path.withSlashes path) = some data)
    (hnul : FileTree.hasNul (Path.withSlashes path) = false)
    (habsolute : Path.isAbsolute (Path.withSlashes path) = true) : w.Loads path data := by
  rw [loads_iff, Search.find?, if_pos habsolute, if_pos (Search.isThere_of_contentAt? hcontent hnul)]
  exact ⟨_, rfl, hnul, hcontent⟩

/-- A file that a relative path leads to is loaded by its path from the root, if that is not too
long. -/
theorem loads_iff_of_relative (h : w.Settled)
    (hcontent : w.contentAt? (Path.withSlashes path) = some data)
    (hnul : FileTree.hasNul (Path.withSlashes path) = false)
    (hrelative : Path.isAbsolute (Path.withSlashes path) = false) : w.Loads path data ↔
      (Path.absolute w.directoryPath (Path.withSlashes path)).utf8ByteSize ≤
        FileTree.greatestPathSize := by
  have hnone : (Search.here.candidates w (Path.withSlashes path)).find? (Search.isThere w .file) =
      none := rfl
  have hfind : Search.here.find? w .file path =
      some ("/" ++ Path.ofParts (w.destination (Path.withSlashes path))) := by
    rw [Search.find?, if_neg (by rw [hrelative]; exact Bool.false_ne_true), hnone,
      Search.isThere_of_contentAt? hcontent hnul,
      fromBase_eq h hrelative (Path.backslash_not_mem_withSlashes path)]
    rfl
  rw [absolute_eq h hrelative, ← contentAt?_fromRoot_iff h hcontent, loads_iff, hfind]
  constructor
  · rintro ⟨p, hp, -, hfound⟩
    cases hp
    exact hfound
  · exact fun hfound => ⟨_, rfl, hasNul_fromRoot h hnul, hfound⟩

end Workspace
end FirmwareKit
