import FirmwareKit.Proofs.Files.Loading
import FirmwareKit.Proofs.Files.Parts
import Mathlib.Data.List.TakeWhile
set_option autoImplicit false

namespace FirmwareKit

namespace Path
variable {path : String}

theorem splitLast_append (path : String) :
    (splitLast path).1 ++ (splitLast path).2 = path.toList := by
  rw [splitLast, ← List.reverse_append, List.takeWhile_append_dropWhile, List.reverse_reverse]

theorem mem_of_mem_parent {c : Char} (h : c ∈ (parent path).toList) : c ∈ path.toList := by
  have hhead : c ∈ (splitLast path).1 := by
    rw [parent, String.toList_ofList] at h
    split at h
    · exact h
    · exact List.mem_reverse.mp ((List.dropWhile_suffix _).subset (List.mem_reverse.mp h))
  rw [← splitLast_append]
  exact List.mem_append_left _ hhead

theorem parent_empty : parent "" = "" := by decide +kernel

/-- What comes before the last name is nothing or ends with a slash. -/
theorem splitLast_cases (path : String) :
    (splitLast path).1 = [] ∨ ∃ before, (splitLast path).1 = before ++ ['/'] := by
  have hfirst := List.head?_dropWhile_not (· ≠ '/') path.toList.reverse
  rw [splitLast]
  cases hdrop : path.toList.reverse.dropWhile (· ≠ '/') with
  | nil => exact .inl rfl
  | cons c before =>
    rw [hdrop] at hfirst
    obtain rfl : c = '/' := by simpa using hfirst
    exact .inr ⟨before.reverse, List.reverse_cons⟩

/-- Slashes at the end may be dropped up to one. -/
theorem dropSlashes_append (before : List Char) : ∃ slashes,
    before ++ ['/'] = ((before ++ ['/']).reverse.dropWhile (· = '/')).reverse ++ '/' :: slashes := by
  have hall : ∀ c ∈ before.reverse.takeWhile (· = '/'), c = '/' := fun c hc => by
    simpa using List.mem_takeWhile_imp hc
  refine ⟨before.reverse.takeWhile (· = '/'), ?_⟩
  have hslashes := List.eq_replicate_of_mem hall
  have hsplit : before = (before.reverse.dropWhile (· = '/')).reverse ++
      (before.reverse.takeWhile (· = '/')).reverse := by
    rw [← List.reverse_append, List.takeWhile_append_dropWhile, List.reverse_reverse]
  rw [List.reverse_concat, List.dropWhile_cons_of_pos (by simp)]
  conv_lhs => rw [hsplit]
  rw [hslashes, List.reverse_replicate, List.append_assoc, ← List.replicate_succ',
    List.replicate_succ]

/-- A parent is made of slashes alone, or a slash comes behind it. -/
theorem parent_cases (path : String) :
    (∀ c ∈ (parent path).toList, c = '/') ∧ (∃ rest, path = parent path ++ rest) ∨
      ∃ rest, path = parent path ++ "/" ++ rest := by
  have hpath := splitLast_append path
  rw [parent]
  split
  case isTrue hall =>
    refine .inl ⟨by simpa using hall, String.ofList (splitLast path).2, ?_⟩
    rw [← String.toList_inj, ← hpath]
    simp
  case isFalse hall =>
    rcases splitLast_cases path with hnone | ⟨before, hbefore⟩
    · rw [hnone] at hall
      exact absurd rfl hall
    · obtain ⟨slashes, hslashes⟩ := dropSlashes_append before
      refine .inr ⟨String.ofList (slashes ++ (splitLast path).2), ?_⟩
      rw [hbefore, hslashes] at hpath
      rw [hbefore, ← String.toList_inj, ← hpath]
      simp

theorem size_parent_le (path : String) : (parent path).utf8ByteSize ≤ path.utf8ByteSize := by
  obtain ⟨rest, hpath⟩ : ∃ rest, path = parent path ++ rest := by
    rcases parent_cases path with ⟨-, hpath⟩ | ⟨rest, hpath⟩
    · exact hpath
    · exact ⟨"/" ++ rest, by rw [← String.append_assoc]; exact hpath⟩
  have hsize := congrArg String.utf8ByteSize hpath
  rw [String.utf8ByteSize_append] at hsize
  omega

end Path

namespace FileTree
variable {t : FileTree} {p here directory : Place} {parts rest : List String} {path : String}

/-- A way to a directory has led to a directory before. -/
theorem Way.before (h : Way t here (parts ++ rest) (.present p .directory)) :
    ∃ q, Way t here parts (.present q .directory) := by
  induction parts generalizing here with
  | nil => exact ⟨here, .here here⟩
  | cons part parts ih =>
    rw [List.cons_append] at h
    generalize hafter : parts ++ rest = after at h
    cases h with
    | stay hblank tail => exact (ih (hafter ▸ tail)).imp fun q hq => .stay hblank hq
    | up tail => exact (ih (hafter ▸ tail)).imp fun q hq => .up hq
    | enter hname hentry tail => exact (ih (hafter ▸ tail)).imp fun q hq => .enter hname hentry hq

theorem locate_parent (hparent : Path.parent path ≠ "")
    (h : t.locate directory path = .ok (.present p .directory)) :
    ∃ q, t.locate directory (Path.parent path) = .ok (.present q .directory) := by
  obtain ⟨husable, hway⟩ := way_of_locate h
  have hparent' : IsUsable (Path.parent path) :=
    ⟨hparent, (Path.size_parent_le path).trans husable.fits⟩
  rcases Path.parent_cases path with ⟨hslashes, -⟩ | ⟨rest, hpath⟩
  · refine ⟨[], locate_of_way hparent' ?_⟩
    have habsolute : Path.isAbsolute (Path.parent path) = true := by
      obtain ⟨c, rest, hlist⟩ := List.exists_cons_of_ne_nil
        (mt String.toList_eq_nil_iff.mp hparent)
      rw [Path.isAbsolute, hlist, hslashes c (hlist ▸ List.mem_cons_self)]
      rfl
    rw [if_pos habsolute]
    refine .blank t [] (List.all_eq_true.mpr fun part hpart => ?_)
    -- A part has no slashes, and there are no other characters.
    rw [beq_iff_eq, ← String.toList_eq_nil_iff, List.eq_nil_iff_forall_not_mem]
    intro c hc
    obtain ⟨hmem, hne⟩ := Path.mem_of_mem_part hpart hc
    exact hne (hslashes c hmem)
  · have hstart : Path.isAbsolute path = Path.isAbsolute (Path.parent path) := by
      conv_lhs => rw [hpath, String.append_assoc]
      exact Path.isAbsolute_append_of_ne hparent _
    have hparts : Path.parts path = Path.parts (Path.parent path) ++ Path.parts rest := by
      conv_lhs => rw [hpath, Path.parts_append_slash]
    rw [hstart, hparts] at hway
    obtain ⟨q, hq⟩ := hway.before
    exact ⟨q, locate_of_way hparent' hq⟩

theorem hasDirectory_iff : t.hasDirectory directory path = true ↔
    hasNul path = false ∧ ∃ q, t.locate directory path = .ok (.present q .directory) := by
  rw [hasDirectory, Bool.and_eq_true, Bool.not_eq_true']
  refine and_congr_right fun _ => ?_
  constructor
  · intro h
    split at h
    case h_1 q hlookup => exact ⟨q, lookup?_eq_some_iff.mp hlookup⟩
    case h_2 => cases h
  · rintro ⟨q, hlocate⟩
    rw [lookup?_eq_some_iff.mpr hlocate]

theorem hasNul_parent (h : hasNul path = false) : hasNul (Path.parent path) = false := by
  rw [hasNul, List.contains_eq_mem, decide_eq_false_iff_not] at h ⊢
  exact mt Path.mem_of_mem_parent h

theorem hasDirectory_parent (hparent : Path.parent path ≠ "")
    (h : t.hasDirectory directory path = true) :
    t.hasDirectory directory (Path.parent path) = true := by
  obtain ⟨hnul, q, hlocate⟩ := hasDirectory_iff.mp h
  exact hasDirectory_iff.mpr ⟨hasNul_parent hnul, locate_parent hparent hlocate⟩

theorem exists?_of_hasDirectory (h : t.hasDirectory directory path = true) :
    t.exists? directory path = true := by
  obtain ⟨hnul, q, hlocate⟩ := hasDirectory_iff.mp h
  rw [exists?, hnul, lookup?_eq_some_iff.mpr hlocate]
  rfl

end FileTree

/-- A directory stays where a file is stored. -/
theorem Workspace.Stored.hasDirectory {w w' : Workspace} {path other : String}
    (h : Stored path w w') (hdirectory : w.tree.hasDirectory w.directory other = true) :
    w'.tree.hasDirectory w'.directory other = true := by
  obtain ⟨hnul, q, hlocate⟩ := FileTree.hasDirectory_iff.mp hdirectory
  obtain ⟨hpath, hway⟩ := FileTree.way_of_locate hlocate
  rw [h.directory_eq]
  exact FileTree.hasDirectory_iff.mpr
    ⟨hnul, q, FileTree.locate_of_way hpath (hway.directory_of_directories h.directories)⟩

namespace Run
variable {w : Workspace} {path : String}

theorem makeDirectory_of_directory (h : w.tree.hasDirectory w.directory path = true) :
    makeDirectory path w = .error (.system (.alreadyExists path)) w := by
  obtain ⟨hnul, q, hlocate⟩ := FileTree.hasDirectory_iff.mp h
  rw [makeDirectory, bind_of_ok (locate_of_ok hnul hlocate)]
  rfl

theorem hasNul_splitTail (h : FileTree.hasNul path = false) :
    FileTree.hasNul (splitTail path).1 = false := by
  rw [splitTail]
  split
  · exact FileTree.hasNul_parent (FileTree.hasNul_parent h)
  · exact FileTree.hasNul_parent h

/-- The directory around one that is there is there as well. -/
theorem hasDirectory_splitTail (h : w.tree.hasDirectory w.directory path = true)
    (hhead : (splitTail path).1 ≠ "") :
    w.tree.hasDirectory w.directory (splitTail path).1 = true := by
  rw [splitTail] at hhead ⊢
  split at hhead
  case isTrue hname =>
    rw [if_pos hname]
    dsimp only at hhead ⊢
    have hparent : Path.parent path ≠ "" := fun hnone => hhead (by rw [hnone, Path.parent_empty])
    exact FileTree.hasDirectory_parent hhead (FileTree.hasDirectory_parent hparent h)
  case isFalse hname =>
    rw [if_neg hname]
    exact FileTree.hasDirectory_parent hhead h

/-- Nothing is to be made where there is a directory. -/
theorem makeDirectories_of_directory (h : w.tree.hasDirectory w.directory path = true) :
    makeDirectories path w = .ok () w := by
  have hthere : ¬ (!(splitTail path).1.isEmpty && !(splitTail path).2.isEmpty &&
      !w.tree.exists? w.directory (splitTail path).1) = true := by
    by_cases hhead : (splitTail path).1 = ""
    · simp [hhead]
    · simp [FileTree.exists?_of_hasDirectory (hasDirectory_splitTail h hhead)]
  rw [makeDirectories, makeDirectoriesWithin]
  dsimp only
  rw [get_bind, if_neg hthere, tryCatch_of_error (makeDirectory_of_directory h), get_bind]
  dsimp only
  rw [if_pos h]
  rfl

end Run
end FirmwareKit
