import FirmwareKit.Files.Path
import FirmwareKit.Proofs.Text.Rows
import Mathlib.Data.List.Infix
set_option autoImplicit false

namespace FirmwareKit.Path
variable {path name : String} {names : List String}

theorem parts_ne_nil (path : String) : parts path ≠ [] := by
  rw [parts, ne_eq, List.map_eq_nil_iff]
  exact Text.splitOnChar_ne_nil _ _

theorem parts_append_slash (first second : String) :
    parts (first ++ "/" ++ second) = parts first ++ parts second := by
  have hslash : (first ++ "/" ++ second).toList = first.toList ++ '/' :: second.toList := by
    rw [String.toList_append, String.toList_append, List.append_assoc]
    rfl
  rw [parts, hslash, Text.splitOnChar_append, List.map_append, parts, parts]

theorem parts_of_not_mem (h : '/' ∉ name.toList) : parts name = [name] := by
  rw [parts, Text.splitOnChar_of_not_mem h, List.map_singleton, String.ofList_toList]

theorem parts_slash (path : String) : parts ("/" ++ path) = "" :: parts path := by
  have happend := parts_append_slash "" path
  rw [parts_of_not_mem (by decide : '/' ∉ ("" : String).toList), String.empty_append] at happend
  exact happend

theorem mem_of_mem_part {part : String} (hpart : part ∈ parts path) {c : Char}
    (hc : c ∈ part.toList) : c ∈ path.toList ∧ c ≠ '/' := by
  obtain ⟨word, hword, rfl⟩ := List.mem_map.mp hpart
  rw [String.toList_ofList] at hc
  exact Text.mem_of_mem_splitOnChar hword hc

theorem parts_ofParts (hne : names ≠ []) (h : ∀ n ∈ names, '/' ∉ n.toList) :
    parts (ofParts names) = names := by
  induction names with
  | nil => exact absurd rfl hne
  | cons n ns ih =>
    obtain ⟨hn, hns⟩ := List.forall_mem_cons.mp h
    cases ns with
    | nil =>
      rw [ofParts, String.intercalate_singleton]
      exact parts_of_not_mem hn
    | cons m ms =>
      rw [ofParts, String.intercalate_cons_cons, parts_append_slash, parts_of_not_mem hn, ← ofParts,
        ih (List.cons_ne_nil m ms) hns]
      rfl

theorem withSlashes_append (first second : String) :
    withSlashes (first ++ second) = withSlashes first ++ withSlashes second := by
  rw [withSlashes, String.toList_append, List.map_append, String.ofList_append, withSlashes,
    withSlashes]

theorem withSlashes_eq_self (h : '\\' ∉ path.toList) : withSlashes path = path := by
  have hsame : path.toList.map (fun c => if c = '\\' then '/' else c) = path.toList.map id :=
    List.map_congr_left fun c hc => if_neg fun heq : c = '\\' => h (heq ▸ hc)
  rw [withSlashes, hsame, List.map_id, String.ofList_toList]

theorem backslash_not_mem_withSlashes (path : String) : '\\' ∉ (withSlashes path).toList := by
  rw [withSlashes, String.toList_ofList]
  intro h
  obtain ⟨c, -, hc⟩ := List.mem_map.mp h
  split at hc
  · cases hc
  · contradiction

def stem (base : String) : String :=
  if base.isEmpty || base.toList.getLast? == some '/' then base else base ++ "/"

theorem join_eq (base : String) (h : isAbsolute path = false) : join base path = stem base ++ path := by
  rw [join, if_neg (by rw [h]; exact Bool.false_ne_true), stem]
  split <;> rfl

/-- A path that is joined to another stands behind a slash, unless it stands alone. -/
theorem stem_cases (base : String) :
    (base = "" ∧ stem base = "") ∨
      ∃ before, stem base = before ++ "/" ∧ (base = before ++ "/" ∨ base = before) := by
  rw [stem]
  by_cases hempty : base = ""
  · subst hempty
    exact .inl ⟨rfl, rfl⟩
  refine .inr ?_
  by_cases hlast : base.toList.getLast? = some '/'
  · obtain ⟨before, hbefore⟩ := List.getLast?_eq_some_iff.mp hlast
    have hbase : base = String.ofList before ++ "/" := by
      rw [← String.toList_inj, hbefore, String.toList_append, String.toList_ofList]
      rfl
    exact ⟨String.ofList before, by rw [if_pos (by simp [hlast])]; exact hbase, .inl hbase⟩
  · exact ⟨base, if_neg (by simp [hempty, hlast]), .inr rfl⟩

theorem isAbsolute_append_of_ne {first : String} (h : first ≠ "") (second : String) :
    isAbsolute (first ++ second) = isAbsolute first := by
  have hne : first.toList ≠ [] := by simpa using h
  rw [isAbsolute, isAbsolute, String.toList_append, List.head?_append_of_ne_nil _ hne]

theorem isAbsolute_append {first : String} (h : isAbsolute first = true) (second : String) :
    isAbsolute (first ++ second) = true := by
  have hne : first ≠ "" := by
    rintro rfl
    cases h
  rw [isAbsolute_append_of_ne hne, h]

/-- A path that another is joined to decides whether the whole is absolute. -/
theorem isAbsolute_withSlashes_stem {base : String} (h : base ≠ "") (rest : String) :
    isAbsolute (withSlashes (stem base ++ rest)) = isAbsolute (withSlashes base) := by
  have hne : withSlashes base ≠ "" := by
    rw [withSlashes]
    simpa using h
  rw [stem]
  split
  · rw [withSlashes_append, isAbsolute_append_of_ne hne]
  · rw [String.append_assoc, withSlashes_append, isAbsolute_append_of_ne hne]

/-- A name that is one part of a path, wherever it stands. -/
structure IsSingle (name : String) : Prop where
  no_slash : '/' ∉ name.toList
  no_backslash : '\\' ∉ name.toList
  not_blank : ¬ (name = "" ∨ name = ".")
  not_up : name ≠ ".."

theorem IsSingle.isAbsolute (h : IsSingle name) : Path.isAbsolute name = false := by
  rw [Path.isAbsolute, beq_eq_false_iff_ne]
  exact fun hhead => h.no_slash (List.mem_of_mem_head? hhead)

theorem isAbsolute_slash (path : String) : isAbsolute ("/" ++ path) = true :=
  isAbsolute_append rfl path

theorem exists_leadingSlashes (h : isAbsolute path = true) : ∃ n, leadingSlashes path = n + 1 := by
  rw [isAbsolute, beq_iff_eq, List.head?_eq_some_iff] at h
  obtain ⟨rest, hpath⟩ := h
  rw [leadingSlashes, hpath, List.takeWhile_cons_of_pos (by decide), List.length_cons]
  split
  · omega
  · exact ⟨1, rfl⟩
  · exact ⟨0, rfl⟩

theorem leadingSlashes_slash (h : isAbsolute path = false) : leadingSlashes ("/" ++ path) = 1 := by
  have hlist : ("/" ++ path).toList = '/' :: path.toList := by simp
  have hrest : path.toList.takeWhile (· = '/') = [] := by
    cases hpath : path.toList with
    | nil => rfl
    | cons c rest =>
      rw [isAbsolute, hpath, List.head?_cons, beq_eq_false_iff_ne, ne_eq, Option.some.injEq] at h
      exact List.takeWhile_cons_of_neg (by simpa using h)
  rw [leadingSlashes, hlist, List.takeWhile_cons_of_pos (by decide), hrest]
  rfl

theorem normalize_of_absolute (h : isAbsolute path = true) :
    normalize path = String.ofList (List.replicate (leadingSlashes path) '/') ++
      ofParts (collapse true [] (parts path)) := by
  obtain ⟨n, hn⟩ := exists_leadingSlashes h
  rw [normalize, hn, decide_eq_true (Nat.succ_pos n), if_neg]
  simp [List.replicate_succ]

theorem isAbsolute_normalize (h : isAbsolute path = true) : isAbsolute (normalize path) = true := by
  obtain ⟨n, hn⟩ := exists_leadingSlashes h
  rw [normalize_of_absolute h, hn, List.replicate_succ]
  exact isAbsolute_append (by simp [isAbsolute]) _

theorem isAbsolute_fromDirectory {directory : String} (h : isAbsolute directory = true)
    (path : String) : isAbsolute (if isAbsolute path then path else join directory path) = true := by
  split
  case isTrue habsolute => exact habsolute
  case isFalse hnot =>
    rw [join_eq directory (Bool.eq_false_iff.mpr hnot), stem]
    split
    · exact isAbsolute_append h path
    · exact isAbsolute_append (isAbsolute_append h "/") path

theorem isAbsolute_absolute {directory : String} (h : isAbsolute directory = true) (path : String) :
    isAbsolute (absolute directory path) = true :=
  isAbsolute_normalize (isAbsolute_fromDirectory h path)

theorem mem_of_mem_collapse {rooted : Bool} {stack : List String}
    (h : name ∈ collapse rooted stack names) : name ∈ stack ∨ name ∈ names ∨ name = ".." := by
  fun_induction collapse rooted stack names with
  | case1 => exact .inl (List.mem_reverse.mp h)
  -- The stack stays, loses its top, or gains the part or two dots.
  | _ => grind

/-- No other marks than slashes and dots come in. -/
theorem not_mem_normalize {c : Char} (hslash : c ≠ '/') (hdot : c ≠ '.') (h : c ∉ path.toList) :
    c ∉ (normalize path).toList := by
  have hbody (rooted : Bool) : c ∉ (ofParts (collapse rooted [] (parts path))).toList := by
    refine Text.not_mem_intercalate (by simpa using hslash) fun n hn hmem => ?_
    rcases mem_of_mem_collapse hn with hn | hn | rfl
    · cases hn
    · exact h (mem_of_mem_part hn hmem).1
    · exact hdot (by simpa using hmem)
  have hslashes (n : Nat) : c ∉ List.replicate n '/' := fun hmem => hslash (List.eq_of_mem_replicate hmem)
  rw [normalize]
  split
  · simpa using hdot
  · rw [String.toList_append, String.toList_ofList, List.mem_append, not_or]
    exact ⟨hslashes _, hbody _⟩

end FirmwareKit.Path
