import FirmwareKit.Proofs.Files.Tree
set_option autoImplicit false

namespace FirmwareKit.FileTree
variable {t t' : FileTree} {p q here directory : Place} {part path : String} {parts rest : List String}
  {target : Target} {content old new : List UInt8} {x : Entry}

structure IsName (part : String) : Prop where
  not_blank : ¬ (part = "" ∨ part = ".")
  not_up : part ≠ ".."
  size : part.utf8ByteSize ≤ greatestNameSize

inductive Way (t : FileTree) : Place → List String → Target → Prop
  | here (here : Place) : Way t here [] (.present here .directory)
  | stay {here : Place} {part : String} {rest : List String} {target : Target}
      (hblank : part = "" ∨ part = ".") (tail : Way t here rest target) :
      Way t here (part :: rest) target
  | up {here : Place} {rest : List String} {target : Target} (tail : Way t here.dropLast rest target) :
      Way t here (".." :: rest) target
  | enter {here : Place} {part : String} {rest : List String} {target : Target}
      (hname : IsName part) (hentry : t.entry? (here ++ [part]) = some .directory)
      (tail : Way t (here ++ [part]) rest target) : Way t here (part :: rest) target
  | file {here : Place} {part : String} {content : List UInt8} (hname : IsName part)
      (hentry : t.entry? (here ++ [part]) = some (.file content)) :
      Way t here [part] (.present (here ++ [part]) (.file content))
  | free {here : Place} {part : String} {rest : List String} (hname : IsName part)
      (hentry : t.entry? (here ++ [part]) = none) (hrest : rest.all (· == "") = true) :
      Way t here (part :: rest) (.free (here ++ [part]) (!rest.isEmpty))

theorem walk_of_name (hname : IsName part) :
    t.walk here .directory (part :: rest) =
      match t.entry? (here ++ [part]) with
      | some e => t.walk (here ++ [part]) e rest
      | none =>
        if rest.all (· == "") = true then .ok (.free (here ++ [part]) (!rest.isEmpty))
        else .error .missing := by
  rw [walk, if_neg hname.not_blank, if_neg hname.not_up]
  exact if_neg (Nat.not_lt.mpr hname.size)

theorem Way.of_walk (h : t.walk here .directory parts = .ok target) : Way t here parts target := by
  induction parts generalizing here with
  | nil =>
    cases h
    exact .here here
  | cons part rest ih =>
    by_cases hblank : part = "" ∨ part = "."
    · rw [walk, if_pos hblank] at h
      exact .stay hblank (ih h)
    by_cases hup : part = ".."
    · subst hup
      rw [walk, if_neg hblank, if_pos rfl] at h
      exact .up (ih h)
    by_cases hlong : greatestNameSize < part.utf8ByteSize
    · rw [walk, if_neg hblank, if_neg hup, if_pos hlong] at h
      cases h
    have hname : IsName part := ⟨hblank, hup, Nat.not_lt.mp hlong⟩
    rw [walk_of_name hname] at h
    cases hentry : t.entry? (here ++ [part]) with
    | none =>
      rw [hentry] at h
      dsimp only at h
      split at h
      case isTrue hrest =>
        cases h
        exact .free hname hentry hrest
      case isFalse => cases h
    | some e =>
      rw [hentry] at h
      cases e with
      | directory => exact .enter hname hentry (ih h)
      | file content =>
        cases rest with
        | cons => cases h
        | nil =>
          cases h
          exact .file hname hentry

theorem Way.walk (h : Way t here parts target) : t.walk here .directory parts = .ok target := by
  induction h with
  | here => rfl
  | stay hblank _ ih => rw [FileTree.walk, if_pos hblank, ih]
  | up _ ih => rw [FileTree.walk, if_neg (by decide), if_pos rfl, ih]
  | enter hname hentry _ ih =>
    rw [walk_of_name hname, hentry]
    exact ih
  | file hname hentry =>
    rw [walk_of_name hname, hentry]
    rfl
  | free hname hentry hrest =>
    rw [walk_of_name hname, hentry]
    exact if_pos hrest

theorem Way.blank (t : FileTree) (here : Place) (h : rest.all (· == "") = true) :
    Way t here rest (.present here .directory) := by
  induction rest with
  | nil => exact .here here
  | cons part rest ih =>
    rw [List.all_cons, Bool.and_eq_true, beq_iff_eq] at h
    exact .stay (.inl h.1) (ih h.2)

/-- A path that can be walked: it is not empty, and no longer than a path may be. -/
structure IsUsable (path : String) : Prop where
  ne_empty : path ≠ ""
  fits : path.utf8ByteSize ≤ greatestPathSize

theorem way_of_locate (h : t.locate directory path = .ok target) :
    IsUsable path ∧
      Way t (if Path.isAbsolute path = true then [] else directory) (Path.parts path) target := by
  rw [locate] at h
  split at h
  case isTrue => cases h
  case isFalse hpath =>
    split at h
    case isTrue => cases h
    case isFalse hsize => exact ⟨⟨by simpa using hpath, Nat.le_of_not_lt hsize⟩, .of_walk h⟩

theorem locate_of_way (hpath : IsUsable path)
    (h : Way t (if Path.isAbsolute path = true then [] else directory) (Path.parts path) target) :
    t.locate directory path = .ok target := by
  rw [locate, if_neg (by simpa using hpath.ne_empty), if_neg (Nat.not_lt.mpr hpath.fits)]
  exact h.walk

theorem lookup?_eq_some_iff {e : Entry} :
    t.lookup? directory path = some (p, e) ↔ t.locate directory path = .ok (.present p e) := by
  rw [lookup?]
  split
  case h_1 place entry hlocate => simp [hlocate]
  case h_2 hother =>
    constructor
    · exact nofun
    · intro hlocate
      exact absurd hlocate (hother p e)

/-- A path from the root names an entry if it leads there, however long it is. -/
structure Names (t : FileTree) (path : String) (p : Place) (e : Entry) : Prop where
  absolute : Path.isAbsolute path = true
  way : Way t [] (Path.parts path) (.present p e)

theorem Names.lookup? {e : Entry} (h : t.Names path p e)
    (hfits : path.utf8ByteSize ≤ greatestPathSize) : t.lookup? directory path = some (p, e) := by
  have hpath : path ≠ "" := by
    rintro rfl
    exact absurd h.absolute (by decide)
  exact lookup?_eq_some_iff.mpr (locate_of_way ⟨hpath, hfits⟩ (by rw [if_pos h.absolute]; exact h.way))

/-! ## What stands where a walk ends -/

def Target.place : Target → Place
  | .present p _ | .free p _ => p

/-- Where a walk ends, an entry may be put: at a free name, which may have to be a directory, or in
place of a file. -/
def Target.Admits (x : Entry) : Target → Prop
  | .free _ asDirectory => asDirectory = true → x = .directory
  | .present _ (.file _) => True
  | .present _ .directory => False

def Target.Found (t : FileTree) : Target → Prop
  | .free p _ => t.entry? p = none
  | .present p (.file content) => t.entry? p = some (.file content)
  | .present _ .directory => True

theorem Way.found (h : Way t here parts target) : target.Found t := by
  induction h with
  | here => trivial
  | stay _ _ ih => exact ih
  | up _ ih => exact ih
  | enter _ _ _ ih => exact ih
  | file _ hentry => exact hentry
  | free _ hentry => exact hentry

theorem Target.Found.not_directory (h : target.Found t) (hadmits : target.Admits x) :
    target.place ≠ [] ∧ t.entry? target.place ≠ some .directory := by
  cases target with
  | free p asDirectory =>
    have hnone : t.entry? p = none := h
    exact ⟨(ne_of_entry?_eq_none hnone).1, by rw [place, hnone]; exact (Option.some_ne_none _).symm⟩
  | present p entry =>
    cases entry with
    | directory => exact hadmits.elim
    | file content =>
      have hfile : t.entry? p = some (.file content) := h
      refine ⟨?_, by rw [place, hfile]; exact nofun⟩
      rintro rfl
      cases hfile

theorem Way.put (h : Way t here parts target) (hadmits : target.Admits x) :
    Way (t.put target.place x) here parts (.present target.place x) := by
  obtain ⟨hplace, hold⟩ := h.found.not_directory hadmits
  have hself := entry?_put_self hplace x (t := t)
  induction h with
  | here => exact hadmits.elim
  | stay hblank _ ih => exact .stay hblank (ih hadmits hplace hold hself)
  | up _ ih => exact .up (ih hadmits hplace hold hself)
  | @enter _ _ _ target hname hentry _ ih =>
    have hne : _ ≠ target.place := fun heq => hold (heq.symm ▸ hentry)
    exact .enter hname ((entry?_put_of_ne hne x).trans hentry) (ih hadmits hplace hold hself)
  | file hname =>
    cases x with
    | directory => exact .enter hname hself (.here _)
    | file content => exact .file hname hself
  | @free _ _ rest hname _ hrest =>
    cases x with
    | directory => exact .enter hname hself (.blank _ _ hrest)
    | file content =>
      cases rest with
      | nil => exact .file hname hself
      | cons => cases hadmits rfl

theorem locate_put (h : t.locate directory path = .ok target) (hadmits : target.Admits x) :
    (t.put target.place x).locate directory path = .ok (.present target.place x) := by
  obtain ⟨hpath, hway⟩ := way_of_locate h
  exact locate_of_way hpath (hway.put hadmits)

/-! ## Where a walk ends -/

def destination (here : Place) : List String → Place
  | [] => here
  | part :: rest =>
    if part = "" ∨ part = "." then destination here rest
    else if part = ".." then destination here.dropLast rest
    else destination (here ++ [part]) rest

theorem destination_of_blank (h : part = "" ∨ part = ".") :
    destination here (part :: rest) = destination here rest := by
  rw [destination, if_pos h]

theorem destination_up : destination here (".." :: rest) = destination here.dropLast rest := by
  rw [destination, if_neg (by decide), if_pos rfl]

theorem destination_of_name (h : IsName part) :
    destination here (part :: rest) = destination (here ++ [part]) rest := by
  rw [destination, if_neg h.not_blank, if_neg h.not_up]

theorem destination_append (here : Place) (parts rest : List String) :
    destination here (parts ++ rest) = destination (destination here parts) rest := by
  induction parts generalizing here with
  | nil => rfl
  | cons part parts ih =>
    rw [List.cons_append, destination, destination, ih, ih, ih]
    split
    · rfl
    split <;> rfl

theorem destination_all_blank (here : Place) (h : rest.all (· == "") = true) :
    destination here rest = here := by
  induction rest with
  | nil => rfl
  | cons part rest ih =>
    rw [List.all_cons, Bool.and_eq_true, beq_iff_eq] at h
    rw [destination_of_blank (.inl h.1)]
    exact ih h.2

theorem Way.place_eq (h : Way t here parts target) : target.place = destination here parts := by
  induction h with
  | here => rfl
  | stay hblank _ ih => rw [ih, destination_of_blank hblank]
  | up _ ih => rw [ih, destination_up]
  | enter hname _ _ ih => rw [ih, destination_of_name hname]
  | file hname => rw [destination_of_name hname]; rfl
  | free hname _ hrest => rw [destination_of_name hname, destination_all_blank _ hrest]; rfl

/-- A file is found again, whatever it holds by then, as long as no directory has gone. -/
theorem Way.of_directories
    (hkept : ∀ q, t.entry? q = some .directory → t'.entry? q = some .directory)
    (h : Way t here parts (.present p (.file old))) (hnew : t'.entry? p = some (.file new)) :
    Way t' here parts (.present p (.file new)) := by
  generalize htarget : Target.present p (.file old) = target at h
  induction h with
  | here => cases htarget
  | stay hblank _ ih => exact .stay hblank (ih htarget)
  | up _ ih => exact .up (ih htarget)
  | enter hname hentry _ ih => exact .enter hname (hkept _ hentry) (ih htarget)
  | file hname =>
    cases htarget
    exact .file hname hnew
  | free => cases htarget

theorem Way.directory_of_directories
    (hkept : ∀ q, t.entry? q = some .directory → t'.entry? q = some .directory)
    (h : Way t here parts (.present p .directory)) : Way t' here parts (.present p .directory) := by
  generalize htarget : Target.present p .directory = target at h ⊢
  induction h with
  | here => exact .here _
  | stay hblank _ ih => exact .stay hblank (ih htarget)
  | up _ ih => exact .up (ih htarget)
  | enter hname hentry _ ih => exact .enter hname (hkept _ hentry) (ih htarget)
  | file => cases htarget
  | free => cases htarget

/-! ## What a walk goes through -/

def route (here : Place) : List String → List Place
  | [] => []
  | part :: rest =>
    if part = "" ∨ part = "." then route here rest
    else if part = ".." then route here.dropLast rest
    else (here ++ [part]) :: route (here ++ [part]) rest

theorem route_of_blank (h : part = "" ∨ part = ".") :
    route here (part :: rest) = route here rest := by
  rw [route, if_pos h]

theorem route_up : route here (".." :: rest) = route here.dropLast rest := by
  rw [route, if_neg (by decide), if_pos rfl]

theorem route_of_name (h : IsName part) :
    route here (part :: rest) = (here ++ [part]) :: route (here ++ [part]) rest := by
  rw [route, if_neg h.not_blank, if_neg h.not_up]

/-- Parts of a path that look up neither a place nor anything below it. -/
def Avoids (p here : Place) (parts : List String) : Prop := ∀ q ∈ route here parts, ¬ p <+: q

instance (p here : Place) (parts : List String) : Decidable (Avoids p here parts) :=
  inferInstanceAs (Decidable (∀ q ∈ route here parts, ¬ p <+: q))

theorem Way.remove (h : Way t here parts (.present q (.file content)))
    (havoids : Avoids p here parts) :
    Way (t.remove p) here parts (.present q (.file content)) := by
  rw [Avoids] at havoids
  generalize htarget : Target.present q (.file content) = target at h
  induction h with
  | here => cases htarget
  | stay hblank _ ih => exact .stay hblank (ih (route_of_blank hblank ▸ havoids) htarget)
  | up _ ih => exact .up (ih (route_up ▸ havoids) htarget)
  | enter hname hentry _ ih =>
    rw [route_of_name hname] at havoids
    obtain ⟨hhere, hrest⟩ := List.forall_mem_cons.mp havoids
    exact .enter hname ((entry?_remove_outside hhere).trans hentry) (ih hrest htarget)
  | file hname hentry =>
    rw [route_of_name hname] at havoids
    cases htarget
    exact .file hname ((entry?_remove_outside (havoids _ List.mem_cons_self)).trans hentry)
  | free => cases htarget

/-- A walk that still leads to a file has not gone through what has been removed. -/
theorem Way.avoids (hp : p ≠ []) (h : Way (t.remove p) here parts (.present q (.file content))) :
    Avoids p here parts := by
  have hthere {here : Place} {part : String} {e : Entry}
      (hentry : FileTree.entry? (t.remove p) (here ++ [part]) = some e) : ¬ p <+: here ++ [part] := by
    intro hprefix
    rw [entry?_remove_inside hp hprefix] at hentry
    cases hentry
  rw [Avoids]
  generalize htarget : Target.present q (.file content) = target at h
  induction h with
  | here => cases htarget
  | stay hblank _ ih => rw [route_of_blank hblank]; exact ih htarget
  | up _ ih => rw [route_up]; exact ih htarget
  | enter hname hentry _ ih =>
    rw [route_of_name hname]
    exact List.forall_mem_cons.mpr ⟨hthere hentry, ih htarget⟩
  | file hname hentry =>
    rw [route_of_name hname]
    exact List.forall_mem_cons.mpr ⟨hthere hentry, nofun⟩
  | free => cases htarget

end FirmwareKit.FileTree
