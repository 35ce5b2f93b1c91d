import FirmwareKit.Log.File
import FirmwareKit.Proofs.Files.Settled
import FirmwareKit.Proofs.Text.Integer
set_option autoImplicit false

/-!
# Full log files

To put a full log file aside moves it and those before it within one directory. So the way to the
file stays as it was; only the file itself is gone, and a new one takes its place.
-/
namespace FirmwareKit

namespace FileTree
variable {t t' : FileTree} {p q source target here : Place} {content old new : List UInt8}
  {parts : List String}

/-! ## Entries that are moved -/

/-- Entries that get other places keep their order. -/
theorem entry?_map {f : Place × Entry → Place × Entry} (hp : p ≠ []) (hq : q ≠ [])
    (hentry : ∀ e, (f e).2 = e.2) (hkey : ∀ e ∈ t.entries, (f e).1 = q ↔ e.1 = p) :
    FileTree.entry? ⟨t.entries.map f⟩ q = t.entry? p := by
  rw [entry?_of_ne_nil hp, entry?_of_ne_nil hq]
  generalize t.entries = entries at hkey ⊢
  induction entries with
  | nil => rfl
  | cons e rest ih =>
    obtain ⟨hfirst, hrest⟩ := List.forall_mem_cons.mp hkey
    rw [List.map_cons, List.find?_cons, List.find?_cons]
    by_cases he : e.1 = p
    · rw [beq_iff_eq.mpr he, beq_iff_eq.mpr (hfirst.mpr he)]
      exact congrArg some (hentry e)
    · rw [beq_eq_false_iff_ne.mpr he, beq_eq_false_iff_ne.mpr (mt hfirst.mp he)]
      exact ih hrest

theorem entry?_erase_self (hp : p ≠ []) : FileTree.entry? (t.erase p) p = none := by
  rw [entry?_of_ne_nil hp, Option.map_eq_none_iff, List.find?_eq_none]
  intro e he heq
  have hkept := (List.mem_filter.mp he).2
  rw [bne, heq] at hkept
  cases hkept

theorem entry?_erase_of_ne (hq : q ≠ p) : FileTree.entry? (t.erase p) q = t.entry? q := by
  by_cases hnil : q = []
  · subst hnil
    rfl
  rw [entry?_of_ne_nil hnil, entry?_of_ne_nil hnil, erase, List.find?_filter]
  congr 2
  funext e
  by_cases he : (e.1 == q) = true
  · have hother : (e.1 != p) = true := bne_iff_ne.mpr (beq_iff_eq.mp he ▸ hq)
    simp [hother, he]
  · simp [he]

theorem prefix_of_goesWith (h : t.goesWith p q = true) : p <+: q := by
  rw [goesWith, Bool.or_eq_true, Bool.and_eq_true, beq_iff_eq, List.isPrefixOf_iff_prefix] at h
  rcases h with rfl | ⟨-, hprefix⟩
  · exact List.prefix_rfl
  · exact hprefix

theorem entry?_move_outside (hsource : ¬ source <+: q) (htarget : ¬ target <+: q) :
    FileTree.entry? (t.move source target) q = t.entry? q := by
  by_cases hnil : q = []
  · subst hnil
    rfl
  refine entry?_map hnil hnil (fun e => by split <;> rfl) fun e _ => ?_
  split
  case isTrue hgoes =>
    refine iff_of_false (fun heq => htarget ?_) fun heq => hsource (heq ▸ prefix_of_goesWith hgoes)
    exact heq ▸ List.prefix_append _ _
  case isFalse => exact Iff.rfl

theorem move_of_file (hsource : t.entry? source = some (.file content)) :
    t.move source target =
      ⟨t.entries.map fun e => if e.1 = source then (target, e.2) else e⟩ := by
  have hfile : t.isDirectory source = false := by rw [isDirectory, hsource]; rfl
  rw [move]
  congr 2
  funext e
  rw [goesWith, hfile, Bool.false_and, Bool.or_false]
  by_cases he : e.1 = source
  · rw [if_pos (beq_iff_eq.mpr he), if_pos he, he, List.drop_length, List.append_nil]
  · rw [if_neg (mt beq_iff_eq.mp he), if_neg he]

/-- A file that is moved to a free place is there and no longer where it was; nothing else
changes. -/
theorem entry?_move_file (hsource : t.entry? source = some (.file content))
    (htarget : t.entry? target = none) (q : Place) : FileTree.entry? (t.move source target) q =
      if q = target then some (.file content) else if q = source then none else t.entry? q := by
  obtain ⟨htargetnil, hfree⟩ := ne_of_entry?_eq_none htarget
  have hsourcenil : source ≠ [] := by
    rintro rfl
    cases hsource
  have hne : source ≠ target := by
    rintro rfl
    cases hsource.symm.trans htarget
  have hentry (e : Place × Entry) : (if e.1 = source then (target, e.2) else e).2 = e.2 := by
    split <;> rfl
  rw [move_of_file hsource]
  by_cases hq : q = target
  · subst hq
    rw [if_pos rfl, ← hsource]
    refine entry?_map hsourcenil htargetnil hentry fun e he => ?_
    split
    case isTrue hs => exact iff_of_true rfl hs
    case isFalse hs => exact iff_of_false (hfree e he) hs
  rw [if_neg hq]
  by_cases hs : q = source
  · subst hs
    rw [if_pos rfl, entry?_of_ne_nil hsourcenil, Option.map_eq_none_iff, List.find?_eq_none]
    intro e he
    obtain ⟨x, -, rfl⟩ := List.mem_map.mp he
    by_cases hx : x.1 = q
    · simp [hx, hne.symm]
    · simp [hx]
  rw [if_neg hs]
  by_cases hnil : q = []
  · subst hnil
    rfl
  refine entry?_map hnil hnil hentry fun e _ => ?_
  split
  case isTrue he => exact iff_of_false (Ne.symm hq) fun heq => hs (heq.symm.trans he)
  case isFalse => exact Iff.rfl

/-! ## Ways without two dots -/

theorem up_not_mem_destination (hhere : ".." ∉ here) (parts : List String) :
    ".." ∉ destination here parts := by
  induction parts generalizing here with
  | nil => exact hhere
  | cons part rest ih =>
    rw [destination]
    split
    · exact ih hhere
    split
    · exact ih (mt List.mem_of_mem_dropLast hhere)
    · rename_i hup
      refine ih fun h => ?_
      rcases List.mem_append.mp h with h | h
      · exact hhere h
      · exact hup (List.mem_singleton.mp h).symm

theorem prefix_destination (hup : ".." ∉ parts) : here <+: destination here parts := by
  induction parts generalizing here with
  | nil => exact List.prefix_rfl
  | cons part rest ih =>
    have hrest := List.not_mem_of_not_mem_cons hup
    rw [destination]
    split
    · exact ih hrest
    · rw [if_neg (List.ne_of_not_mem_cons hup).symm]
      exact (List.prefix_append here [part]).trans (ih hrest)

/-- A way that never goes up depends on what stands above its end, and at its end. -/
theorem Way.of_above {target' : Target} (hup : ".." ∉ parts)
    (habove : ∀ q, q <+: p → q ≠ p → t'.entry? q = t.entry? q)
    (h : Way t here parts (.present p (.file old)))
    (hend : ∀ {here part}, IsName part → here ++ [part] = p → Way t' here [part] target') :
    Way t' here parts target' := by
  generalize htarget : Target.present p (.file old) = target at h
  induction h with
  | here => cases htarget
  | stay hblank _ ih => exact .stay hblank (ih (List.not_mem_of_not_mem_cons hup) htarget)
  | up => exact absurd List.mem_cons_self hup
  | @enter here part rest _ hname hentry tail ih =>
    have hrest := (List.not_mem_of_not_mem_cons hup)
    obtain rfl : p = destination (here ++ [part]) rest := by
      rw [← tail.place_eq, ← htarget]
      rfl
    have hfile : t.entry? (destination (here ++ [part]) rest) = some (.file old) := by
      rw [← htarget] at tail
      exact tail.found
    have hne : here ++ [part] ≠ destination (here ++ [part]) rest := fun heq => by
      rw [← heq, hentry] at hfile
      cases hfile
    refine .enter hname ?_ (ih hrest htarget)
    rw [habove _ (prefix_destination hrest) hne, hentry]
  | file hname =>
    cases htarget
    exact hend hname rfl
  | free => cases htarget

end FileTree

namespace Path
variable {path : String} {names : List String}

theorem up_not_mem_collapse (parts : List String) : ".." ∉ collapse true [] parts := by
  rw [FileTree.collapse_eq_destination (List.forall_mem_nil _)]
  exact FileTree.up_not_mem_destination List.not_mem_nil _

theorem up_not_mem_parts_slashes (h : ".." ∉ parts path) (n : Nat) :
    ".." ∉ parts (String.ofList (List.replicate n '/') ++ path) := by
  induction n with
  | zero => exact h
  | succ n ih =>
    have htext : String.ofList (List.replicate (n + 1) '/') ++ path =
        "/" ++ (String.ofList (List.replicate n '/') ++ path) := by
      simp [← String.toList_inj, List.replicate_succ]
    rw [htext, parts_slash, List.mem_cons, not_or]
    exact ⟨by decide, ih⟩

theorem up_not_mem_parts_normalize (h : isAbsolute path = true) :
    ".." ∉ parts (normalize path) := by
  rw [normalize_of_absolute h]
  refine up_not_mem_parts_slashes ?_ _
  have hup := up_not_mem_collapse (parts path)
  by_cases hnone : collapse true [] (parts path) = []
  · rw [hnone]
    decide +kernel
  · rw [parts_ofParts hnone]
    · exact hup
    · intro n hn hslash
      rcases mem_of_mem_collapse hn with hn | hn | rfl
      · cases hn
      · exact (mem_of_mem_part hn hslash).2 rfl
      · exact hup hn

theorem up_not_mem_parts_absolute {directory : String} (h : isAbsolute directory = true)
    (path : String) : ".." ∉ parts (absolute directory path) :=
  up_not_mem_parts_normalize (isAbsolute_fromDirectory h path)

end Path

namespace LogFile
variable {t : FileTree} {place source target q : Place} {content : List UInt8} {r : Rotation}
  {steps : List (Place × Place)}

/-! ## Files put aside -/

theorem length_backup (hplace : place ≠ []) (n : Nat) : (backup place n).length = place.length := by
  have := List.length_pos_iff.mpr hplace
  rw [backup, List.length_append, List.length_dropLast, List.length_singleton]
  omega

theorem backup_not_above (hplace : place ≠ []) (hq : q <+: place) (n : Nat) :
    ¬ backup place n <+: q := by
  intro h
  have hsame := (h.trans hq).eq_of_length (length_backup hplace n)
  have hlast := congrArg (fun p => (p.getLastD "").length) hsame
  have hdot : ".".length = 1 := rfl
  simp only [backup, toString, List.getLastD_eq_getLast?, List.getLast?_concat, Option.getD_some,
    String.length_append] at hlast
  omega

namespace Rotation

theorem shift_outside (hsource : ¬ source <+: q) (htarget : ¬ target <+: q) :
    FileTree.entry? (r.shift source target).tree q = r.tree.entry? q := by
  have hne : q ≠ target := fun heq => htarget (heq ▸ List.prefix_rfl)
  rw [shift]
  split
  · rfl
  split
  · rfl
  · exact (FileTree.entry?_move_outside hsource htarget).trans (FileTree.entry?_erase_of_ne hne)
  · split
    · rfl
    · exact FileTree.entry?_move_outside hsource htarget

theorem shift_outside_all (h : ∀ s ∈ steps, ¬ s.1 <+: q ∧ ¬ s.2 <+: q) :
    FileTree.entry? (steps.foldl (fun r s => r.shift s.1 s.2) r).tree q = r.tree.entry? q := by
  induction steps generalizing r with
  | nil => rfl
  | cons s rest ih =>
    obtain ⟨⟨hsource, htarget⟩, hrest⟩ := List.forall_mem_cons.mp h
    rw [List.foldl_cons, ih hrest, shift_outside hsource htarget]

/-- A file is moved away, or the rotation is stuck and leaves it. -/
theorem shift_file (hsource : r.tree.entry? source = some (.file content))
    (hapart : ¬ source <+: target ∧ ¬ target <+: source) :
    FileTree.entry? (r.shift source target).tree source =
      if (r.shift source target).isStuck then some (.file content) else none := by
  have hne : source ≠ target := fun heq => hapart.1 (heq ▸ List.prefix_rfl)
  rw [shift, hsource]
  split
  case isTrue hstuck =>
    have hstuck : r.isStuck = true := by simpa using hstuck
    rw [hstuck, hsource]
    rfl
  split
  case h_1 => exact hsource
  case h_2 htarget =>
    have htargetnil : target ≠ [] := by
      rintro rfl
      cases htarget
    have hleft := (FileTree.entry?_erase_of_ne hne (t := r.tree)).trans hsource
    rw [FileTree.entry?_move_file hleft (FileTree.entry?_erase_self htargetnil), if_neg hne,
      if_pos rfl]
    rfl
  case h_3 htarget =>
    split
    · exact hsource
    · rw [FileTree.entry?_move_file hsource htarget, if_neg hne, if_pos rfl]
      rfl

/-- Where no directory is moved, the directories are the same afterwards. -/
theorem directory_shift_iff (hne : source ≠ target)
    (hsource : r.tree.entry? source ≠ some .directory)
    (htarget : r.tree.entry? target ≠ some .directory) (q : Place) :
    FileTree.entry? (r.shift source target).tree q = some .directory ↔
      r.tree.entry? q = some .directory := by
  have hmoved {t : FileTree} (hleft : t.entry? source = r.tree.entry? source)
      (hsome : ¬ (r.tree.entry? source).isNone = true) (hfree : t.entry? target = none) :
      FileTree.entry? (t.move source target) q = some .directory ↔ t.entry? q = some .directory := by
    cases hentry : r.tree.entry? source with
    | none => exact absurd (Option.isNone_iff_eq_none.mpr hentry) hsome
    | some e =>
      cases e with
      | directory => exact absurd hentry hsource
      | file content =>
        rw [FileTree.entry?_move_file (hleft.trans hentry) hfree]
        split
        case isTrue hq => rw [hq, hfree]; exact iff_of_false nofun nofun
        case isFalse =>
          split
          case isTrue hq => rw [hq, hleft, hentry]; exact iff_of_false nofun nofun
          case isFalse => exact Iff.rfl
  rw [shift]
  split
  case isTrue => exact Iff.rfl
  case isFalse hgoes =>
    rw [Bool.or_eq_true, not_or] at hgoes
    split
    case h_1 => exact Iff.rfl
    case h_2 hfile =>
      have htargetnil : target ≠ [] := by
        rintro rfl
        cases hfile
      rw [hmoved (FileTree.entry?_erase_of_ne hne) hgoes.2 (FileTree.entry?_erase_self htargetnil)]
      by_cases hq : q = target
      · rw [hq, FileTree.entry?_erase_self htargetnil, hfile]
        exact iff_of_false nofun nofun
      · rw [FileTree.entry?_erase_of_ne hq]
    case h_3 hfree =>
      split
      · exact Iff.rfl
      · exact hmoved rfl hgoes.2 hfree

theorem directory_shift_all_iff
    (h : ∀ s ∈ steps, s.1 ≠ s.2 ∧ r.tree.entry? s.1 ≠ some .directory ∧
      r.tree.entry? s.2 ≠ some .directory) (q : Place) :
    FileTree.entry? (steps.foldl (fun r s => r.shift s.1 s.2) r).tree q = some .directory ↔
      r.tree.entry? q = some .directory := by
  induction steps generalizing r with
  | nil => exact Iff.rfl
  | cons s rest ih =>
    obtain ⟨⟨hne, hsource, htarget⟩, hrest⟩ := List.forall_mem_cons.mp h
    have hfirst := directory_shift_iff hne hsource htarget
    rw [List.foldl_cons, ih, hfirst]
    intro s' hs'
    obtain ⟨hne', hsource', htarget'⟩ := hrest s' hs'
    exact ⟨hne', mt (hfirst _).mp hsource', mt (hfirst _).mp htarget'⟩

end Rotation

theorem backup_ne (place : Place) {m n : Nat} (h : m ≠ n) : backup place m ≠ backup place n := by
  intro heq
  have hlast := congrArg (fun p => (p.getLastD "").toList) heq
  simp only [backup, toString, List.getLastD_eq_getLast?, List.getLast?_concat, Option.getD_some,
    String.toList_append, List.append_cancel_left_eq, Nat.toList_repr] at hlast
  have hread := congrArg Text.readInteger? hlast
  rw [← Text.decimal, ← Text.decimal, Text.readInteger?_decimal, Text.readInteger?_decimal] at hread
  exact h (Int.ofNat.inj (Option.some.inj hread))

/-- A step puts a file aside that was put aside before, or it is the last one. -/
theorem steps_eq (place : Place) : ∃ earlier, Rotation.steps place =
    earlier ++ [(place, backup place 1)] ∧
      ∀ s ∈ earlier, ∃ n, s = (backup place n, backup place (n + 1)) := by
  refine ⟨_, rfl, fun s hs => ?_⟩
  obtain ⟨i, -, rfl⟩ := List.mem_map.mp hs
  exact ⟨i + 1, rfl⟩

/-- What stands above the file stays, and so does the file if the rotation is stuck; otherwise it
is gone. -/
theorem entry?_rotated (path : String) (hplace : t.entry? place = some (.file content)) :
    (∀ q, q <+: place → q ≠ place → FileTree.entry? (rotated path t place).tree q = t.entry? q) ∧
      FileTree.entry? (rotated path t place).tree place =
        if (rotated path t place).isStuck then some (.file content) else none := by
  rw [rotated]
  split
  case isTrue => exact ⟨fun _ _ _ => rfl, by rw [hplace]; rfl⟩
  have hnil : place ≠ [] := by
    rintro rfl
    cases hplace
  obtain ⟨earlier, hsteps, hearlier⟩ := steps_eq place
  have habove (q : Place) (hq : q <+: place) : ∀ s ∈ earlier, ¬ s.1 <+: q ∧ ¬ s.2 <+: q := by
    intro s hs
    obtain ⟨n, rfl⟩ := hearlier s hs
    exact ⟨backup_not_above hnil hq n, backup_not_above hnil hq (n + 1)⟩
  rw [hsteps, List.foldl_append, List.foldl_cons, List.foldl_nil]
  constructor
  · intro q hq hne
    have hbelow (h : place <+: q) : False :=
      hne (hq.eq_of_length (Nat.le_antisymm hq.length_le h.length_le))
    rw [Rotation.shift_outside hbelow (backup_not_above hnil hq 1),
      Rotation.shift_outside_all (habove q hq)]
  · refine Rotation.shift_file ?_ ⟨?_, backup_not_above hnil List.prefix_rfl 1⟩
    · rw [Rotation.shift_outside_all (habove place List.prefix_rfl)]
      exact hplace
    · intro (h : place <+: backup place 1)
      have hsame : place = backup place 1 := h.eq_of_length (length_backup hnil 1).symm
      exact backup_not_above hnil List.prefix_rfl 1 (hsame ▸ List.prefix_rfl)

/-- Where only files are put aside, the directories stay the same. -/
theorem directory_rotated_iff (path : String) (hplace : t.entry? place = some (.file content))
    (hfiles : ∀ n, t.entry? (backup place n) ≠ some .directory) (q : Place) :
    FileTree.entry? (rotated path t place).tree q = some .directory ↔
      t.entry? q = some .directory := by
  rw [rotated]
  split
  case isTrue => exact Iff.rfl
  have hnil : place ≠ [] := by
    rintro rfl
    cases hplace
  obtain ⟨earlier, hsteps, hearlier⟩ := steps_eq place
  rw [hsteps, Rotation.directory_shift_all_iff]
  intro s hs
  rcases List.mem_append.mp hs with hs | hs
  · obtain ⟨n, rfl⟩ := hearlier s hs
    exact ⟨backup_ne place (Nat.succ_ne_self n).symm, hfiles n, hfiles (n + 1)⟩
  · obtain rfl := List.mem_singleton.mp hs
    have hne : place ≠ backup place 1 := fun h =>
      backup_not_above hnil List.prefix_rfl 1 (h ▸ List.prefix_rfl)
    have hfile : t.entry? place ≠ some .directory := by
      rw [hplace]
      exact nofun
    exact ⟨hne, hfile, hfiles 1⟩

end LogFile
end FirmwareKit
