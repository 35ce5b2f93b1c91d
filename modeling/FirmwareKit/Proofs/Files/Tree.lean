import FirmwareKit.Files.Tree
import Mathlib.Data.List.Infix
set_option autoImplicit false

namespace FirmwareKit.FileTree
variable {t : FileTree} {p : Place}

/-- Whatever stands in the tree stands in directories. -/
def Rooted (t : FileTree) : Prop :=
  ∀ e ∈ t.entries, ∀ p, p <+: e.1 → p ≠ e.1 → t.entry? p = some .directory

instance (t : FileTree) : Decidable t.Rooted :=
  decidable_of_iff
    (∀ e ∈ t.entries, ∀ p ∈ e.1.inits, p ≠ e.1 → t.entry? p = some .directory) <| by
      simp only [Rooted, List.mem_inits]

theorem entry?_of_ne_nil (hp : p ≠ []) :
    t.entry? p = (t.entries.find? fun e => e.1 == p).map Prod.snd := by
  have hempty : ¬ p.isEmpty = true := fun h => hp (List.isEmpty_iff.mp h)
  exact if_neg hempty

theorem ne_of_entry?_eq_none (h : t.entry? p = none) : p ≠ [] ∧ ∀ e ∈ t.entries, e.1 ≠ p := by
  have hp : p ≠ [] := by
    rintro rfl
    cases h
  rw [entry?_of_ne_nil hp, Option.map_eq_none_iff, List.find?_eq_none] at h
  exact ⟨hp, fun e he heq => h e he (beq_iff_eq.mpr heq)⟩

theorem put_of_entry?_eq_none (h : t.entry? p = none) (x : Entry) :
    t.put p x = ⟨t.entries ++ [(p, x)]⟩ := by
  have hany : ¬ (t.entries.any fun e => e.1 == p) = true := by
    intro hany
    obtain ⟨e, he, heq⟩ := List.any_eq_true.mp hany
    exact (ne_of_entry?_eq_none h).2 e he (beq_iff_eq.mp heq)
  rw [put, if_neg hany]

/-- An entry keeps its place when the one of a place is replaced. -/
theorem find?_replaced (entries : List (Place × Entry)) (p q : Place) (x : Entry) :
    (entries.map fun e => if (e.1 == p) = true then (p, x) else e).find? (fun e => e.1 == q) =
      (entries.find? fun e => e.1 == q).map fun e => if (e.1 == p) = true then (p, x) else e := by
  have hkeys : ((fun e : Place × Entry => e.1 == q) ∘
      fun e => if (e.1 == p) = true then (p, x) else e) = fun e => e.1 == q := by
    funext e
    by_cases he : (e.1 == p) = true
    · rw [Function.comp_apply, if_pos he, beq_iff_eq.mp he]
    · rw [Function.comp_apply, if_neg he]
  rw [List.find?_map, hkeys]

theorem entry?_put_self (hp : p ≠ []) (x : Entry) : entry? (t.put p x) p = some x := by
  rw [entry?_of_ne_nil hp, put]
  split
  case isTrue hany =>
    obtain ⟨e, hfound⟩ := Option.isSome_iff_exists.mp
      (List.find?_isSome.mpr (List.any_eq_true.mp hany))
    have he : (e.1 == p) = true := List.find?_eq_some_iff_append.mp hfound |>.1
    rw [find?_replaced, hfound, Option.map_some, if_pos he, Option.map_some]
  case isFalse hany =>
    have hnone : (t.entries.find? fun e => e.1 == p) = none :=
      List.find?_eq_none.mpr fun e he heq => hany (List.any_eq_true.mpr ⟨e, he, heq⟩)
    simp [List.find?_append, hnone]

theorem entry?_put_of_ne {q : Place} (hq : q ≠ p) (x : Entry) :
    entry? (t.put p x) q = t.entry? q := by
  by_cases hnil : q = []
  · subst hnil
    rfl
  rw [entry?_of_ne_nil hnil, entry?_of_ne_nil hnil, put]
  split
  case isTrue =>
    rw [find?_replaced]
    cases hfound : t.entries.find? fun e => e.1 == q with
    | none => rfl
    | some e =>
      have he : (e.1 == q) = true := List.find?_eq_some_iff_append.mp hfound |>.1
      have hother : ¬ (e.1 == p) = true := fun h => hq ((beq_iff_eq.mp he).symm.trans (beq_iff_eq.mp h))
      rw [Option.map_some, if_neg hother]
  case isFalse =>
    have hp : ¬ (p == q) = true := fun h => hq (beq_iff_eq.mp h).symm
    simp [List.find?_append, hp]

theorem remove_put (hrooted : t.Rooted) (h : t.entry? p = none) (x : Entry) :
    (t.put p x).remove p = t := by
  have hkept : ∀ e ∈ t.entries, (!p.isPrefixOf e.1) = true := by
    intro e he
    rw [Bool.not_eq_true', Bool.eq_false_iff]
    intro hprefix
    have hne : p ≠ e.1 := ((ne_of_entry?_eq_none h).2 e he).symm
    have habove := hrooted e he p (List.isPrefixOf_iff_prefix.mp hprefix) hne
    rw [h] at habove
    cases habove
  rw [put_of_entry?_eq_none h, remove, List.filter_append, List.filter_eq_self.mpr hkept]
  simp

theorem entry?_remove_inside {q : Place} (hp : p ≠ []) (h : p <+: q) :
    FileTree.entry? (t.remove p) q = none := by
  have hq : q ≠ [] := by
    rintro rfl
    exact hp (List.prefix_nil.mp h)
  rw [entry?_of_ne_nil hq, Option.map_eq_none_iff, List.find?_eq_none]
  intro e he heq
  have hkept := (List.mem_filter.mp he).2
  rw [beq_iff_eq.mp heq, List.isPrefixOf_iff_prefix.mpr h] at hkept
  cases hkept

theorem entry?_remove_outside {q : Place} (h : ¬ p <+: q) :
    FileTree.entry? (t.remove p) q = t.entry? q := by
  by_cases hq : q = []
  · subst hq
    rfl
  rw [entry?_of_ne_nil hq, entry?_of_ne_nil hq, remove, List.find?_filter]
  congr 2
  funext e
  by_cases he : (e.1 == q) = true
  · have hkept : (!p.isPrefixOf e.1) = true := by
      rw [beq_iff_eq.mp he, Bool.not_eq_true', Bool.eq_false_iff]
      exact fun hprefix => h (List.isPrefixOf_iff_prefix.mp hprefix)
    simp [hkept, he]
  · simp [he]

end FirmwareKit.FileTree
