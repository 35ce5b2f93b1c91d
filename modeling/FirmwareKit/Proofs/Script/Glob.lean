import Mathlib.Data.List.Infix
import FirmwareKit.Proofs.Memory.Rule
set_option autoImplicit false

namespace FirmwareKit.Script

namespace Glob

inductive Item where
  | any
  | except (c : Char)
  | exactly (c : Char)
deriving DecidableEq, Repr

def parse : List Char → List Item
  | [] => []
  | '*' :: rest => .any :: parse rest
  | '[' :: '^' :: c :: ']' :: rest => .except c :: parse rest
  | c :: rest => .exactly c :: parse rest

def accepts : List Item → List Char → Bool
  | [], name => name.isEmpty
  | .any :: items, name => name.tails.any (accepts items)
  | .except _ :: _, [] | .exactly _ :: _, [] => false
  | .except c :: items, d :: name => d != c && accepts items name
  | .exactly c :: items, d :: name => d == c && accepts items name

end Glob

def globMatches (pattern name : String) : Bool :=
  Glob.accepts (Glob.parse pattern.toList) name.toList

namespace Glob

def Plain (c : Char) : Prop := c ≠ '*' ∧ c ≠ '['

theorem parse_cons {c : Char} (hc : Plain c) (rest : List Char) :
    parse (c :: rest) = .exactly c :: parse rest := by
  rw [parse]
  · exact hc.1
  · intro d tail h
    exact fun _ => hc.2 h

theorem accepts_any_iff {items : List Item} {name : List Char} :
    accepts (.any :: items) name ↔ ∃ rest, rest <:+ name ∧ accepts items rest := by
  simp only [accepts, List.any_eq_true, List.mem_tails]

theorem accepts_exactly_iff {c : Char} {items : List Item} {name : List Char} :
    accepts (.exactly c :: items) name ↔ ∃ rest, name = c :: rest ∧ accepts items rest := by
  cases name with
  | nil => simp [accepts]
  | cons d name =>
    rw [accepts, Bool.and_eq_true, beq_iff_eq]
    constructor
    · rintro ⟨rfl, h⟩
      exact ⟨name, rfl, h⟩
    · rintro ⟨rest, hrest, h⟩
      obtain ⟨rfl, rfl⟩ := List.cons.inj hrest
      exact ⟨rfl, h⟩

theorem accepts_any (name : List Char) : accepts [.any] name :=
  accepts_any_iff.mpr ⟨[], List.nil_suffix, rfl⟩

theorem accepts_one_iff {item : Item} {name : List Char} (hitem : item ≠ .any) :
    accepts [item] name ↔ ∃ c, name = [c] ∧ accepts [item] [c] := by
  constructor
  · intro h
    cases item with
    | any => exact absurd rfl hitem
    | except c | exactly c =>
      cases name with
      | nil => simp [accepts] at h
      | cons d name =>
        simp only [accepts, Bool.and_eq_true, List.isEmpty_iff] at h
        obtain ⟨_, rfl⟩ := h
        exact ⟨d, rfl, by simp [accepts, *]⟩
  · rintro ⟨c, rfl, h⟩
    exact h

/-- A star and one more item ask for the last character only. -/
theorem accepts_any_one_iff {item : Item} {name : List Char} (hitem : item ≠ .any) :
    accepts [.any, item] name ↔ ∃ c, name.getLast? = some c ∧ accepts [item] [c] := by
  rw [accepts_any_iff]
  constructor
  · rintro ⟨rest, hrest, h⟩
    obtain ⟨c, rfl, hc⟩ := (accepts_one_iff hitem).mp h
    exact ⟨c, List.singleton_suffix_iff_getLast?_eq_some.mp hrest, hc⟩
  · rintro ⟨c, hlast, hc⟩
    exact ⟨[c], List.singleton_suffix_iff_getLast?_eq_some.mpr hlast, hc⟩

theorem accepts_parse_append {stem : List Char} (hstem : ∀ c ∈ stem, Plain c) (tail : List Char)
    (name : List Char) : accepts (parse (stem ++ tail)) name ↔
      ∃ rest, name = stem ++ rest ∧ accepts (parse tail) rest := by
  induction stem generalizing name with
  | nil => simp
  | cons c stem ih =>
    obtain ⟨hc, hstem⟩ := List.forall_mem_cons.mp hstem
    rw [List.cons_append, parse_cons hc, accepts_exactly_iff]
    simp only [ih hstem, List.cons_append]
    constructor
    · rintro ⟨_, rfl, rest, rfl, h⟩
      exact ⟨rest, rfl, h⟩
    · rintro ⟨rest, rfl, h⟩
      exact ⟨_, rfl, rest, rfl, h⟩

end Glob

def Stem (name : String) : Prop := ∀ c ∈ name.toList, Memory.isIdentifierRest c = true

instance (name : String) : Decidable (Stem name) := List.decidableBAll _ name.toList

def Separated : List Char → Prop
  | [] => True
  | c :: _ => Memory.isIdentifierRest c = false

theorem stem_append_inj {xs ys rest rest' : List Char}
    (hx : ∀ c ∈ xs, Memory.isIdentifierRest c = true)
    (hy : ∀ c ∈ ys, Memory.isIdentifierRest c = true) (hr : Separated rest)
    (hr' : Separated rest') (h : xs ++ rest = ys ++ rest') : xs = ys ∧ rest = rest' := by
  induction xs generalizing ys with
  | nil =>
    cases ys with
    | nil => exact ⟨rfl, h⟩
    | cons c ys =>
      obtain rfl : rest = c :: (ys ++ rest') := h
      exact absurd (hy c List.mem_cons_self) (by rw [show _ = false from hr]; decide)
  | cons c xs ih =>
    obtain ⟨hc, hx⟩ := List.forall_mem_cons.mp hx
    cases ys with
    | nil =>
      obtain rfl : c :: (xs ++ rest) = rest' := h
      exact absurd hc (by rw [show _ = false from hr']; decide)
    | cons d ys =>
      obtain ⟨rfl, htail⟩ := List.cons.inj h
      obtain ⟨rfl, rfl⟩ := ih hx (List.forall_mem_cons.mp hy).2 htail
      exact ⟨rfl, rfl⟩

theorem plain_of_identifierRest {c : Char} (h : Memory.isIdentifierRest c = true) :
    Glob.Plain c := by
  constructor <;>
  · rintro rfl
    exact absurd h (by decide)

def Tail : List Char → Prop
  | [] => True
  | c :: _ => Memory.isIdentifierRest c = false ∧ Glob.Plain c

instance (c : Char) : Decidable (Glob.Plain c) := inferInstanceAs (Decidable (_ ∧ _))

instance : (tail : List Char) → Decidable (Tail tail)
  | [] => isTrue trivial
  | _ :: _ => inferInstanceAs (Decidable (_ ∧ _))

theorem Tail.separated {tail rest : List Char} (ht : Tail tail)
    (h : Glob.accepts (Glob.parse tail) rest) : Separated rest := by
  cases tail with
  | nil =>
    obtain rfl : rest = [] := List.isEmpty_iff.mp h
    trivial
  | cons c tail =>
    obtain ⟨hseparated, hplain⟩ := ht
    rw [Glob.parse_cons hplain, Glob.accepts_exactly_iff] at h
    obtain ⟨_, rfl, _⟩ := h
    exact hseparated

/-- A pattern of one family takes no section of another. -/
theorem globMatches_stem_iff {f g tail rest : String} (hf : Stem f) (hg : Stem g)
    (ht : Tail tail.toList) (hr : Separated rest.toList) :
    globMatches ("." ++ g ++ tail) ("." ++ f ++ rest) ↔ g = f ∧ globMatches tail rest := by
  have hplain : ∀ c ∈ '.' :: g.toList, Glob.Plain c :=
    List.forall_mem_cons.mpr ⟨by decide, fun c hc => plain_of_identifierRest (hg c hc)⟩
  have hpattern : ("." ++ g ++ tail).toList = ('.' :: g.toList) ++ tail.toList := by simp
  have hname : ("." ++ f ++ rest).toList = '.' :: (f.toList ++ rest.toList) := by simp
  unfold globMatches
  rw [hpattern, hname, Glob.accepts_parse_append hplain]
  constructor
  · rintro ⟨rest', hrest, h⟩
    obtain ⟨hstem, hrest⟩ := stem_append_inj hf hg hr (ht.separated h) (List.cons.inj hrest).2
    exact ⟨String.toList_inj.mp hstem.symm, hrest ▸ h⟩
  · rintro ⟨rfl, h⟩
    exact ⟨rest.toList, rfl, h⟩

end FirmwareKit.Script
