import FirmwareKit.Command.Outline
import Mathlib.Data.List.Forall2
import Mathlib.Data.List.Infix
import Mathlib.Data.List.Nodup
import Mathlib.Data.String.Basic
set_option autoImplicit false

/-!
# Rows of an outline

A command is known by its position, the numbers of the children to take on the way to it as they
were declared. The rows of an outline show every position once, each command before those below it
and siblings by name, and the marks of a row tell which of the commands above are last of their
siblings.
-/
namespace FirmwareKit.Outline

/-! ## Positions -/

def documentation : Outline → String
  | .node _ documentation _ => documentation

def children : Outline → List Outline
  | .node _ _ children => children

def at? : Outline → List Nat → Option Outline
  | o, [] => some o
  | o, i :: p => o.children[i]?.bind fun c => c.at? p

/-- Siblings stand in the order of their names, those of one name as they were declared. -/
def Precedes (siblings : List Outline) (i j : Nat) : Prop :=
  ∃ c ∈ siblings[i]?, ∃ d ∈ siblings[j]?, c.name < d.name ∨ (c.name = d.name ∧ i < j)

instance (siblings : List Outline) (i j : Nat) : Decidable (Precedes siblings i j) :=
  inferInstanceAs (Decidable (∃ c ∈ siblings[i]?, ∃ d ∈ siblings[j]?, _))

/-- A command comes before those below it, and with them before its later siblings. -/
inductive Before : Outline → List Nat → List Nat → Prop where
  | above {o : Outline} {j : Nat} {q : List Nat} : Before o [] (j :: q)
  | beside {o : Outline} {i j : Nat} {p q : List Nat} (h : Precedes o.children i j) :
    Before o (i :: p) (j :: q)
  | inside {o c : Outline} {i : Nat} {p q : List Nat} (hchild : o.children[i]? = some c)
    (h : Before c p q) : Before o (i :: p) (i :: q)

def IsLast : Outline → List Nat → Prop
  | _, [] => True
  | o, [i] => ∀ j < o.children.length, j ≠ i → Precedes o.children j i
  | o, i :: j :: p => ∀ c ∈ o.children[i]?, c.IsLast (j :: p)

instance decidableIsLast : ∀ (o : Outline) (p : List Nat), Decidable (o.IsLast p)
  | _, [] => .isTrue trivial
  | o, [i] => inferInstanceAs (Decidable (∀ j < o.children.length, j ≠ i → Precedes _ j i))
  | o, i :: j :: p =>
    have (c : Outline) : Decidable (c.IsLast (j :: p)) := decidableIsLast c (j :: p)
    inferInstanceAs (Decidable (∀ c ∈ o.children[i]?, c.IsLast (j :: p)))

/-- The positions strictly between the root and a command, from top to bottom. -/
def between (p : List Nat) : List (List Nat) := p.inits.tail.dropLast

def lead (o : Outline) (p : List Nat) : String :=
  String.join ((between p).map fun q => if o.IsLast q then "    " else "│   ")

def ownMark (o : Outline) (p : List Nat) : String :=
  if p = [] then "" else if o.IsLast p then "└── " else "├── "

def Shows (o : Outline) (p : List Nat) (r : Row) : Prop :=
  ∃ c, o.at? p = some c ∧ r = ⟨o.lead p ++ o.ownMark p ++ c.name, summaryOf c.documentation⟩

mutual
theorem inductBelow {P : Outline → Prop}
    (step : ∀ name documentation children, (∀ c ∈ children, P c) →
      P (.node name documentation children)) : ∀ o, P o
  | .node name documentation children =>
    step name documentation children (inductAll step children)

theorem inductAll {P : Outline → Prop}
    (step : ∀ name documentation children, (∀ c ∈ children, P c) →
      P (.node name documentation children)) : ∀ cs : List Outline, ∀ c ∈ cs, P c
  | [] => nofun
  | c :: rest => List.forall_mem_cons.mpr ⟨inductBelow step c, inductAll step rest⟩
end

variable {o c d : Outline} {cs : List Outline} {i j : Nat} {p q : List Nat} {isLast : Bool}

theorem at?_cons_iff : o.at? (i :: p) = some d ↔
    ∃ c, o.children[i]? = some c ∧ c.at? p = some d :=
  Option.bind_eq_some_iff

theorem Precedes.asymm (h : Precedes cs i j) : ¬ Precedes cs j i := by
  obtain ⟨c, hc, d, hd, h⟩ := h
  rintro ⟨d', hd', c', hc', h'⟩
  cases Option.mem_unique hc hc'
  cases Option.mem_unique hd hd'
  rcases h with h | ⟨hname, h⟩ <;> rcases h' with h' | ⟨hname', h'⟩
  · exact lt_asymm h h'
  · exact h.ne hname'.symm
  · exact h'.ne hname.symm
  · exact Nat.lt_asymm h h'

theorem Before.ne (h : o.Before p q) : p ≠ q := by
  induction h with
  | above => exact nofun
  | beside h =>
    intro heq
    obtain ⟨rfl, -⟩ := List.cons.inj heq
    exact h.asymm h
  | inside _ _ ih => exact fun heq => ih (List.cons.inj heq).2

theorem isLast_below (hchild : o.children[i]? = some c) :
    o.IsLast (i :: j :: p) ↔ c.IsLast (j :: p) := by
  rw [IsLast, hchild]
  simp

/-! ## Siblings by name -/

def order (cs : List Outline) : List (Outline × Nat) := cs.zipIdx.mergeSort (List.zipIdxLE byName)

theorem mem_order_iff : (c, i) ∈ order cs ↔ cs[i]? = some c := by
  rw [order, List.mem_mergeSort, List.mem_zipIdx_iff_getElem?]

theorem byName_iff : byName c d = true ↔ c.name ≤ d.name := by
  rw [byName, Bool.not_eq_true', decide_eq_false_iff_not, not_lt]

theorem numbers_order (cs : List Outline) : (order cs).Pairwise fun x y => x.2 ≠ y.2 := by
  have hnumbers : ((order cs).map Prod.snd).Perm (List.range' 0 cs.length) := by
    rw [← List.zipIdx_map_snd]
    exact (List.mergeSort_perm _ _).map _
  exact List.pairwise_map.mp (hnumbers.nodup_iff.mpr List.nodup_range')

theorem precedes_order (cs : List Outline) :
    (order cs).Pairwise fun x y => Precedes cs x.2 y.2 := by
  have htrans (a b c : Outline) (hab : byName a b = true) (hbc : byName b c = true) :
      byName a c = true := byName_iff.mpr ((byName_iff.mp hab).trans (byName_iff.mp hbc))
  have htotal (a b : Outline) : (byName a b || byName b a) = true := by
    rw [Bool.or_eq_true, byName_iff, byName_iff]
    exact le_total a.name b.name
  have hsorted : (order cs).Pairwise fun x y => List.zipIdxLE byName x y = true :=
    List.pairwise_mergeSort (List.zipIdxLE_trans htrans) (List.zipIdxLE_total htotal) cs.zipIdx
  refine (hsorted.and (numbers_order cs)).imp_of_mem ?_
  rintro ⟨c, i⟩ ⟨d, j⟩ hc hd ⟨hle, hne⟩
  refine ⟨c, mem_order_iff.mp hc, d, mem_order_iff.mp hd, ?_⟩
  simp only [List.zipIdxLE, byName_iff] at hle
  split at hle
  case isTrue hcd =>
    split at hle
    case isTrue hdc => exact .inr ⟨le_antisymm hcd hdc, lt_of_le_of_ne (of_decide_eq_true hle) hne⟩
    case isFalse hdc => exact .inl (not_le.mp hdc)
  case isFalse => cases hle

theorem name_sorted (o : Outline) : o.sorted.name = o.name := by
  cases o
  rfl

theorem sortedAll_eq (cs : List Outline) : sortedAll cs = cs.map sorted := by
  induction cs with
  | nil => rfl
  | cons c rest ih => rw [sortedAll, ih, List.map_cons]

theorem sorted_children (cs : List Outline) :
    (sortedAll cs).mergeSort byName = (order cs).map fun x => x.1.sorted := by
  have hnames : ∀ c ∈ cs, ∀ d ∈ cs, byName c d = byName c.sorted d.sorted := fun c _ d _ => by
    rw [byName, byName, name_sorted, name_sorted]
  rw [sortedAll_eq, ← List.map_mergeSort hnames, ← List.mergeSort_zipIdx, List.map_map]
  rfl

/-- What stands last in the order has no sibling behind it. -/
theorem isLast_iff_of_order {name documentation : String} {before after : List (Outline × Nat)}
    (h : order cs = before ++ (c, i) :: after) :
    (node name documentation cs).IsLast [i] ↔ after = [] := by
  have hpairs := precedes_order cs
  rw [h, List.pairwise_append, List.pairwise_cons] at hpairs
  obtain ⟨-, ⟨hafter, -⟩, hbefore⟩ := hpairs
  constructor
  · intro hlast
    by_contra hne
    obtain ⟨⟨d, j⟩, rest, rfl⟩ := List.exists_cons_of_ne_nil hne
    have hd : cs[j]? = some d := mem_order_iff.mp (by rw [h]; simp)
    have hij := hafter (d, j) List.mem_cons_self
    have hji := hlast j (List.getElem?_eq_some_iff.mp hd).1 (by rintro rfl; exact hij.asymm hij)
    exact hij.asymm hji
  · rintro rfl j hj hne
    have hmem : (cs[j], j) ∈ order cs := mem_order_iff.mpr (List.getElem?_eq_getElem hj)
    rw [h, List.mem_append, List.mem_singleton] at hmem
    rcases hmem with hmem | hmem
    · exact hbefore _ hmem _ (List.mem_singleton_self _)
    · exact absurd (Prod.mk.inj hmem).2 hne

/-! ## All positions -/

mutual
def places : Outline → List (List Nat)
  | .node _ _ children =>
    [] :: (order children).flatMap fun x =>
      ((placesOfAll children)[x.2]?.getD []).map (x.2 :: ·)

def placesOfAll : List Outline → List (List (List Nat))
  | [] => []
  | c :: rest => places c :: placesOfAll rest
end

theorem placesOfAll_eq (cs : List Outline) : placesOfAll cs = cs.map places := by
  induction cs with
  | nil => rfl
  | cons c rest ih => rw [placesOfAll, ih, List.map_cons]

theorem places_node (name documentation : String) (cs : List Outline) :
    places (.node name documentation cs) =
      [] :: (order cs).flatMap fun x => x.1.places.map (x.2 :: ·) := by
  rw [places, placesOfAll_eq]
  congr 1
  refine List.flatMap_congr fun ⟨c, i⟩ hx => ?_
  rw [List.getElem?_map, mem_order_iff.mp hx]
  rfl

theorem mem_places_iff (o : Outline) (p : List Nat) : p ∈ o.places ↔ (o.at? p).isSome = true := by
  induction o using inductBelow generalizing p with
  | step name documentation cs ih =>
    rw [places_node]
    cases p with
    | nil => simp [at?]
    | cons i p =>
      simp only [List.mem_cons, List.mem_flatMap, List.mem_map, Option.isSome_iff_exists,
        at?_cons_iff, reduceCtorEq, false_or]
      constructor
      · rintro ⟨⟨c, j⟩, hc, q, hq, heq⟩
        obtain ⟨rfl, rfl⟩ := List.cons.inj heq
        have hchild := mem_order_iff.mp hc
        obtain ⟨d, hd⟩ := Option.isSome_iff_exists.mp
          ((ih c (List.mem_of_getElem? hchild) q).mp hq)
        exact ⟨d, c, hchild, hd⟩
      · rintro ⟨d, c, hchild, hd⟩
        have hp := (ih c (List.mem_of_getElem? hchild) p).mpr (by rw [hd]; rfl)
        exact ⟨(c, i), mem_order_iff.mpr hchild, p, hp, rfl⟩

theorem before_places (o : Outline) : o.places.Pairwise o.Before := by
  induction o using inductBelow with
  | step name documentation cs ih =>
    rw [places_node, List.pairwise_cons, List.pairwise_flatMap]
    refine ⟨?_, ?_, (precedes_order cs).imp ?_⟩
    · intro q hq
      obtain ⟨x, -, hq⟩ := List.mem_flatMap.mp hq
      obtain ⟨q, -, rfl⟩ := List.mem_map.mp hq
      exact .above
    · rintro ⟨c, i⟩ hc
      have hchild := mem_order_iff.mp hc
      refine List.pairwise_map.mpr ((ih c (List.mem_of_getElem? hchild)).imp ?_)
      exact fun h => .inside hchild h
    · rintro x y h p hp q hq
      obtain ⟨p, -, rfl⟩ := List.mem_map.mp hp
      obtain ⟨q, -, rfl⟩ := List.mem_map.mp hq
      exact .beside h

/-! ## Leads and marks one step down -/

theorem between_cons_cons (i j : Nat) (p : List Nat) :
    between (i :: j :: p) = [i] :: (between (j :: p)).map (i :: ·) := by
  have hne : (p.inits.map (j :: ·)).map (i :: ·) ≠ [] := by cases p <;> simp
  simp only [between, List.inits_cons, List.tail_cons, List.map_cons, List.map_dropLast]
  exact List.dropLast_cons_of_ne_nil hne

theorem ne_nil_of_mem_between (h : q ∈ between p) : q ≠ [] := by
  cases p with
  | nil => cases h
  | cons i p =>
    rw [between, List.inits_cons, List.tail_cons] at h
    obtain ⟨r, -, rfl⟩ := List.mem_map.mp (List.mem_of_mem_dropLast h)
    exact List.cons_ne_nil i r

theorem underMark_eq (h : o.IsLast p ↔ isLast = true) :
    underMark isLast = if o.IsLast p then "    " else "│   " := by
  simp only [underMark, h]

theorem lead_child (o : Outline) (i : Nat) : o.lead [i] = "" := by
  simp [lead, between]

theorem lead_below (hchild : o.children[i]? = some c) : o.lead (i :: j :: p) =
    (if o.IsLast [i] then "    " else "│   ") ++ c.lead (j :: p) := by
  rw [lead, between_cons_cons, List.map_cons, String.join_cons, List.map_map, lead]
  congr 2
  refine List.map_congr_left fun q hq => ?_
  obtain ⟨k, q, rfl⟩ := List.exists_cons_of_ne_nil (ne_nil_of_mem_between hq)
  simp only [Function.comp_apply, isLast_below hchild]

theorem ownMark_child (o : Outline) (i : Nat) :
    o.ownMark [i] = if o.IsLast [i] then "└── " else "├── " := if_neg (List.cons_ne_nil i [])

theorem ownMark_below (hchild : o.children[i]? = some c) :
    o.ownMark (i :: j :: p) = c.ownMark (j :: p) := by
  rw [ownMark, ownMark, if_neg (List.cons_ne_nil _ _), if_neg (List.cons_ne_nil _ _)]
  simp only [isLast_below hchild]

/-! ## The walk -/

/-- What the walk writes before names once it has come to a command and knows its lead: before the
name of the command itself, and before the names of those below it. -/
def behind (depth : Nat) (isLast : Bool) (lead : String) (o : Outline) : List Nat → String
  | [] => lead ++ if depth = 0 then "" else mark isLast
  | i :: p => (if 1 < depth + 1 then lead ++ underMark isLast else lead) ++ o.lead (i :: p) ++
    o.ownMark (i :: p)

/-- Coming to a child on the way makes no difference to what is written below it. -/
theorem behind_child {name documentation : String} {before after : List (Outline × Nat)}
    (h : order cs = before ++ (c, i) :: after) (depth : Nat) (isLast : Bool) (lead : String)
    (p : List Nat) : behind depth isLast lead (.node name documentation cs) (i :: p) =
      behind (depth + 1) after.isEmpty
        (if 1 < depth + 1 then lead ++ underMark isLast else lead) c p := by
  have hchild : cs[i]? = some c := mem_order_iff.mp (by rw [h]; simp)
  have hlast : (node name documentation cs).IsLast [i] ↔ after.isEmpty = true :=
    (isLast_iff_of_order h).trans List.isEmpty_iff.symm
  cases p with
  | nil =>
    simp only [behind, lead_child, ownMark_child, String.append_empty, mark, hlast,
      Nat.succ_ne_zero, if_false]
  | cons j p =>
    have hdepth : 1 < depth + 1 + 1 := by omega
    have hlead := lead_below (o := .node name documentation cs) (j := j) (p := p) hchild
    have hmark := ownMark_below (o := .node name documentation cs) (j := j) (p := p) hchild
    rw [← underMark_eq hlast] at hlead
    simp only [behind, hlead, hmark, if_pos hdepth, String.append_assoc]

/-- The walk over siblings, where it is known for each of them with what comes behind it. -/
theorem forall₂_branches {R : List Nat → Row → Prop} {depth : Nat} {isParentLast : Bool}
    {lead : String} {xs : List (Outline × Nat)}
    (h : ∀ before (c : Outline) (i : Nat) after, xs = before ++ (c, i) :: after →
      List.Forall₂ R (c.places.map (i :: ·))
        (branch depth after.isEmpty isParentLast lead c.sorted)) :
    List.Forall₂ R (xs.flatMap fun x => x.1.places.map (x.2 :: ·))
      (branches depth isParentLast lead (xs.map fun x => x.1.sorted)) := by
  induction xs with
  | nil => exact .nil
  | cons x rest ih =>
    rw [List.flatMap_cons, List.map_cons, branches, List.isEmpty_map]
    refine List.rel_append (h [] x.1 x.2 rest rfl) (ih fun before c i after heq => ?_)
    exact h (x :: before) c i after (by rw [heq, List.cons_append])

theorem forall₂_branch (o : Outline) (depth : Nat) (isLast isParentLast : Bool) (lead : String) :
    List.Forall₂ (fun p r => ∃ c, o.at? p = some c ∧ r =
      ⟨behind depth isLast (if 1 < depth then lead ++ underMark isParentLast else lead) o p ++
        c.name, summaryOf c.documentation⟩) o.places
      (branch depth isLast isParentLast lead o.sorted) := by
  -- the depth, the flags and the lead stay free, as a child gets others than its parent
  induction o using inductBelow generalizing depth isLast isParentLast lead with
  | step name documentation cs ih =>
    rw [places_node, sorted, sorted_children, branch]
    refine .cons ⟨_, rfl, rfl⟩ (forall₂_branches fun before c i after h => ?_)
    have hchild : cs[i]? = some c := mem_order_iff.mp (by rw [h]; simp)
    refine List.forall₂_map_left_iff.mpr ((ih c (List.mem_of_getElem? hchild) _ _ _ _).imp ?_)
    rintro p r ⟨d, hd, rfl⟩
    refine ⟨d, at?_cons_iff.mpr ⟨c, hchild, hd⟩, ?_⟩
    rw [behind_child h]

/-- The rows show each command once: those above before those below, siblings by name. Behind blanks
and bars for the commands strictly between stands the mark of the command, then its name. -/
theorem rows_preorder (o : Outline) : ∃ places : List (List Nat),
    (∀ p, p ∈ places ↔ (o.at? p).isSome = true) ∧ places.Nodup ∧ places.Pairwise o.Before ∧
      List.Forall₂ o.Shows places o.rows := by
  refine ⟨o.places, mem_places_iff o, (before_places o).imp Before.ne, before_places o, ?_⟩
  refine (forall₂_branch o 0 false false "").imp fun p r => ?_
  rintro ⟨c, hc, rfl⟩
  refine ⟨c, hc, ?_⟩
  cases p with
  | nil => rfl
  | cons i p => simp [behind]

example : (node "tool" "" [node "rom" "" [node "pack" "" []],
    node "map" "" [node "show" "" []]]).rows.map Row.label =
    ["tool", "├── map", "│   └── show", "└── rom", "    └── pack"] := by cbv

end FirmwareKit.Outline
