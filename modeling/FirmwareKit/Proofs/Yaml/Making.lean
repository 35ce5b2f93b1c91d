import FirmwareKit.Proofs.Yaml.Faults
set_option autoImplicit false

/-!
# The order in which documents are made

While a document is made its nodes are visited level by level: a collection is put off to the next
level, every other node is made when it is met. The first visit that fails decides how the making
ends; where none fails, the document has a value or none that a configuration can hold.
-/
namespace FirmwareKit.Yaml

/-- A node that is made, or one that may not stand where it does. -/
inductive Visit where
  | node (n : Node)
  | refused

namespace Visit

def made : Visit → Except Refusal Unit
  | .node n => n.make.map fun _ => ()
  | .refused => .error .malformed

def Fails (v : Visit) : Prop := ∃ r, v.made = .error r

theorem refused_fails : refused.Fails := ⟨_, rfl⟩

theorem node_made_eq_error_iff (n : Node) (r : Refusal) :
    (node n).made = .error r ↔ n.make = .error r := by
  rw [made]
  cases n.make <;> simp [Except.map]

/-- What comes to a result once some visits went well. -/
def Precede {α : Type} (vs : List Visit) (x : Except Refusal α) (a : α) : Prop :=
  x = forM vs made >>= fun _ => .ok a

namespace Precede
variable {α β : Type} {vs ws : List Visit} {x : Except Refusal α} {a : α}

theorem nil (a : α) : Precede [] (.ok a) a := rfl

theorem refused (a : α) : Precede [.refused] (.error .malformed) a := rfl

theorem bind {f : α → Except Refusal β} {b : β} (h : Precede vs x a) (hf : Precede ws (f a) b) :
    Precede (vs ++ ws) (x >>= f) b := by
  rw [Precede, List.forM_append, h]
  cases forM vs made with
  | error r => rfl
  | ok u => exact hf

theorem map (h : Precede vs x a) (f : α → β) : Precede vs (x.map f) (f a) := by
  rw [Precede, h]
  cases forM vs made <;> rfl

theorem mapM {γ : Type} {f : γ → Except Refusal α} {inner : γ → List Visit} {g : γ → α}
    (h : ∀ c, Precede (inner c) (f c) (g c)) (cs : List γ) :
    Precede (cs.flatMap inner) (cs.mapM f) (cs.map g) := by
  induction cs with
  | nil => exact nil []
  | cons c cs ih =>
    rw [List.mapM_cons, List.flatMap_cons, List.map_cons]
    have hcons := ih.bind (f := fun as => .ok (g c :: as)) (nil (g c :: cs.map g))
    rw [List.append_nil] at hcons
    exact (h c).bind hcons

theorem flatten {γ δ : Type} {f : γ → Except Refusal (List δ)} {inner : γ → List Visit}
    {g : γ → List δ} (h : ∀ c, Precede (inner c) (f c) (g c)) (cs : List γ) :
    Precede (cs.flatMap inner) ((cs.mapM f).map List.flatten) (cs.flatMap g) := by
  rw [List.flatMap_def]
  exact (mapM h cs).map List.flatten

end Precede
end Visit

namespace Node

/-! The visits of a document -/

def visited (n : Node) : List Visit := if n.kind.isDeferred then [] else [.node n]

def deferred (n : Node) : List Node := if n.kind.isDeferred then [n] else []

def visitedEntry (e : Node × Node) : List Visit :=
  e.1.visited ++ if e.1.kind.isDeferred then [.refused] else e.2.visited

def visitedPair : Node → List Visit
  | .mapping _ [(k, v)] => k.visited ++ v.visited
  | _ => [.refused]

def deferredPair : Node → List Node
  | .mapping _ [(k, v)] => k.deferred ++ v.deferred
  | _ => []

def inside (n : Node) : List Visit × List Node :=
  match n with
  | .sequence .sequence items => (items.flatMap visited, items.flatMap deferred)
  | .sequence .pairs items => (items.flatMap visitedPair, items.flatMap deferredPair)
  | .mapping .mapping es | .mapping .set es =>
    match allEntries es with
    | .ok es => (es.flatMap visitedEntry, es.flatMap fun e => e.2.deferred)
    | .error _ => ([.refused], [])
  | .enclosing k isMapping _ => if k.hasEntries = isMapping then ([], []) else ([.refused], [])
  | _ => ([.refused], [])

def visitsFrom (fuel : Nat) (level : List Node) : List Visit :=
  match fuel with
  | 0 => []
  | fuel + 1 =>
    level.flatMap (fun n => n.inside.1) ++ visitsFrom fuel (level.flatMap fun n => n.inside.2)

def visits (fuel : Nat) (n : Node) : List Visit := n.visited ++ visitsFrom fuel n.deferred

/-! Making a document is going through its visits -/

section
open Visit (Precede)

theorem precede_meet (n : Node) : Precede n.visited n.meet n.deferred := by
  rw [visited, meet, deferred]
  split
  · exact .nil _
  · rw [Precede, List.forM_cons, Visit.made]
    cases n.make <;> rfl

theorem precede_meetEntry (e : Node × Node) :
    Precede (visitedEntry e) (meetEntry e) e.2.deferred := by
  refine (precede_meet e.1).bind ?_
  split
  · exact .refused _
  · exact precede_meet e.2

theorem precede_meetPair (n : Node) : Precede (visitedPair n) (meetPair n) (deferredPair n) := by
  fun_cases visitedPair n with
  | case1 kind k v =>
    have hpair := (precede_meet v).bind (f := fun second => .ok (k.deferred ++ second)) (.nil _)
    rw [List.append_nil] at hpair
    exact (precede_meet k).bind hpair
  | case2 n hn =>
    rw [meetPair.eq_2 n hn, deferredPair.eq_2 n hn]
    exact .refused _

mutual
theorem brings_splitMerged : ∀ es : List (Node × Node), Brings [] (splitMerged es)
  | [] => .ok _
  | (k, v) :: rest => by
    rw [splitMerged]
    refine .ite ((brings_merged v).bind fun first => ?_) ?_
    · exact (brings_splitMerged rest).bind fun _ => .ok _
    · exact (brings_splitMerged rest).bind fun _ => .ok _

theorem brings_merged : ∀ n : Node, Brings [] n.merged
  | .scalar .. | .enclosing _ false _ => .malformed
  | .enclosing _ true _ => .ok _
  | .mapping _ es => by
    rw [merged]
    exact (brings_splitMerged es).map
  | .sequence _ items => by
    rw [merged]
    exact (brings_mergedItems items).map

theorem brings_mergedItems : ∀ items : List Node, Brings [] (mergedItems items)
  | [] => .ok _
  | .scalar .. :: _ | .sequence .. :: _ | .enclosing _ false _ :: _ => .malformed
  | .enclosing _ true _ :: rest => by
    rw [mergedItems]
    exact brings_mergedItems rest
  | .mapping _ es :: rest => by
    rw [mergedItems]
    refine (brings_splitMerged es).map.bind fun first => ?_
    exact (brings_mergedItems rest).bind fun _ => .ok _
end

theorem allEntries_error {es : List (Node × Node)} {r : Refusal} (h : allEntries es = .error r) :
    r = .malformed := by
  cases r with
  | malformed => rfl
  | system f => exact absurd ((brings_splitMerged es).map f h) List.not_mem_nil

def meetEntries (es : List (Node × Node)) : Except Refusal (List Node) :=
  allEntries es >>= fun es => (es.mapM meetEntry).map List.flatten

theorem precede_meetEntries {es all : List (Node × Node)} (h : allEntries es = .ok all) :
    Precede (all.flatMap visitedEntry) (meetEntries es) (all.flatMap fun e => e.2.deferred) := by
  rw [meetEntries, h]
  exact .flatten precede_meetEntry all

theorem precede_meetEntries_error {es : List (Node × Node)} {r : Refusal}
    (h : allEntries es = .error r) : Precede [.refused] (meetEntries es) [] := by
  rw [meetEntries, h, allEntries_error h]
  exact .refused _

theorem precede_descend (n : Node) : Precede n.inside.1 n.descend n.inside.2 := by
  fun_cases inside n
  case case1 items => exact .flatten precede_meet items
  case case2 items => exact .flatten precede_meetPair items
  case case3 h | case5 h => exact precede_meetEntries h
  case case4 h | case6 h => exact precede_meetEntries_error h
  case case7 k =>
    rw [descend, if_pos rfl]
    exact .nil _
  case case8 h =>
    rw [descend, if_neg h]
    exact .refused _
  case case9 h₁ h₂ h₃ h₄ h₅ =>
    rw [descend.eq_6 n h₁ h₂ h₃ h₄ h₅]
    exact .refused _

theorem visitsFrom_nil (fuel : Nat) : visitsFrom fuel [] = [] := by
  induction fuel with
  | zero => rfl
  | succ fuel ih => simpa [visitsFrom] using ih

theorem precede_checkLevels (fuel : Nat) (level : List Node) :
    Precede (visitsFrom fuel level) (checkLevels fuel level) () := by
  induction fuel generalizing level with
  | zero => exact .nil ()
  | succ fuel ih =>
    rw [checkLevels]
    split
    · rename_i hempty
      rw [List.isEmpty_iff.mp hempty, visitsFrom_nil]
      exact .nil ()
    · exact (Precede.flatten precede_descend level).bind (ih _)

theorem precede_document (fuel : Nat) (n : Node) :
    Precede (n.visits fuel) (n.meet >>= checkLevels fuel) () :=
  (precede_meet n).bind (precede_checkLevels fuel n.deferred)

end

/-! Nothing fails behind the visits -/

theorem flatMap_subset {α β : Type} {xs ys : List α} (h : xs ⊆ ys) (f : α → List β) :
    xs.flatMap f ⊆ ys.flatMap f := by
  intro b hb
  obtain ⟨a, ha, hb⟩ := List.mem_flatMap.mp hb
  exact List.mem_flatMap.mpr ⟨a, h ha, hb⟩

theorem visitsFrom_subset {level level' : List Node} (h : level ⊆ level') (fuel : Nat) :
    visitsFrom fuel level ⊆ visitsFrom fuel level' := by
  induction fuel generalizing level level' with
  | zero => simp [visitsFrom]
  | succ fuel ih =>
    rw [visitsFrom, visitsFrom]
    intro v hv
    rcases List.mem_append.mp hv with hv | hv
    · exact List.mem_append_left _ (flatMap_subset h _ hv)
    · exact List.mem_append_right _ (ih (flatMap_subset h _) hv)

theorem visits_subset {n : Node} {vs : List Visit} {level : List Node} (hv : n.visited ⊆ vs)
    (hd : n.deferred ⊆ level) (fuel : Nat) : n.visits fuel ⊆ vs ++ visitsFrom fuel level := by
  intro v h
  rcases List.mem_append.mp h with h | h
  · exact List.mem_append_left _ (hv h)
  · exact List.mem_append_right _ (visitsFrom_subset hd fuel h)

theorem visits_of_deferred {n : Node} (h : n.kind.isDeferred = true) (fuel : Nat) :
    n.visits (fuel + 1) = n.inside.1 ++ visitsFrom fuel n.inside.2 := by
  simp [visits, visited, deferred, h, visitsFrom]

theorem visits_of_made {n : Node} (h : n.kind.isDeferred = false) (fuel : Nat) :
    n.visits fuel = [.node n] := by
  simp [visits, visited, deferred, h, visitsFrom_nil]

theorem exists_fails_of_entry {fuel : Nat} {es : List (Node × Node)} {e : Node × Node}
    (he : e ∈ es)
    (h : (∃ v ∈ e.1.visits fuel, v.Fails) ∨ ∃ v ∈ e.2.visits fuel, v.Fails) :
    ∃ v ∈ es.flatMap visitedEntry ++ visitsFrom fuel (es.flatMap fun e => e.2.deferred),
      v.Fails := by
  have hin : visitedEntry e ⊆ es.flatMap visitedEntry :=
    fun v hv => List.mem_flatMap.mpr ⟨e, he, hv⟩
  cases hk : e.1.kind.isDeferred with
  | true =>
    -- a key that is put off is refused, whatever is inside of it
    refine ⟨.refused, List.mem_append_left _ (hin ?_), Visit.refused_fails⟩
    simp [visitedEntry, hk]
  | false =>
    rcases h with ⟨v, hv, hfails⟩ | ⟨v, hv, hfails⟩
    · rw [visits_of_made hk] at hv
      refine ⟨v, List.mem_append_left _ (hin ?_), hfails⟩
      simpa [visitedEntry, visited, hk] using Or.inl (List.mem_singleton.mp hv)
    · refine ⟨v, visits_subset (fun w hw => hin ?_) (fun m hm => ?_) fuel hv, hfails⟩
      · simp [visitedEntry, hk, hw]
      · exact List.mem_flatMap.mpr ⟨e, he, hm⟩

/-! What is inside of a collection is visited with it -/

section
variable {value : Node → Except Refusal Value} {fuel : Nat} {f : SystemFault}

/-- Every value that is not there for a fault of its own has a visit that fails. -/
def Visits (value : Node → Except Refusal Value) (fuel : Nat) : Prop :=
  ∀ {n : Node} {f : SystemFault}, value n = .error (.system f) → ∃ v ∈ n.visits fuel, v.Fails

theorem exists_fails_of_items (h : Visits value fuel) {items : List Node}
    (hitems : items.mapM value = .error (.system f)) :
    ∃ v ∈ items.flatMap visited ++ visitsFrom fuel (items.flatMap deferred), v.Fails := by
  obtain ⟨m, hm, hvalue⟩ := Outcome.exists_of_mapM_eq_error hitems
  obtain ⟨v, hv, hfails⟩ := h hvalue
  exact ⟨v, visits_subset (fun w hw => List.mem_flatMap.mpr ⟨m, hm, hw⟩)
    (fun w hw => List.mem_flatMap.mpr ⟨m, hm, hw⟩) fuel hv, hfails⟩

theorem exists_fails_of_pair (h : Visits value fuel) {n : Node}
    (hn : pairValue value n = .error (.system f)) :
    ∃ v ∈ visitedPair n ++ visitsFrom fuel (deferredPair n), v.Fails := by
  fun_cases visitedPair n with
  | case1 kind k v =>
    rcases (Outcome.bind_eq_error_iff _ _ _).mp hn with hn | ⟨_, _, hn⟩
    · obtain ⟨w, hw, hfails⟩ := h hn
      exact ⟨w, visits_subset (List.subset_append_left _ _) (List.subset_append_left _ _) fuel hw,
        hfails⟩
    · rcases (Outcome.bind_eq_error_iff _ _ _).mp hn with hn | ⟨_, _, ⟨⟩⟩
      obtain ⟨w, hw, hfails⟩ := h hn
      exact ⟨w, visits_subset (List.subset_append_right _ _) (List.subset_append_right _ _) fuel hw,
        hfails⟩
  | case2 n hnone =>
    rw [pairValue.eq_2 value n hnone] at hn
    cases hn

theorem exists_fails_of_pairs (h : Visits value fuel) {items : List Node}
    (hitems : items.mapM (pairValue value) = .error (.system f)) :
    ∃ v ∈ items.flatMap visitedPair ++ visitsFrom fuel (items.flatMap deferredPair), v.Fails := by
  obtain ⟨m, hm, hvalue⟩ := Outcome.exists_of_mapM_eq_error hitems
  obtain ⟨v, hv, hfails⟩ := exists_fails_of_pair h hvalue
  refine ⟨v, ?_, hfails⟩
  rcases List.mem_append.mp hv with hv | hv
  · exact List.mem_append_left _ (List.mem_flatMap.mpr ⟨m, hm, hv⟩)
  · exact List.mem_append_right _
      (visitsFrom_subset (fun w hw => List.mem_flatMap.mpr ⟨m, hm, hw⟩) fuel hv)

theorem exists_fails_of_entries (h : Visits value fuel) {es : List (Node × Node)}
    {inner : List Visit × List Node} (hinner : inner = match allEntries es with
      | .ok es => (es.flatMap visitedEntry, es.flatMap fun e => e.2.deferred)
      | .error _ => ([.refused], []))
    (hentries : entriesWith value es = .error (.system f)) :
    ∃ v ∈ inner.1 ++ visitsFrom fuel inner.2, v.Fails := by
  rcases (Outcome.bind_eq_error_iff _ _ _).mp hentries with hall | ⟨all, hall, hentries⟩
  · cases allEntries_error hall
  · rw [hinner, hall]
    rcases (Outcome.bind_eq_error_iff _ _ _).mp hentries with hentries | ⟨_, _, ⟨⟩⟩
    obtain ⟨e, he, hvalue⟩ := Outcome.exists_of_mapM_eq_error hentries
    refine exists_fails_of_entry he ?_
    rcases (Outcome.bind_eq_error_iff _ _ _).mp hvalue with hkey | ⟨_, _, hvalue⟩
    · exact .inl (h hkey)
    · rcases (Outcome.bind_eq_error_iff _ _ _).mp hvalue with hvalue | ⟨_, _, ⟨⟩⟩
      exact .inr (h hvalue)

end

/-- What keeps a document from having a value, and is a fault of its own, is among its visits. -/
theorem exists_fails_of_valueWithin (enclosing : String → Bool → Value) (fuel : Nat) :
    Visits (valueWithin enclosing fuel) fuel := by
  induction fuel with
  | zero => nofun
  | succ fuel ih =>
    intro n f h
    rw [valueWithin.eq_def] at h
    simp only at h
    split at h
    case h_1 k items hk =>
      obtain rfl : k = .sequence := hk
      rw [visits_of_deferred rfl]
      exact exists_fails_of_items ih (Outcome.map_eq_error_iff.mp h)
    case h_2 k items hk =>
      obtain rfl : k = .pairs := hk
      rw [visits_of_deferred rfl]
      exact exists_fails_of_pairs ih (Outcome.map_eq_error_iff.mp h)
    case h_3 k es hk =>
      obtain rfl : k = .mapping := hk
      rw [visits_of_deferred rfl]
      exact exists_fails_of_entries ih rfl (Outcome.map_eq_error_iff.mp h)
    case h_4 k es hk =>
      obtain rfl : k = .set := hk
      rw [visits_of_deferred rfl]
      exact exists_fails_of_entries ih rfl (Outcome.map_eq_error_iff.mp h)
    case h_5 =>
      split at h
      case isTrue => split at h <;> cases h
      case isFalse hk =>
        rw [visits_of_made (by simpa using hk)]
        exact ⟨_, List.mem_singleton_self _, _, (Visit.node_made_eq_error_iff _ _).mpr h⟩

end Node

/-! The value of a text -/

def visitsOf (text : String) (d : Document) : List Visit := d.root.visits (text.toList.length + 2)

theorem load_of_document {text : String} {d : Document}
    (h : Node.ofText text.toList = .ok (some d)) :
    ∃ enclosing, load text = forM (visitsOf text d) Visit.made >>= fun _ =>
      d.root.valueWithin enclosing (text.toList.length + 2) := by
  have hmade := Node.precede_document (text.toList.length + 2) d.root
  refine ⟨d.repeated (text.toList.length + 2) greatestRepetition, ?_⟩
  have hload : load text = (d.root.meet >>= Node.checkLevels (text.toList.length + 2)) >>= fun _ =>
      d.root.valueWithin (d.repeated (text.toList.length + 2) greatestRepetition)
        (text.toList.length + 2) := by
    rw [load, h, bind_assoc]
    rfl
  rw [hload, hmade, bind_assoc]
  rfl

/-- A text comes to a fault of its own where its tokens do, or a node that cannot be made and that no
other failing visit comes before. -/
theorem load_eq_system_iff (text : String) (f : SystemFault) :
    load text = .error (.system f) ↔
      Node.ofText text.toList = .error (.system f) ∨
        ∃ d m, Node.ofText text.toList = .ok (some d) ∧
          First Visit.Fails (visitsOf text d) (.node m) ∧ m.make = .error (.system f) := by
  cases hdocument : Node.ofText text.toList with
  | error r => simp [load, hdocument]
  | ok document =>
    cases document with
    | none => simp [load, hdocument]
    | some d =>
      obtain ⟨enclosing, hload⟩ := load_of_document hdocument
      rw [hload, Outcome.bind_eq_error_iff, Outcome.forM_eq_error_iff]
      constructor
      · rintro (⟨v, hfirst, hv⟩ | ⟨_, hmade, hvalue⟩)
        · cases v with
          | refused => cases hv
          | node m =>
            exact .inr ⟨d, m, rfl, hfirst, (Visit.node_made_eq_error_iff m _).mp hv⟩
        · obtain ⟨v, hv, hfails⟩ := Node.exists_fails_of_valueWithin enclosing _ hvalue
          exact absurd hfails ((Outcome.forM_eq_ok_iff _ _).mp hmade v hv)
      · rintro (h | ⟨d', m, hd, hfirst, hm⟩)
        · cases h
        · cases hd
          exact .inl ⟨.node m, hfirst, (Visit.node_made_eq_error_iff m _).mpr hm⟩

end FirmwareKit.Yaml
