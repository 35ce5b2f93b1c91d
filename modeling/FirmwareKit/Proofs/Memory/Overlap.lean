import FirmwareKit.Memory.Normalize
import FirmwareKit.Proofs.Sequence
set_option autoImplicit false

namespace FirmwareKit

def Region.Holds (r : Region) (address : Int) : Prop := r.start ≤ address ∧ address ≤ r.last

def Region.Share (r s : Region) : Prop := ∃ address, r.Holds address ∧ s.Holds address

theorem Region.overlaps_iff (r s : Region) :
    r.overlaps s = true ↔ r.start ≤ s.last ∧ s.start ≤ r.last := by
  simp [Region.overlaps]

/-- A region that ends before it starts overlaps others without holding an address. -/
theorem Region.overlaps_iff_share {r s : Region} (hr : r.start ≤ r.last) (hs : s.start ≤ s.last) :
    r.overlaps s = true ↔ r.Share s := by
  rw [Region.overlaps_iff]
  constructor
  · intro h
    refine ⟨max r.start s.start, ?_⟩
    unfold Region.Holds
    omega
  · rintro ⟨address, ha, hb⟩
    unfold Region.Holds at ha hb
    omega

namespace Memory

def pairs : List Region → List (Region × Region)
  | [] => []
  | r :: rest => rest.map (fun s => (r, s)) ++ pairs rest

theorem rival?_of_split (before rest : List Region) (r : Region)
    (h : ∀ b ∈ before, b.overlaps r = false) :
    rival? (before ++ r :: rest) r before.length = rest.find? r.overlaps := by
  have hbefore : (before.zipIdx.find? fun p => p.2 != before.length && r.overlaps p.1) = none := by
    rw [List.find?_eq_none]
    rintro ⟨b, j⟩ hb
    have hmem := List.fst_mem_of_mem_zipIdx hb
    simp [Region.overlaps_comm r b, h b hmem]
  have hrest (k : Nat) (hk : before.length < k) :
      ((rest.zipIdx k).find? fun p => p.2 != before.length && r.overlaps p.1).map Prod.fst =
        rest.find? r.overlaps := by
    clear h hbefore
    induction rest generalizing k with
    | nil => rfl
    | cons s rest ih =>
      have hne : (k != before.length) = true := by simp; omega
      cases hs : r.overlaps s with
      | true => simp [List.zipIdx_cons, hne, hs]
      | false =>
        simpa [List.zipIdx_cons, List.find?_cons, hne, hs] using ih (k + 1) (by omega)
  rw [rival?, List.zipIdx_append, List.find?_append, hbefore, List.zipIdx_cons]
  simpa using hrest (before.length + 1) (by omega)

theorem scan_of_split (before after : List Region)
    (h : ∀ b ∈ before, ∀ r ∈ after, b.overlaps r = false) :
    (after.zipIdx before.length).findSome?
        (fun p => (rival? (before ++ after) p.1 p.2).map fun s => (p.1, s)) =
      (pairs after).find? fun p => p.1.overlaps p.2 := by
  induction after generalizing before with
  | nil => rfl
  | cons r rest ih =>
    have hr := rival?_of_split before rest r fun b hb => h b hb r (by simp)
    rw [List.zipIdx_cons, List.findSome?_cons, hr, pairs, List.find?_append, List.find?_map]
    cases hf : rest.find? r.overlaps with
    | some s =>
      have hp : rest.find? ((fun p : Region × Region => p.1.overlaps p.2) ∘ fun s => (r, s)) =
          some s := hf
      rw [hp]
      rfl
    | none =>
      have hp : rest.find? ((fun p : Region × Region => p.1.overlaps p.2) ∘ fun s => (r, s)) =
          none := hf
      have hn : ∀ b ∈ before ++ [r], ∀ s ∈ rest, b.overlaps s = false := by
        intro b hb s hs
        rcases List.mem_append.mp hb with hb | hb
        · exact h b hb s (by simp [hs])
        · rw [List.mem_singleton.mp hb]
          simpa using List.find?_eq_none.mp hf s hs
      have ih' := ih (before ++ [r]) hn
      rw [List.length_append, List.append_assoc] at ih'
      rw [hp]
      exact ih'

theorem firstOverlap?_eq_find? (rs : List Region) :
    firstOverlap? rs = (pairs rs).find? fun p => p.1.overlaps p.2 :=
  scan_of_split [] rs (by simp)

theorem forall_pairs_iff (R : Region → Region → Prop) (rs : List Region) :
    (∀ p ∈ pairs rs, R p.1 p.2) ↔ rs.Pairwise R := by
  induction rs with
  | nil => simp [pairs]
  | cons r rest ih =>
    rw [List.pairwise_cons, ← ih, pairs, List.forall_mem_append, List.forall_mem_map]

theorem firstOverlap?_eq_none_iff (rs : List Region) :
    firstOverlap? rs = none ↔ rs.Pairwise fun r s => r.overlaps s = false := by
  rw [firstOverlap?_eq_find?, List.find?_eq_none, ← forall_pairs_iff]
  simp

theorem mem_of_mem_pairs {rs : List Region} {p : Region × Region} (h : p ∈ pairs rs) :
    p.1 ∈ rs ∧ p.2 ∈ rs := by
  induction rs with
  | nil => simp [pairs] at h
  | cons r rest ih =>
    rcases List.mem_append.mp h with h | h
    · obtain ⟨s, hs, rfl⟩ := List.mem_map.mp h
      exact ⟨List.mem_cons_self, List.mem_cons_of_mem _ hs⟩
    · exact ⟨List.mem_cons_of_mem _ (ih h).1, List.mem_cons_of_mem _ (ih h).2⟩

section Ordered
variable {rs : List Region} (ho : ∀ r ∈ rs, r.start ≤ r.last)
include ho

theorem overlaps_iff_share_of_mem_pairs :
    ∀ p ∈ pairs rs, p.1.overlaps p.2 = true ↔ p.1.Share p.2 := by
  intro p hp
  obtain ⟨h1, h2⟩ := mem_of_mem_pairs hp
  exact Region.overlaps_iff_share (ho _ h1) (ho _ h2)

theorem firstOverlap?_of_first {r s : Region}
    (h : First (fun p => p.1.Share p.2) (pairs rs) (r, s)) : firstOverlap? rs = some (r, s) := by
  rw [firstOverlap?_eq_find?, First.find?_eq_some_iff]
  exact h.congr fun p hp => (overlaps_iff_share_of_mem_pairs ho p hp).symm

theorem firstOverlap?_of_apart (h : ∀ p ∈ pairs rs, ¬ p.1.Share p.2) :
    firstOverlap? rs = none := by
  rw [firstOverlap?_eq_find?, List.find?_eq_none]
  intro p hp
  rw [overlaps_iff_share_of_mem_pairs ho p hp]
  exact h p hp

end Ordered

end Memory
end FirmwareKit
