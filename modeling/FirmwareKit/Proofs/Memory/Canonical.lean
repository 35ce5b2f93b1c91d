import Mathlib.Data.List.Pairwise
import FirmwareKit.Proofs.Memory.Entry
import FirmwareKit.Proofs.Memory.Overlap
set_option autoImplicit false

namespace FirmwareKit.Memory

theorem sortByStart_perm (rs : List Region) : (sortByStart rs).Perm rs :=
  List.mergeSort_perm rs _

theorem sortByStart_pairwise (rs : List Region) :
    (sortByStart rs).Pairwise fun r s => r.start ≤ s.start := by
  have trans (r s t : Region) (hrs : decide (r.start ≤ s.start) = true)
      (hst : decide (s.start ≤ t.start) = true) : decide (r.start ≤ t.start) = true := by
    simp only [decide_eq_true_eq] at *
    omega
  have total (r s : Region) :
      (decide (r.start ≤ s.start) || decide (s.start ≤ r.start)) = true := by
    simp only [Bool.or_eq_true, decide_eq_true_eq]
    omega
  exact (List.pairwise_mergeSort trans total rs).imp of_decide_eq_true

theorem mem_withoutStack_iff (rs : List Region) (r : Region) :
    r ∈ withoutStack rs ↔ r ∈ rs ∧ r.name ≠ stackName := by
  simp [withoutStack, Region.isStack]

theorem placed_perm (rs : List Region) :
    (withoutStack (sortByStart rs)).Perm (withoutStack rs) :=
  (sortByStart_perm rs).filter _

theorem placed_ordered {rs : List Region} (ho : ∀ r ∈ rs, r.start ≤ r.last) :
    ∀ r ∈ withoutStack (sortByStart rs), r.start ≤ r.last := by
  intro r hr
  have hmem := (mem_withoutStack_iff rs r).mp ((placed_perm rs).mem_iff.mp hr)
  exact ho r hmem.1

theorem placed_separated {rs : List Region} (ho : ∀ r ∈ rs, r.start ≤ r.last)
    (hd : (withoutStack rs).Pairwise fun r s => r.overlaps s = false) :
    (withoutStack (sortByStart rs)).Pairwise fun r s => r.last < s.start := by
  have hsorted : (withoutStack (sortByStart rs)).Pairwise fun r s => r.start ≤ s.start :=
    (sortByStart_pairwise rs).filter _
  have hdisjoint : (withoutStack (sortByStart rs)).Pairwise fun r s => r.overlaps s = false :=
    ((placed_perm rs).pairwise_iff fun {r s} h => by rwa [Region.overlaps_comm]).mpr hd
  refine (hsorted.and hdisjoint).imp_of_mem ?_
  rintro r s _ hs ⟨hle, hno⟩
  have hs' := placed_ordered ho s hs
  have hnot : ¬ (r.start ≤ s.last ∧ s.start ≤ r.last) := by
    rw [← Region.overlaps_iff, hno]
    simp
  omega

/-- Cutting a sorted list at an address loses nothing and keeps the order. -/
theorem filter_start_append (a : Int) {rs : List Region}
    (h : rs.Pairwise fun r s => r.start ≤ s.start) :
    (rs.filter fun r => decide (r.start < a)) ++ (rs.filter fun r => decide (a ≤ r.start)) =
      rs := by
  induction rs with
  | nil => rfl
  | cons r rs ih =>
    obtain ⟨hr, hrs⟩ := List.pairwise_cons.mp h
    by_cases hlt : r.start < a
    · have hge : ¬ a ≤ r.start := by omega
      simpa [hlt, hge] using ih hrs
    · have hge : a ≤ r.start := by omega
      have hlow : (rs.filter fun s => decide (s.start < a)) = [] := by
        rw [List.filter_eq_nil_iff]
        intro s hs
        have := hr s hs
        simp only [decide_eq_true_eq]
        omega
      have hhigh : (rs.filter fun s => decide (a ≤ s.start)) = rs := by
        rw [List.filter_eq_self]
        intro s hs
        have := hr s hs
        simp only [decide_eq_true_eq]
        omega
      simp [hlt, hge, hlow, hhigh]

theorem place_regions (model : MemoryModel) (rs : List Region) (top : Int) :
    (place model rs top).regions = withoutStack (sortByStart rs) :=
  filter_start_append sramBase ((sortByStart_pairwise rs).filter _)

/-- What a successful run has found out, step by step. -/
theorem normalize_eq_ok {entries : Value.Entries} {model : Value} {l : Layout}
    (h : normalize entries model = .ok l) :
    ∃ m top, checkEntries entries = .ok (declared entries) ∧
      firstOverlap? (withoutStack (declared entries)) = none ∧
      stackTop? (declared entries) = some top ∧ l = place m (declared entries) top := by
  obtain ⟨m, _, h⟩ := (Outcome.bind_eq_ok_iff _ _ _).mp h
  obtain ⟨rs, hrs, h⟩ := (Outcome.bind_eq_ok_iff _ _ _).mp h
  obtain ⟨_, rfl, _⟩ := checkEntries_eq_ok entries rs hrs
  unfold arrange at h
  cases hov : firstOverlap? (withoutStack (declared entries)) with
  | some p => simp [hov] at h
  | none =>
    cases htop : stackTop? (declared entries) with
    | none => simp [hov, htop] at h
    | some top =>
      simp only [hov, htop, Except.ok.injEq] at h
      exact ⟨m, top, hrs, rfl, rfl, h.symm⟩

section Accepted
variable {entries : Value.Entries} {model : Value} {l : Layout}

theorem normalize_declared (h : normalize entries model = .ok l) :
    entries.map region? = (declared entries).map some := by
  obtain ⟨_, _, hrs, _⟩ := normalize_eq_ok h
  exact (checkEntries_eq_ok entries _ hrs).1

theorem normalize_sound (h : normalize entries model = .ok l) :
    ∀ r ∈ declared entries, Sound r := by
  obtain ⟨_, _, hrs, _⟩ := normalize_eq_ok h
  exact (checkEntries_eq_ok entries _ hrs).2.2

theorem normalize_regions_perm (h : normalize entries model = .ok l) :
    l.regions.Perm (withoutStack (declared entries)) := by
  obtain ⟨m, top, _, _, _, rfl⟩ := normalize_eq_ok h
  rw [place_regions]
  exact placed_perm _

theorem normalize_separated (h : normalize entries model = .ok l) :
    l.regions.Pairwise fun r s => r.last < s.start := by
  have hs := normalize_sound h
  obtain ⟨m, top, _, hov, _, rfl⟩ := normalize_eq_ok h
  rw [place_regions]
  exact placed_separated (fun r hr => (hs r hr).ordered) ((firstOverlap?_eq_none_iff _).mp hov)

theorem normalize_mem_regions (h : normalize entries model = .ok l) {r : Region}
    (hr : r ∈ l.regions) : r ∈ declared entries ∧ r.name ≠ stackName :=
  (mem_withoutStack_iff _ r).mp ((normalize_regions_perm h).mem_iff.mp hr)

theorem normalize_sound_of_mem (h : normalize entries model = .ok l) {r : Region}
    (hr : r ∈ l.regions) : Sound r :=
  normalize_sound h r (normalize_mem_regions h hr).1

theorem normalize_iram_start (h : normalize entries model = .ok l) :
    ∀ r ∈ l.iram, r.start < sramBase := by
  obtain ⟨m, top, _, _, _, rfl⟩ := normalize_eq_ok h
  intro r hr
  exact of_decide_eq_true (List.mem_filter.mp hr).2

theorem normalize_sram_start (h : normalize entries model = .ok l) :
    ∀ r ∈ l.sram, sramBase ≤ r.start := by
  obtain ⟨m, top, _, _, _, rfl⟩ := normalize_eq_ok h
  intro r hr
  exact of_decide_eq_true (List.mem_filter.mp hr).2

theorem normalize_ascending (h : normalize entries model = .ok l) :
    l.regions.Pairwise fun r s => r.start < s.start := by
  refine (normalize_separated h).imp_of_mem ?_
  intro r s hr _ hlt
  have := (normalize_sound_of_mem h hr).ordered
  omega

theorem normalize_exclusive (h : normalize entries model = .ok l) {r s : Region} {address : Int}
    (hr : r ∈ l.regions) (hs : s ∈ l.regions) (ha : r.Holds address) (hb : s.Holds address) :
    r = s := by
  by_contra hne
  have hsymm : Std.Symm fun r s : Region => ¬ (r.Holds address ∧ s.Holds address) :=
    ⟨fun _ _ hno hab => hno ⟨hab.2, hab.1⟩⟩
  have hapart : l.regions.Pairwise fun r s => ¬ (r.Holds address ∧ s.Holds address) := by
    refine (normalize_separated h).imp ?_
    rintro r s hlt ⟨hr, hs⟩
    unfold Region.Holds at hr hs
    omega
  exact hapart.forall hr hs hne ⟨ha, hb⟩

end Accepted

/-- The normal form of the regions `rs`: each but the stack once, by window and by address. -/
structure Canonical (rs : List Region) (l : Layout) : Prop where
  complete : (l.iram ++ l.sram).Perm (withoutStack rs)
  nodup : (l.iram ++ l.sram).Nodup
  stackless : ∀ r ∈ l.iram ++ l.sram, r.name ≠ "stack"
  iram_start : ∀ r ∈ l.iram, r.start < 0x10000
  sram_start : ∀ r ∈ l.sram, 0x10000 ≤ r.start ∧ r.start < 0x20000
  separated : (l.iram ++ l.sram).IsChain fun r s => r.last < s.start
  iram_ascending : l.iram.Pairwise fun r s => r.start < s.start
  sram_ascending : l.sram.Pairwise fun r s => r.start < s.start
  exclusive : ∀ r ∈ l.iram ++ l.sram, ∀ s ∈ l.iram ++ l.sram, ∀ address,
    r.Holds address → s.Holds address → r = s

/-- Every entry of an accepted map declares one region, and the layout is their normal form. -/
theorem normalize_canonical (entries : Value.Entries) (model : Value) (l : Layout)
    (h : normalize entries model = .ok l) :
    entries.map region? = (declared entries).map some ∧ Canonical (declared entries) l := by
  obtain ⟨hiram, hsram, _⟩ := List.pairwise_append.mp (normalize_ascending h)
  refine ⟨normalize_declared h, normalize_regions_perm h, ?_, ?_, normalize_iram_start h, ?_,
    (normalize_separated h).isChain, hiram, hsram, ?_⟩
  · refine (normalize_ascending h).imp ?_
    rintro r _ hlt rfl
    omega
  · exact fun r hr => (normalize_mem_regions h hr).2
  · intro r hr
    have hsound := normalize_sound_of_mem h (List.mem_append_right _ hr)
    exact ⟨normalize_sram_start h r hr, hsound.belowRom⟩
  · exact fun r hr s hs address ha hb => normalize_exclusive h hr hs ha hb

def crossedMap : Value.Entries := [
  (.text "stack", .list [.int 0x0E00, .int 0x0FFF]),
  (.text "late", .list [.int 0x3000, .int 0x3FFF]),
  (.text "edge", .list [.int 0xFFFF, .int 0xFFFF]),
  (.text "c_heap", .list [.int 0x10000, .int 0x10FFF]),
  (.text "early", .list [.int 0x1000, .int 0x1FFF])]

theorem normalize_canonical_crossedMap :
    ∃ l, normalize crossedMap (.model .medium) = .ok l ∧
      Canonical [⟨"stack", 0x0E00, 0x0FFF⟩, ⟨"late", 0x3000, 0x3FFF⟩, ⟨"edge", 0xFFFF, 0xFFFF⟩,
        ⟨"c_heap", 0x10000, 0x10FFF⟩, ⟨"early", 0x1000, 0x1FFF⟩] l :=
  ⟨_, rfl, (normalize_canonical crossedMap (.model .medium) _ rfl).2⟩

end FirmwareKit.Memory
