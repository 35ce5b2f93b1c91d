import FirmwareKit.Proofs.Memory.Canonical
set_option autoImplicit false

namespace FirmwareKit.Memory

/-- Four bits select the segment: the address is masked with `0xF0000`. -/
theorem segmentBase_natCast (n : Nat) : segmentBase n = ((n &&& 0xF0000 : Nat) : Int) := by
  have hshift : n &&& ((2 ^ 4 - 1) <<< 16) = ((n >>> 16) &&& (2 ^ 4 - 1)) <<< 16 := by
    apply Nat.eq_of_testBit_eq
    intro i
    simp only [Nat.testBit_and, Nat.testBit_shiftLeft, Nat.testBit_shiftRight]
    by_cases hi : 16 ≤ i
    · simp [hi]
    · simp [hi]
  rw [Nat.and_two_pow_sub_one_eq_mod, Nat.shiftRight_eq_div_pow, Nat.shiftLeft_eq,
    Nat.shiftLeft_eq] at hshift
  change n &&& 0xF0000 = n / 0x10000 % 0x10 * 0x10000 at hshift
  rw [hshift]
  simp [segmentBase, segmentSize, segmentCount]

def InWindow (r : Region) : Prop :=
  0 ≤ r.start ∧ r.start ≤ r.last ∧ r.last < 0x20000 ∧ r.start / 0x10000 = r.last / 0x10000

theorem Sound.inWindow_iff {r : Region} (h : Sound r) : InWindow r ↔ r.last < 0x100000 := by
  obtain ⟨_, h0, hle, hrom, hseg⟩ := h
  unfold romSplit at hrom
  unfold segmentBase segmentSize segmentCount at hseg
  unfold InWindow
  omega

theorem InWindow.size_le {r : Region} (h : InWindow r) : r.size ≤ 0x10000 := by
  unfold InWindow at h
  unfold Region.size
  omega

theorem InWindow.last_lt {r : Region} (h : InWindow r) (hs : r.start < 0x10000) :
    r.last < 0x10000 := by
  unfold InWindow at h
  omega

/-- The stack grows down from the end of a declared region. -/
theorem stackTop?_mem {rs : List Region} {top : Int} (h : stackTop? rs = some top) :
    ∃ r ∈ rs, top = r.last + 1 := by
  obtain ⟨r, hr, rfl⟩ := Option.map_eq_some_iff.mp h
  cases hs : find? stackName rs with
  | some s =>
    rw [hs] at hr
    cases hr
    exact ⟨r, List.mem_of_find?_eq_some hs, rfl⟩
  | none =>
    rw [hs] at hr
    exact ⟨r, List.mem_of_find?_eq_some hr, rfl⟩

/-- A layout whose regions, declared as `rs`, all lie in the windows. -/
structure Contained (rs : List Region) (l : Layout) : Prop where
  inWindow : ∀ r ∈ rs, InWindow r
  iram_last : ∀ r ∈ l.iram, r.last < 0x10000
  size_le : ∀ r ∈ rs, r.size ≤ 0x10000
  stackTop_le : ∀ top, stackTop? rs = some top → top ≤ 0x20000

theorem contained_of_inWindow {rs : List Region} {l : Layout} (hw : ∀ r ∈ rs, InWindow r)
    (hl : ∀ r ∈ l.iram, r ∈ rs ∧ r.start < 0x10000) : Contained rs l := by
  refine ⟨hw, ?_, fun r hr => (hw r hr).size_le, ?_⟩
  · intro r hr
    exact (hw r (hl r hr).1).last_lt (hl r hr).2
  · intro top htop
    obtain ⟨r, hr, rfl⟩ := stackTop?_mem htop
    have := hw r hr
    unfold InWindow at this
    omega

/-- Accepted regions keep all rules of an entry. They lie inside the windows exactly when none of
them ends beyond the bus. -/
theorem normalize_contained_iff (entries : Value.Entries) (model : Value) (l : Layout)
    (h : normalize entries model = .ok l) :
    entries.map region? = (declared entries).map some ∧
      (∀ r ∈ declared entries, Sound r ∧ (InWindow r ↔ r.last < 0x100000)) ∧
      (∃ top, stackTop? (declared entries) = some top) ∧
      (Contained (declared entries) l ↔ ∀ r ∈ declared entries, r.last < 0x100000) := by
  have hs := normalize_sound h
  obtain ⟨_, top, _, _, htop, _⟩ := normalize_eq_ok h
  refine ⟨normalize_declared h, fun r hr => ⟨hs r hr, (hs r hr).inWindow_iff⟩, ⟨top, htop⟩, ?_⟩
  constructor
  · intro hc r hr
    exact (hs r hr).inWindow_iff.mp (hc.inWindow r hr)
  · intro hlast
    refine contained_of_inWindow (fun r hr => (hs r hr).inWindow_iff.mpr (hlast r hr)) ?_
    intro r hr
    exact ⟨(normalize_mem_regions h (List.mem_append_left _ hr)).1, normalize_iram_start h r hr⟩

theorem normalize_contained_iff_crossedMap :
    ∃ l, normalize crossedMap (.model .medium) = .ok l ∧
      (Contained (declared crossedMap) l ↔ ∀ r ∈ declared crossedMap, r.last < 0x100000) :=
  ⟨_, rfl, (normalize_contained_iff crossedMap (.model .medium) _ rfl).2.2.2⟩

/-- An end beyond the bus whose four segment bits are those of the start is not refused. -/
theorem normalize_accepts_beyond_bus :
    ∃ l, normalize [(.text "c_heap", .list [.int 0, .int 0x100000])] (.model .small) = .ok l ∧
      ¬ Contained [⟨"c_heap", 0, 0x100000⟩] l := by
  refine ⟨_, rfl, ?_⟩
  intro hc
  exact absurd (hc.inWindow _ (List.mem_singleton_self _)).2.2.1 (by decide)

end FirmwareKit.Memory
