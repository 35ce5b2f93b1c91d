import Mathlib.Data.List.Find
import Mathlib.Data.List.Nodup
import Mathlib.Data.List.Perm.Basic
import FirmwareKit.Script.Emitter
import FirmwareKit.Proofs.Memory.Canonical
import FirmwareKit.Proofs.Value.Entries
set_option autoImplicit false

namespace FirmwareKit

theorem Outcome.mapM_perm {ε α β : Type} {f : α → Except ε β} {xs xs' : List α} {ys : List β}
    (hp : xs'.Perm xs) (h : xs.mapM f = .ok ys) : ∃ ys', xs'.mapM f = .ok ys' ∧ ys'.Perm ys := by
  obtain ⟨ys', hys, hperm⟩ := List.perm_comp_forall₂ hp ((mapM_eq_ok_iff f xs ys).mp h)
  exact ⟨ys', (mapM_eq_ok_iff f xs' ys').mpr hys, hperm⟩

namespace Memory

theorem name_of_region? {entry : Value × Value} {r : Region} (h : region? entry = some r) :
    entry.1 = .text r.name := by
  unfold region? at h
  split at h
  case h_1 name start last hname hpair =>
    cases h
    exact hname
  case h_2 => cases h

theorem declared_names_nodup {entries : Value.Entries} (h : entries.Distinct) :
    ((declared entries).map Region.name).Nodup := by
  rw [List.Nodup, List.pairwise_map, declared, List.pairwise_filterMap]
  refine h.ne_text.imp ?_
  intro e f hef r hr s hs hname
  exact hef r.name (name_of_region? hr) (hname ▸ name_of_region? hs)

section Named
variable {rs rs' : List Region} (hn : (rs.map Region.name).Nodup) (hp : rs.Perm rs')
include hn hp

theorem find?_perm (name : String) : find? name rs = find? name rs' := by
  refine List.find?_eq_find?_of_perm hp ?_
  rintro r ⟨hr, hrname⟩ s ⟨hs, hsname⟩
  exact List.inj_on_of_nodup_map hn hr hs ((eq_of_beq hrname).trans (eq_of_beq hsname).symm)

theorem stackTop?_perm : stackTop? rs = stackTop? rs' := by
  rw [stackTop?, stackTop?, find?_perm hn hp, find?_perm hn hp]

theorem dataSegment_perm : dataSegment rs = dataSegment rs' := by
  rw [dataSegment, dataSegment, find?_perm hn hp]

end Named

theorem apart_perm {rs rs' : List Region} (hp : rs.Perm rs')
    (hd : (withoutStack rs).Pairwise fun r s => r.overlaps s = false) :
    (withoutStack rs').Pairwise fun r s => r.overlaps s = false :=
  ((hp.filter _).pairwise_iff fun {r s} h => by rwa [Region.overlaps_comm]).mp hd

/-- Regions that share no address have one order by their addresses. -/
theorem placed_eq_of_perm {rs rs' : List Region} (ho : ∀ r ∈ rs, r.start ≤ r.last)
    (hd : (withoutStack rs).Pairwise fun r s => r.overlaps s = false) (hp : rs.Perm rs') :
    withoutStack (sortByStart rs) = withoutStack (sortByStart rs') := by
  have ho' : ∀ r ∈ rs', r.start ≤ r.last := fun r hr => ho r (hp.mem_iff.mpr hr)
  have hsame : (withoutStack (sortByStart rs)).Perm (withoutStack (sortByStart rs')) :=
    (placed_perm rs).trans ((hp.filter _).trans (placed_perm rs').symm)
  refine List.Perm.eq_of_pairwise ?_ (placed_separated ho hd)
    (placed_separated ho' (apart_perm hp hd)) hsame
  intro r s hr hs hrs hsr
  have hr' := placed_ordered ho r hr
  have hs' := placed_ordered ho' s hs
  omega

theorem place_perm {rs rs' : List Region} (hn : (rs.map Region.name).Nodup)
    (ho : ∀ r ∈ rs, r.start ≤ r.last)
    (hd : (withoutStack rs).Pairwise fun r s => r.overlaps s = false) (hp : rs.Perm rs')
    (model : MemoryModel) (top : Int) : place model rs top = place model rs' top := by
  rw [place, place, placed_eq_of_perm ho hd hp, dataSegment_perm hn hp]

theorem arrange_eq_ok_iff (model : MemoryModel) (rs : List Region) (l : Layout) :
    arrange model rs = .ok l ↔
      ((withoutStack rs).Pairwise fun r s => r.overlaps s = false) ∧
        ∃ top, stackTop? rs = some top ∧ l = place model rs top := by
  unfold arrange
  rw [← firstOverlap?_eq_none_iff]
  cases firstOverlap? (withoutStack rs) with
  | some p => simp
  | none => cases stackTop? rs <;> simp [eq_comm]

theorem arrange_perm {rs rs' : List Region} {model : MemoryModel} {l : Layout}
    (hn : (rs.map Region.name).Nodup) (ho : ∀ r ∈ rs, r.start ≤ r.last) (hp : rs.Perm rs')
    (h : arrange model rs = .ok l) : arrange model rs' = .ok l := by
  obtain ⟨hd, top, htop, rfl⟩ := (arrange_eq_ok_iff model rs l).mp h
  refine (arrange_eq_ok_iff model rs' _).mpr ⟨apart_perm hp hd, top, ?_, ?_⟩
  · rw [← stackTop?_perm hn hp, htop]
  · exact place_perm hn ho hd hp model top

theorem normalize_of_perm {entries entries' : Value.Entries} {model : Value} {l : Layout}
    (hn : ((declared entries).map Region.name).Nodup) (hp : entries.Perm entries')
    (h : normalize entries model = .ok l) : normalize entries' model = .ok l := by
  obtain ⟨m, hm, h⟩ := (Outcome.bind_eq_ok_iff _ _ _).mp h
  obtain ⟨rs, hrs, h⟩ := (Outcome.bind_eq_ok_iff _ _ _).mp h
  obtain ⟨rs', hrs', hperm⟩ := Outcome.mapM_perm hp.symm hrs
  obtain ⟨_, rfl, hsound⟩ := checkEntries_eq_ok entries rs hrs
  have harranged := arrange_perm hn (fun r hr => (hsound r hr).ordered)
    hperm.symm h
  refine (Outcome.bind_eq_ok_iff _ _ _).mpr ⟨m, hm, ?_⟩
  exact (Outcome.bind_eq_ok_iff _ _ _).mpr ⟨rs', hrs', harranged⟩

/-- Declared in another order, the entries of a map give the same layout and the same script, or
none as before. -/
theorem normalize_perm (entries entries' : Value.Entries) (model : Value)
    (hd : entries.Distinct) (hp : entries.Perm entries') :
    (∃ l, normalize entries model = .ok l ∧ normalize entries' model = .ok l ∧
        ∀ constants romStart romLength date,
          (normalize entries model >>= fun l =>
              Script.emit l constants romStart romLength date) =
            normalize entries' model >>= fun l =>
              Script.emit l constants romStart romLength date) ∨
      ∃ f f', normalize entries model = .error f ∧ normalize entries' model = .error f' := by
  have hn := declared_names_nodup hd
  have hn' : ((declared entries').map Region.name).Nodup :=
    ((hp.filterMap region?).map Region.name).nodup_iff.mp hn
  cases h : normalize entries model with
  | ok l =>
    have h' := normalize_of_perm hn hp h
    exact .inl ⟨l, rfl, h', fun _ _ _ _ => by rw [h']⟩
  | error f =>
    cases h' : normalize entries' model with
    | ok l =>
      rw [normalize_of_perm hn' hp.symm h'] at h
      cases h
    | error f' => exact .inr ⟨f, f', rfl, rfl⟩

theorem normalize_perm_crossedMap :
    crossedMap.Distinct ∧ crossedMap.Perm crossedMap.reverse ∧
      ∃ l, normalize crossedMap (.model .medium) = .ok l ∧
        normalize crossedMap.reverse (.model .medium) = .ok l := by
  have hd : crossedMap.Distinct := by decide +kernel
  have hp : crossedMap.Perm crossedMap.reverse := (List.reverse_perm crossedMap).symm
  refine ⟨hd, hp, ?_⟩
  rcases normalize_perm crossedMap crossedMap.reverse (.model .medium) hd hp with
    ⟨l, h, h', _⟩ | ⟨f, _, h, _⟩
  · exact ⟨l, h, h'⟩
  · cases h

end Memory
end FirmwareKit
