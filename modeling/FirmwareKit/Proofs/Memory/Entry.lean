import FirmwareKit.Memory.Normalize
import FirmwareKit.Proofs.Sequence
set_option autoImplicit false

namespace FirmwareKit.Memory

def address? : Value → Option Int
  | .int n => some n
  | .bool b => some b.toNat
  | _ => none

/-- The pair of addresses a value stands for. A map is asked for its entries 0 and 1. -/
def pair? : Value → Option (Int × Int)
  | .list [.int start, .int last] | .tuple [.int start, .int last] => some (start, last)
  | .bytes [start, last] | .buffer [start, last] => some (start.toNat, last.toNat)
  | .map entries =>
    ((Value.Entries.get? entries (.int 0)).bind address?).bind fun start =>
      ((Value.Entries.get? entries (.int 1)).bind address?).map fun last => (start, last)
  | _ => none

def region? (entry : Value × Value) : Option Region :=
  match entry.1, pair? entry.2 with
  | .text name, some (start, last) => some ⟨name, start, last⟩
  | _, _ => none

def declared (entries : Value.Entries) : List Region := entries.filterMap region?

structure Sound (r : Region) : Prop where
  named : isIdentifier r.name = true
  nonneg : 0 ≤ r.start
  ordered : r.start ≤ r.last
  belowRom : r.start < romSplit
  oneSegment : segmentBase r.start = segmentBase r.last

theorem asAddress_eq_ok (v : Value) (n : Int) (h : asAddress v = .ok n) : address? v = some n := by
  cases v <;> simp_all [asAddress, address?]

theorem element_map_eq_ok (entries : Value.Entries) (i : Nat) (n : Int)
    (h : (element (.map entries) i >>= asAddress) = .ok n) :
    (Value.Entries.get? entries (.int i)).bind address? = some n := by
  obtain ⟨v, hv, hn⟩ := (Outcome.bind_eq_ok_iff _ _ _).mp h
  simp only [element] at hv
  cases hg : Value.Entries.get? entries (.int i) with
  | none => simp [hg] at hv
  | some w =>
    simp only [hg, Except.ok.injEq] at hv
    subst hv
    exact asAddress_eq_ok w n hn

/-- Both addresses are read, in order, and neither is negative. -/
theorem bounds_eq_ok (name : String) (v : Value) (start last : Int)
    (h : bounds name v = .ok (start, last)) :
    (length? v = some 2 ∧ (elements v).all isInteger = true) ∧
      (element v 0 >>= asAddress) = .ok start ∧ (element v 1 >>= asAddress) = .ok last ∧
      0 ≤ start ∧ 0 ≤ last := by
  unfold bounds at h
  cases hn : length? v with
  | none => simp [hn] at h
  | some n =>
    simp only [hn] at h
    split at h
    case isFalse => simp at h
    case isTrue hp =>
      obtain ⟨a, ha, h⟩ := (Outcome.bind_eq_ok_iff _ _ _).mp h
      split at h
      case isTrue => simp at h
      case isFalse ha0 =>
        obtain ⟨b, hb, h⟩ := (Outcome.bind_eq_ok_iff _ _ _).mp h
        split at h
        case isTrue => simp at h
        case isFalse hb0 =>
          simp only [Except.ok.injEq, Prod.mk.injEq] at h
          obtain ⟨rfl, rfl⟩ := h
          exact ⟨⟨by rw [hp.1], hp.2⟩, ha, hb, by omega, by omega⟩

theorem pair?_of_bounds (name : String) (v : Value) (start last : Int)
    (h : bounds name v = .ok (start, last)) : pair? v = some (start, last) := by
  obtain ⟨⟨hn, hi⟩, h0, h1, _, _⟩ := bounds_eq_ok name v start last h
  cases v with
  | null | bool | int | float | moment | model | bank | fileRef | dataRef | path =>
    simp [length?] at hn
  | set items =>
    rw [element, Outcome.error_bind] at h0
    cases h0
  | text s =>
    simp only [length?, Option.some.injEq] at hn
    match hs : s.toList with
    | [] => simp [← String.length_toList, hs] at hn
    | c :: cs => simp [elements, hs, isInteger] at hi
  | bytes data | buffer data =>
    match data, hn with
    | [a, b], _ =>
      simp only [element, elements, List.map_cons, List.getD_cons_zero, List.getD_cons_succ,
        Outcome.ok_bind, asAddress, Except.ok.injEq] at h0 h1
      simp [pair?, h0, h1]
  | list items | tuple items =>
    match items, hn with
    | [.int a, .int b], _ =>
      simp only [element, elements, List.getD_cons_zero, List.getD_cons_succ,
        Outcome.ok_bind, asAddress, Except.ok.injEq] at h0 h1
      simp [pair?, h0, h1]
  | map entries =>
    have ha := element_map_eq_ok entries 0 start h0
    have hb := element_map_eq_ok entries 1 last h1
    change (Value.Entries.get? entries (.int 0)).bind address? = some start at ha
    change (Value.Entries.get? entries (.int 1)).bind address? = some last at hb
    simp only [pair?, ha, hb, Option.bind_some, Option.map_some]

theorem checkRegion_eq_ok (r s : Region) (h : checkRegion r = .ok s) :
    s = r ∧ r.start ≤ r.last ∧ r.start < romSplit ∧
      segmentBase r.start = segmentBase r.last := by
  unfold checkRegion at h
  split at h
  case isTrue => simp at h
  split at h
  case isTrue => simp at h
  split at h
  case isTrue => simp at h
  case isFalse ho hr hs =>
    simp only [Except.ok.injEq] at h
    exact ⟨h.symm, by omega, by omega, not_ne_iff.mp hs⟩

/-- An entry that passes its check declares a region, and that region is sound. -/
theorem checkEntry_eq_ok (name value : Value) (r : Region) (h : checkEntry name value = .ok r) :
    region? (name, value) = some r ∧ Sound r := by
  cases name with
  | text s =>
    change (if isIdentifier s = true then _ else _) = _ at h
    split at h
    case isFalse => simp at h
    case isTrue hid =>
      obtain ⟨⟨start, last⟩, hb, h⟩ := (Outcome.bind_eq_ok_iff _ _ _).mp h
      obtain ⟨rfl, hord, hrom, hseg⟩ := checkRegion_eq_ok _ _ h
      obtain ⟨_, _, _, h0, _⟩ := bounds_eq_ok s value start last hb
      have hp := pair?_of_bounds s value start last hb
      exact ⟨by simp [region?, hp], hid, h0, hord, hrom, hseg⟩
  | null | bool | int | float | bytes | buffer | list | tuple | map | set | moment | model | bank
  | fileRef | dataRef | path => simp [checkEntry, Fault.raise] at h

theorem checkEntries_eq_ok (entries : Value.Entries) (rs : List Region)
    (h : checkEntries entries = .ok rs) :
    entries.map region? = rs.map some ∧ declared entries = rs ∧ ∀ r ∈ rs, Sound r := by
  induction (Outcome.mapM_eq_ok_iff _ _ _).mp h with
  | nil => simp [declared]
  | @cons e r es rs he hes ih =>
    obtain ⟨hr, hs⟩ := checkEntry_eq_ok e.1 e.2 r he
    obtain ⟨hm, hd, hall⟩ := ih ((Outcome.mapM_eq_ok_iff _ _ _).mpr hes)
    change region? e = some r at hr
    refine ⟨by simp [hr, hm], ?_, by simpa [hs] using hall⟩
    rw [declared, List.filterMap_cons_some hr]
    exact congrArg (r :: ·) hd

end FirmwareKit.Memory
