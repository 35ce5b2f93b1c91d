import FirmwareKit.Proofs.Memory.Rule
import FirmwareKit.Proofs.Script.Composition
set_option autoImplicit false

/-!
# Symbols and what they measure

The plain symbols of a band are made of a lead, which says what they measure, and of the name of
what is measured. The lead of a length in words continues that of a length in bytes, and this is the
only way in which different leads can make one symbol.
-/
namespace FirmwareKit.Script

def isTagged (name : String) : Bool :=
  match name.toList.getLast? with
  | some c => c == '!' || c == '&'
  | none => false

def plainSymbols (commands : List Command) : List String :=
  (symbols commands).filter fun s => !isTagged s

inductive Measure where
  | start
  | last
  | bytes
  | words
deriving DecidableEq, Repr

def Measure.lead : Measure → String
  | .start => "__s"
  | .last => "__e"
  | .bytes => "__l"
  | .words => "__lw"

def Measure.symbol (m : Measure) (stem : String) : String := m.lead ++ stem

theorem Measure.symbol_eq_iff (m k : Measure) (s t : String) :
    m.symbol s = k.symbol t ↔ (m = k ∧ s = t) ∨ (m = .bytes ∧ k = .words ∧ s = "w" ++ t) ∨
      (m = .words ∧ k = .bytes ∧ t = "w" ++ s) := by
  cases m <;> cases k <;> simp [symbol, lead, ← String.toList_inj, eq_comm]

def spelled (ms : List (Measure × String)) : List String := ms.map fun m => m.1.symbol m.2

theorem isTagged_append {name : String} (h : name ≠ "") (lead : String) :
    isTagged (lead ++ name) = isTagged name := by
  have hne : name.toList ≠ [] := by simpa using h
  simp [isTagged, List.getLast?_append, List.getLast?_eq_some_getLast hne]

theorem isTagged_identifier {name : String} (h : Memory.Identifier name) (lead : String) :
    isTagged (lead ++ name) = false := by
  have hne : name ≠ "" := by
    rintro rfl
    obtain ⟨_, _, hname, _⟩ := h
    simp at hname
  rw [isTagged_append hne]
  unfold isTagged
  split
  case h_2 => rfl
  case h_1 c hc =>
    have hrest := h.all_rest c (List.mem_of_getLast? hc)
    rw [Bool.or_eq_false_iff, beq_eq_false_iff_ne, beq_eq_false_iff_ne]
    constructor <;>
    · rintro rfl
      exact absurd hrest (by decide)

theorem isTagged_shadow (name : String) : isTagged (name ++ "!") = true := by
  rw [isTagged_append (by decide)]
  rfl

theorem isTagged_mirror (name : String) : isTagged (name ++ "&") = true := by
  rw [isTagged_append (by decide)]
  rfl

def namedMeasures (name : String) : List (Measure × String) :=
  [(.start, name), (.last, name), (.bytes, name), (.words, name), (.last, name)]

def heapMeasures : List (Measure × String) :=
  [(.start, "heap"), (.start, "data"), (.last, "data"), (.bytes, "data"), (.words, "data"),
    (.start, "bss"), (.last, "bss"), (.bytes, "bss"), (.words, "bss"), (.last, "heap")]

def measures (r : Region) : List (Measure × String) :=
  if r.isHeap then heapMeasures else namedMeasures r.name

theorem symbol_mem_named_iff (m : Measure) (stem name : String) :
    m.symbol stem ∈ spelled (namedMeasures name) ↔ stem = name ∨
      (m = .bytes ∧ stem = "w" ++ name) ∨ (m = .words ∧ name = "w" ++ stem) := by
  cases m <;> simp [spelled, namedMeasures, Measure.symbol_eq_iff, or_comm]

theorem plainSymbols_placedRegion {r : Region} (h : Memory.Identifier r.name) :
    plainSymbols (placedRegion r) = spelled (measures r) := by
  have hbody : plainSymbols (placedRegion r) =
      plainSymbols (if r.isHeap then heapBody r else regionBody r) := rfl
  rw [hbody]
  unfold measures
  split
  · rfl
  · simp [plainSymbols, symbols_regionBody, spelled, namedMeasures, Measure.symbol, Measure.lead,
      isTagged_identifier h, isTagged_shadow]

theorem plainSymbols_textBand (farText : Bool) (romStart : Value) (tag : BankTag) :
    plainSymbols (textBand farText romStart tag) =
      if tag = .primary then spelled [(.start, "text"), (.last, "text")] else [] := by
  rw [plainSymbols, symbols_textBand]
  cases tag <;> rfl

theorem plainSymbols_endMarker {name : String} (h : Memory.Identifier name) (alignment : Value) :
    plainSymbols (endMarker ("e" ++ name) alignment) = spelled [(.last, name)] := by
  have hsymbol : "__" ++ ("e" ++ name) = "__e" ++ name := by simp [← String.toList_inj]
  simp [plainSymbols, symbols_endMarker, spelled, Measure.symbol, Measure.lead, hsymbol,
    isTagged_identifier h, isTagged_shadow, isTagged_mirror]

theorem plainSymbols_markerBand (chainHead : String) (w : Window) (tag : BankTag) :
    plainSymbols (markerBand chainHead w tag) = [] := by
  rw [plainSymbols, symbols_markerBand]
  split
  · simp [isTagged_shadow]
  · rfl

theorem plainSymbols_debugSection (name : String) (extra : List String) :
    plainSymbols (debugSection name extra) = [] := by
  have hsymbols : symbols (debugSection name extra) = [name ++ "!"] := rfl
  simp [plainSymbols, hsymbols, isTagged_shadow]

end FirmwareKit.Script
