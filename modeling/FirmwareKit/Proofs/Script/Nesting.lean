import FirmwareKit.Proofs.Script.Composition
set_option autoImplicit false

namespace FirmwareKit.Script

def Command.nest (inside : Bool) : Command → Option Bool
  | .openSection _ | .openInline _ => if inside then none else some true
  | .closeSection _ => if inside then some false else none
  | .outside .. => if inside then none else some false
  | _ => some inside

def nest (inside : Bool) (cs : List Command) : Option Bool := cs.foldlM Command.nest inside

def Closed (cs : List Command) : Prop := nest false cs = some false

variable {inside : Bool} {xs ys cs : List Command}

theorem nest_append (inside : Bool) (xs ys : List Command) :
    nest inside (xs ++ ys) = (nest inside xs).bind fun b => nest b ys := List.foldlM_append

theorem nest_cons (inside : Bool) (c : Command) (cs : List Command) :
    nest inside (c :: cs) = (c.nest inside).bind fun b => nest b cs := List.foldlM_cons

theorem nest_level (h : ∀ c ∈ cs, c.nest inside = some inside) :
    nest inside cs = some inside := by
  induction cs with
  | nil => rfl
  | cons c cs ih =>
    obtain ⟨hc, hcs⟩ := List.forall_mem_cons.mp h
    rw [nest_cons, hc]
    exact ih hcs

theorem Closed.append (hx : Closed xs) (hy : Closed ys) : Closed (xs ++ ys) := by
  rw [Closed, nest_append, hx]
  exact hy

theorem Interleaved.closed {filler : Command → Prop} {bands : List (List Command)}
    (h : Interleaved filler bands cs) (hfiller : ∀ c, filler c → Closed [c])
    (hbands : ∀ b ∈ bands, Closed b) : Closed cs := by
  induction h with
  | nil => rfl
  | skip hc _ ih => exact (hfiller _ hc).append (ih hbands)
  | band b _ ih =>
    obtain ⟨hb, hbands⟩ := List.forall_mem_cons.mp hbands
    exact hb.append (ih hbands)

theorem closed_textBand (farText : Bool) (romStart : Value) (tag : BankTag) :
    Closed (textBand farText romStart tag) := by
  cases farText <;> cases tag <;> rfl

theorem closed_farBand (name : String) : Closed (farBand name) := rfl

theorem closed_endMarker (key : String) (alignment : Value) : Closed (endMarker key alignment) :=
  rfl

theorem closed_placedRegion (r : Region) : Closed (placedRegion r) := by
  unfold placedRegion
  split <;> rfl

theorem closed_debugSection (name : String) (extra : List String) :
    Closed (debugSection name extra) := rfl

theorem closed_markerBand (chainHead : String) (w : Window) (tag : BankTag) :
    Closed (markerBand chainHead w tag) := by
  have hbounds (start : String) : nest true (if tag = .shadow then
      w.regions.map fun r => mark 2 tag (start ++ symbolStem r) else []) = some true := by
    split
    · exact nest_level (by simp [mark, define, Command.nest])
    · rfl
  have hfamilies : nest true (w.regions.flatMap fun r =>
      (regionFamilies r).map (collect 2 tag)) = some true := by
    refine nest_level ?_
    simp only [List.forall_mem_flatMap, List.forall_mem_map]
    exact fun _ _ _ _ => rfl
  have hopen : nest false [.blank, .openSection (markerHeader chainHead w tag)] = some true := rfl
  simp only [Closed, markerBand, nest_append, hopen, hbounds, hfamilies, Option.bind_some]
  rfl

namespace Emitter

theorem Band.closed {e : Emitter} {b : List Command} (h : e.Band b) : Closed b := by
  cases h with
  | text tag => exact closed_textBand _ _ tag
  | far name => exact closed_farBand name
  | endMarker key alignment => exact closed_endMarker key _
  | markerBand chainHead w tag => exact closed_markerBand chainHead w tag
  | region r => exact closed_placedRegion r
  | debug name extra => exact closed_debugSection name extra

theorem Filler.closed {e : Emitter} {c : Command} (h : e.Filler c) : Closed [c] := by
  rcases h with hc | ⟨p, _, hc⟩
  · cases hc <;> rfl
  · simp only [constant, List.mem_cons, List.not_mem_nil, or_false] at hc
    rcases hc with rfl | rfl | rfl <;> rfl

theorem closed_script (e : Emitter) (date : String) : Closed (e.script date) :=
  (e.script_interleaved date).closed (fun _ => Filler.closed)
    fun b hb => (e.band_of_mem b hb).closed

end Emitter
end FirmwareKit.Script
