import FirmwareKit.Proofs.Script.Names
import FirmwareKit.Proofs.Script.Statements
set_option autoImplicit false

namespace FirmwareKit.Script

/-- Bands in order, with commands of one kind before, between and after them. -/
inductive Interleaved (filler : Command → Prop) : List (List Command) → List Command → Prop
  | nil : Interleaved filler [] []
  | skip {bands : List (List Command)} {c : Command} {cs : List Command} (hc : filler c)
      (h : Interleaved filler bands cs) : Interleaved filler bands (c :: cs)
  | band {bands : List (List Command)} {cs : List Command} (b : List Command)
      (h : Interleaved filler bands cs) : Interleaved filler (b :: bands) (b ++ cs)

namespace Interleaved
variable {filler : Command → Prop} {bands later : List (List Command)} {cs ds : List Command}

theorem append (h : Interleaved filler bands cs) (h' : Interleaved filler later ds) :
    Interleaved filler (bands ++ later) (cs ++ ds) := by
  induction h with
  | nil => exact h'
  | skip hc _ ih => exact .skip hc ih
  | band b _ ih =>
    rw [List.append_assoc]
    exact .band b ih

theorem fillers (h : ∀ c ∈ cs, filler c) : Interleaved filler [] cs := by
  induction cs with
  | nil => exact .nil
  | cons c cs ih =>
    obtain ⟨hc, hcs⟩ := List.forall_mem_cons.mp h
    exact .skip hc (ih hcs)

theorem flatten (bands : List (List Command)) : Interleaved filler bands bands.flatten := by
  induction bands with
  | nil => exact .nil
  | cons b bands ih => exact .band b ih

theorem single (b : List Command) : Interleaved filler [b] b := by
  simpa using (flatten [b] : Interleaved filler [b] _)

theorem mono {filler' : Command → Prop} (hf : ∀ c, filler c → filler' c)
    (h : Interleaved filler bands cs) : Interleaved filler' bands cs := by
  induction h with
  | nil => exact .nil
  | skip hc _ ih => exact .skip (hf _ hc) ih
  | band b _ ih => exact .band b ih

/-- The commands around a band are those of the bands before it and behind it. -/
theorem split (h : Interleaved filler bands cs) {b : List Command} (hb : b ∈ bands) :
    ∃ before after earlier later, cs = before ++ b ++ after ∧ bands = earlier ++ b :: later ∧
      Interleaved filler earlier before ∧ Interleaved filler later after := by
  induction h with
  | nil => simp at hb
  | @skip _ c _ hc _ ih =>
    obtain ⟨before, after, earlier, later, rfl, hbands, hbefore, hafter⟩ := ih hb
    exact ⟨c :: before, after, earlier, later, rfl, hbands, .skip hc hbefore, hafter⟩
  | @band bands cs b' h ih =>
    rcases List.mem_cons.mp hb with rfl | hb
    · exact ⟨[], cs, [], bands, rfl, rfl, .nil, h⟩
    · obtain ⟨before, after, earlier, later, rfl, rfl, hbefore, hafter⟩ := ih hb
      exact ⟨b' ++ before, after, b' :: earlier, later, by simp, rfl, .band b' hbefore, hafter⟩

end Interleaved

inductive Command.Silent : Command → Prop
  | verbatim (text : String) : Silent (.verbatim text)
  | blank : Silent .blank
  | comment (text : String) : Silent (.comment text)
  | memory (name attributes : String) (origin length : Value) :
    Silent (.memory name attributes origin length)

attribute [simp] Command.Silent.verbatim Command.Silent.blank Command.Silent.comment
  Command.Silent.memory

theorem Command.Silent.assigned?_eq {c : Command} (h : c.Silent) : c.assigned? = none := by
  cases h <;> rfl

theorem Command.Silent.opened?_eq {c : Command} (h : c.Silent) : c.opened? = none := by
  cases h <;> rfl

theorem Interleaved.symbols_eq {bands : List (List Command)} {cs : List Command}
    (h : Interleaved Command.Silent bands cs) : symbols cs = bands.flatMap symbols := by
  induction h with
  | nil => rfl
  | skip hc _ ih => rw [symbols_cons, hc.assigned?_eq, ih]; rfl
  | band b _ ih => rw [symbols_append, ih, List.flatMap_cons]

theorem Interleaved.forall_mem {filler p : Command → Prop} {bands : List (List Command)}
    {cs : List Command} (h : Interleaved filler bands cs) (hfiller : ∀ c, filler c → p c)
    (hbands : ∀ b ∈ bands, ∀ c ∈ b, p c) : ∀ c ∈ cs, p c := by
  induction h with
  | nil => simp
  | skip hc _ ih => exact List.forall_mem_cons.mpr ⟨hfiller _ hc, ih hbands⟩
  | band b _ ih =>
    obtain ⟨hb, hbands⟩ := List.forall_mem_cons.mp hbands
    exact List.forall_mem_append.mpr ⟨hb, ih hbands⟩

theorem mem_windows_regions_iff (l : Layout) (r : Region) :
    (∃ w ∈ l.windows, r ∈ w.regions) ↔ r ∈ l.regions := by
  simp [Layout.windows, Layout.regions]

def windowBands (chainHead : String) (w : Window) : List (List Command) :=
  if w.regions.isEmpty then []
  else
    [markerBand chainHead w .shadow] ++ w.regions.map placedRegion
      ++ [markerBand chainHead w .mirror, endMarker (windowMarker w) (.int 2)]

def chainBands (chainHead : String) : List Window → List (List Command)
  | [] => []
  | w :: rest => windowBands chainHead w ++ chainBands (chainAfter chainHead w) rest

namespace Emitter

def romBands (e : Emitter) : List (List Command) :=
  [e.text .shadow, e.text .primary, e.text .mirror]
  ++ (if e.farText then farFamilies.map farBand else []) ++ [endMarker romEnd (.int 16)]

def ramBands (e : Emitter) : List (List Command) := chainBands romEnd e.layout.windows

def debugBands : List (List Command) := debugSections.map fun s => debugSection s.1 s.2

def bands (e : Emitter) : List (List Command) := e.romBands ++ (e.ramBands ++ debugBands)

inductive Band (e : Emitter) : List Command → Prop
  | text (tag : BankTag) : Band e (e.text tag)
  | far (name : String) : Band e (farBand name)
  | endMarker (key : String) (alignment : Int) : Band e (endMarker key (.int alignment))
  | markerBand (chainHead : String) (w : Window) (tag : BankTag) :
    Band e (markerBand chainHead w tag)
  | region (r : Region) : Band e (placedRegion r)
  | debug (name : String) (extra : List String) : Band e (debugSection name extra)

def Filler (e : Emitter) (c : Command) : Prop :=
  c.Silent ∨ ∃ p ∈ e.constants, c ∈ constant p.1 (.int p.2)

end Emitter

theorem Emitter.band_of_mem_windowBands (e : Emitter) (chainHead : String) (w : Window) :
    ∀ b ∈ windowBands chainHead w, e.Band b := by
  simp only [windowBands, forall_mem_ite, List.forall_mem_append, List.forall_mem_cons,
    List.forall_mem_map]
  simp [Emitter.Band.markerBand, Emitter.Band.region, Emitter.Band.endMarker]

theorem Emitter.band_of_mem_chainBands (e : Emitter) (chainHead : String) (ws : List Window) :
    ∀ b ∈ chainBands chainHead ws, e.Band b := by
  induction ws generalizing chainHead with
  | nil => simp [chainBands]
  | cons w ws ih =>
    rw [chainBands, List.forall_mem_append]
    exact ⟨e.band_of_mem_windowBands chainHead w, ih _⟩

theorem Emitter.band_of_mem (e : Emitter) : ∀ b ∈ e.bands, e.Band b := by
  simp only [bands, romBands, debugBands, List.forall_mem_append, forall_mem_ite,
    List.forall_mem_cons, List.forall_mem_map]
  exact ⟨⟨⟨⟨.text _, .text _, .text _, by simp⟩, fun _ f _ => .far f, by simp⟩,
    .endMarker _ _, by simp⟩, e.band_of_mem_chainBands _ _, fun s _ => .debug s.1 s.2⟩

theorem window_interleaved (chainHead : String) (w : Window) :
    Interleaved Command.Silent (windowBands chainHead w) (window chainHead w) := by
  have hcomment : ∀ c ∈ [Command.comment (Text.upper w.name)], c.Silent := by
    simp
  have hblank : ∀ c ∈ [Command.blank], c.Silent := by simp
  have hbands : Interleaved Command.Silent (windowBands chainHead w)
      (windowBands chainHead w).flatten := .flatten _
  have hall := ((Interleaved.fillers hcomment).append hbands).append (Interleaved.fillers hblank)
  have hflat : (windowBands chainHead w).flatten = if w.regions.isEmpty then []
      else markerBand chainHead w .shadow ++ w.regions.flatMap placedRegion
        ++ markerBand chainHead w .mirror ++ endMarker (windowMarker w) (.int 2) := by
    unfold windowBands
    split <;> simp [List.flatMap_def]
  simpa [window, hflat] using hall

theorem chain_interleaved (chainHead : String) (ws : List Window) :
    Interleaved Command.Silent (chainBands chainHead ws) (Emitter.chain chainHead ws) := by
  induction ws generalizing chainHead with
  | nil => exact .nil
  | cons w ws ih => exact (window_interleaved chainHead w).append (ih _)

namespace Emitter

/-- Behind the code, nothing that has a name stands outside the bands. -/
theorem ram_interleaved (e : Emitter) : Interleaved Command.Silent (e.ramBands ++ debugBands)
    (e.ramPart ++ debugPart ++ [Command.verbatim "\x7d\n"]) := by
  have hdebug : Interleaved Command.Silent debugBands debugPart := by
    rw [debugPart, List.flatMap_def]
    exact .flatten _
  have hclose : ∀ c ∈ [Command.verbatim "\x7d\n"], c.Silent := by simp
  have hall := ((chain_interleaved romEnd e.layout.windows).append hdebug).append (.fillers hclose)
  simpa [ramBands, ramPart] using hall

theorem rom_interleaved (e : Emitter) (date : String) :
    Interleaved e.Filler e.romBands (e.header date ++ e.romPart) := by
  have hheader : ∀ c ∈ e.header date, e.Filler c := by
    simp [header, Filler]
  have hblank : ∀ c ∈ [Command.blank], e.Filler c := by
    simp [Filler]
  have hconstants : ∀ c ∈ e.constants.flatMap (fun p => constant p.1 (.int p.2)), e.Filler c := by
    intro c hc
    obtain ⟨p, hp, hc⟩ := List.mem_flatMap.mp hc
    exact .inr ⟨p, hp, hc⟩
  have hfar : Interleaved e.Filler (if e.farText then farFamilies.map farBand else [])
      (if e.farText then farFamilies.flatMap farBand else []) := by
    split
    · rw [List.flatMap_def]
      exact .flatten _
    · exact .nil
  have hcode := ((((((Interleaved.fillers hheader).append (.single (e.text .shadow))).append
    (.fillers hblank)).append (.single (e.text .primary))).append (.fillers hconstants)).append
    (.fillers hblank)).append (.single (e.text .mirror))
  have hall := ((hcode.append hfar).append (.single (endMarker romEnd (.int 16)))).append
    (.fillers hblank)
  simpa [romBands, romPart] using hall

theorem script_interleaved (e : Emitter) (date : String) :
    Interleaved e.Filler e.bands (e.script date) := by
  have hall := (e.rom_interleaved date).append (e.ram_interleaved.mono fun _ h => .inl h)
  simpa [bands, script] using hall

end Emitter
end FirmwareKit.Script
