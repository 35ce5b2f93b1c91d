import FirmwareKit.Proofs.Script.Ascending
import FirmwareKit.Proofs.Script.Lines
set_option autoImplicit false

/-!
# Routing of sections

The bands of a family stand in the order shadow, primary and mirror, and no line of another family
takes its sections. So each band gets the sections of its bank, whatever else is in the script.
-/
namespace FirmwareKit.Script

def reservedFamilies : List String := ["text", "start"] ++ farFamilies ++ heapFamilies

def Served (e : Emitter) (f : String) : Prop :=
  f = "text" ∨ (e.farText = false ∧ f ∈ farFamilies) ∨
    ∃ r ∈ e.layout.regions, f ∈ regionFamilies r

/-- The bands of a family in its banks. In RAM, the alternate banks are those of a whole window. -/
inductive OwnBand (e : Emitter) (f : String) : BankTag → List Command → Prop
  | text (hf : f = "text" ∨ (e.farText = false ∧ f ∈ farFamilies)) (tag : BankTag) :
    OwnBand e f tag (e.text tag)
  | region {r : Region} (hr : r ∈ e.layout.regions) (hf : f ∈ regionFamilies r) :
    OwnBand e f .primary (placedRegion r)
  | alternate {w : Window} {r : Region} (hw : w ∈ e.layout.windows) (hr : r ∈ w.regions)
    (hf : f ∈ regionFamilies r) {tag : BankTag} (htag : tag ≠ .primary) (chainHead : String) :
    OwnBand e f tag (markerBand chainHead w tag)

theorem ownFamilies_stem {r : Region} (hr : Stem r.name) : ∀ g ∈ ownFamilies r, Stem g.1 := by
  unfold ownFamilies regionFamilies
  split
  · decide
  · simpa using hr

theorem mem_ownFamilies_iff {r : Region} {f : String} :
    (∃ g ∈ ownFamilies r, g.1 = f) ↔ f ∈ regionFamilies r := by
  simp [ownFamilies]

theorem ownFamilies_bare (r : Region) : ∀ g ∈ ownFamilies r, g.2 = true := by
  simp [ownFamilies]

section Ram
variable {f rest : String} {tag : BankTag} (hf : Stem f) (hbank : bank? rest.toList = some tag)
include hf hbank

theorem placedRegion_leaves {r : Region} (hr : Stem r.name)
    (h : f ∉ regionFamilies r ∨ bankOrder .primary < bankOrder tag) :
    ∀ c ∈ placedRegion r, ¬ c.Collects ("." ++ f ++ rest) := by
  apply not_collects_of_lines
  rw [lines_placedRegion]
  refine familyLines_leave hf hbank (ownFamilies_stem hr) (h.imp_left fun hne => ?_) 3
  intro g hg hgf
  exact hne (mem_ownFamilies_iff.mp ⟨g, hg, hgf⟩)

theorem markerBand_leaves {w : Window} (hw : ∀ r ∈ w.regions, Stem r.name) {other : BankTag}
    (h : (∀ r ∈ w.regions, f ∉ regionFamilies r) ∨ bankOrder other < bankOrder tag)
    (chainHead : String) :
    ∀ c ∈ markerBand chainHead w other, ¬ c.Collects ("." ++ f ++ rest) := by
  apply not_collects_of_lines
  rw [lines_markerBand]
  refine familyLines_leave hf hbank ?_ (h.imp_left fun hne => ?_) 2
  · rw [List.forall_mem_flatMap]
    exact fun r hr => ownFamilies_stem (hw r hr)
  · rw [List.forall_mem_flatMap]
    exact fun r hr g hg hgf => hne r hr (mem_ownFamilies_iff.mp ⟨g, hg, hgf⟩)

theorem markerBand_first {w : Window} (hw : ∀ r ∈ w.regions, Stem r.name) {r : Region}
    (hr : r ∈ w.regions) (hfamily : f ∈ regionFamilies r) (chainHead : String) :
    ∃ bare, First (Command.Collects ("." ++ f ++ rest)) (markerBand chainHead w tag)
      (familyLine 2 tag (f, bare)) := by
  have hstems : ∀ g ∈ w.regions.flatMap ownFamilies, Stem g.1 := by
    rw [List.forall_mem_flatMap]
    exact fun r hr => ownFamilies_stem (hw r hr)
  have hbare : ∀ g ∈ w.regions.flatMap ownFamilies, g.1 = f → g.2 = true ∨ rest.toList ≠ [] := by
    rw [List.forall_mem_flatMap]
    exact fun r _ g hg _ => .inl (ownFamilies_bare r g hg)
  obtain ⟨g, hg, hgf⟩ := mem_ownFamilies_iff.mpr hfamily
  obtain ⟨bare, hfirst⟩ := familyLines_first hf hbank hstems
    ⟨g, List.mem_flatMap.mpr ⟨r, hr, hg⟩, hgf⟩ hbare 2
  rw [← lines_markerBand chainHead] at hfirst
  exact ⟨bare, first_of_lines hfirst⟩

end Ram

theorem placedRegions_taken {f rest : String} (hf : Stem f)
    (hbank : bank? rest.toList = some .primary) {rs : List Region} (hrs : ∀ r ∈ rs, Stem r.name)
    (hmem : ∃ r ∈ rs, f ∈ regionFamilies r) :
    ∃ r ∈ rs, f ∈ regionFamilies r ∧ ∃ bare, TakenIn ("." ++ f ++ rest)
      (rs.flatMap placedRegion) (placedRegion r) (familyLine 3 .primary (f, bare)) := by
  induction rs with
  | nil => simp at hmem
  | cons r rs ih =>
    obtain ⟨hr, hrs⟩ := List.forall_mem_cons.mp hrs
    rw [List.flatMap_cons]
    by_cases hfamily : f ∈ regionFamilies r
    · obtain ⟨bare, hfirst⟩ := familyLines_first hf hbank (ownFamilies_stem hr)
        (mem_ownFamilies_iff.mpr hfamily) (fun g hg _ => .inl (ownFamilies_bare r g hg)) 3
      rw [← lines_placedRegion] at hfirst
      exact ⟨r, List.mem_cons_self, hfamily, bare,
        (TakenIn.of_first (first_of_lines hfirst)).append _⟩
    · have hmem : ∃ r ∈ rs, f ∈ regionFamilies r := by simpa [hfamily] using hmem
      obtain ⟨s, hs, hfs, bare, htaken⟩ := ih hrs hmem
      exact ⟨s, List.mem_cons_of_mem r hs, hfs, bare,
        htaken.prepend (placedRegion_leaves hf hbank hr (.inl hfamily))⟩

theorem silent_leaves {name : String} {c : Command} (h : c.Silent) : ¬ c.Collects name := by
  rintro ⟨pattern, hpattern, _⟩
  cases h <;> simp [Command.patterns] at hpattern

theorem endMarker_leaves (name key : String) (alignment : Value) :
    ∀ c ∈ endMarker key alignment, ¬ c.Collects name := by
  apply not_collects_of_lines
  have hlines : lines (endMarker key alignment) = [] := rfl
  simp [hlines]

section Windows
variable {e : Emitter} {f rest : String} {tag : BankTag} (hf : Stem f)
  (hbank : bank? rest.toList = some tag)
include hf hbank

theorem window_leaves {w : Window} (hw : ∀ r ∈ w.regions, Stem r.name)
    (hne : ∀ r ∈ w.regions, f ∉ regionFamilies r) (chainHead : String) :
    ∀ c ∈ window chainHead w, ¬ c.Collects ("." ++ f ++ rest) := by
  have hregions : ∀ r ∈ w.regions, ∀ c ∈ placedRegion r, ¬ c.Collects ("." ++ f ++ rest) :=
    fun r hr => placedRegion_leaves hf hbank (hw r hr) (.inl (hne r hr))
  exact forall_mem_window (silent_leaves .blank) (silent_leaves (.comment _))
    (fun other => markerBand_leaves hf hbank hw (.inl hne) chainHead) hregions
    (endMarker_leaves _ _ _)

theorem window_taken {w : Window} (hmem : w ∈ e.layout.windows)
    (hw : ∀ r ∈ w.regions, Stem r.name) (hfamily : ∃ r ∈ w.regions, f ∈ regionFamilies r)
    (chainHead : String) :
    ∃ band level bare, OwnBand e f tag band ∧ TakenIn ("." ++ f ++ rest) (window chainHead w) band
      (familyLine level tag (f, bare)) := by
  obtain ⟨r, hr, hfr⟩ := hfamily
  have hne : w.regions.isEmpty = false := List.isEmpty_eq_false_iff.mpr (List.ne_nil_of_mem hr)
  have hcomment : ∀ c ∈ [Command.comment (Text.upper w.name)], ¬ c.Collects ("." ++ f ++ rest) :=
    List.forall_mem_singleton.mpr (silent_leaves (.comment _))
  have hwindow : window chainHead w = [Command.comment (Text.upper w.name)]
      ++ (markerBand chainHead w .shadow ++ (w.regions.flatMap placedRegion
        ++ (markerBand chainHead w .mirror
          ++ (endMarker (windowMarker w) (.int 2) ++ [Command.blank])))) := by
    simp [window, hne]
  rw [hwindow]
  -- The bands of the window in front of the own one are those of banks that leave the section.
  cases tag with
  | shadow =>
    obtain ⟨bare, hfirst⟩ := markerBand_first hf hbank hw hr hfr chainHead
    exact ⟨_, 2, bare, .alternate hmem hr hfr (by decide) chainHead,
      ((TakenIn.of_first hfirst).append _).prepend hcomment⟩
  | primary =>
    obtain ⟨s, hs, hfs, bare, htaken⟩ := placedRegions_taken hf hbank hw ⟨r, hr, hfr⟩
    have hregion : s ∈ e.layout.regions := (mem_windows_regions_iff e.layout s).mp ⟨w, hmem, hs⟩
    exact ⟨_, 3, bare, .region hregion hfs, ((htaken.append _).prepend
      (markerBand_leaves hf hbank hw (.inr (by decide)) chainHead)).prepend hcomment⟩
  | mirror =>
    obtain ⟨bare, hfirst⟩ := markerBand_first hf hbank hw hr hfr chainHead
    have hregions : ∀ c ∈ w.regions.flatMap placedRegion, ¬ c.Collects ("." ++ f ++ rest) := by
      rw [List.forall_mem_flatMap]
      exact fun s hs => placedRegion_leaves hf hbank (hw s hs) (.inr (by decide))
    exact ⟨_, 2, bare, .alternate hmem hr hfr (by decide) chainHead,
      ((((TakenIn.of_first hfirst).append _).prepend hregions).prepend
        (markerBand_leaves hf hbank hw (.inr (by decide)) chainHead)).prepend hcomment⟩

theorem chain_taken {ws : List Window} (hws : ∀ w ∈ ws, w ∈ e.layout.windows)
    (hstems : ∀ w ∈ ws, ∀ r ∈ w.regions, Stem r.name)
    (hfamily : ∃ w ∈ ws, ∃ r ∈ w.regions, f ∈ regionFamilies r) (chainHead : String) :
    ∃ band level bare, OwnBand e f tag band ∧ TakenIn ("." ++ f ++ rest)
      (Emitter.chain chainHead ws) band (familyLine level tag (f, bare)) := by
  induction ws generalizing chainHead with
  | nil => simp at hfamily
  | cons w ws ih =>
    obtain ⟨hw, hws⟩ := List.forall_mem_cons.mp hws
    obtain ⟨hstem, hstems⟩ := List.forall_mem_cons.mp hstems
    rw [Emitter.chain]
    by_cases hhere : ∃ r ∈ w.regions, f ∈ regionFamilies r
    · obtain ⟨band, level, bare, hown, htaken⟩ := window_taken hf hbank hw hstem hhere chainHead
      exact ⟨band, level, bare, hown, htaken.append _⟩
    · have hlater : ∃ w ∈ ws, ∃ r ∈ w.regions, f ∈ regionFamilies r := by
        obtain ⟨v, hv, hfv⟩ := hfamily
        rcases List.mem_cons.mp hv with rfl | hv
        · exact absurd hfv hhere
        · exact ⟨v, hv, hfv⟩
      obtain ⟨band, level, bare, hown, htaken⟩ := ih hws hstems hlater _
      -- Windows before the family's own have other families only.
      have hleaves := window_leaves hf hbank hstem (by simpa using hhere) chainHead
      exact ⟨band, level, bare, hown, htaken.prepend hleaves⟩

end Windows

section Rom
variable {e : Emitter} {f rest : String} {tag : BankTag} (hf : Stem f)
  (hbank : bank? rest.toList = some tag)
include hf hbank

/-- The startup line of a text band is for one section only. -/
theorem start_leaves (hne : f ≠ "start") (other : BankTag) :
    ¬ (Command.input 2 (.keep (.inQuotes (".start" ++ other.suffix)))).Collects
      ("." ++ f ++ rest) := by
  have hpatterns : (Command.input 2 (.keep (.inQuotes (".start" ++ other.suffix)))).patterns =
      ["." ++ "start" ++ other.suffix] := rfl
  refine not_collects_of_stem hf hbank hpatterns (by decide) ?_ hne.symm
  cases other <;> decide

theorem text_leaves (hne : f ≠ "start") {other : BankTag}
    (h : (∀ g ∈ textFamilies e.farText, g.1 ≠ f) ∨ bankOrder other < bankOrder tag) :
    ∀ c ∈ e.text other, ¬ c.Collects ("." ++ f ++ rest) := by
  have hstems : ∀ g ∈ textFamilies e.farText, Stem g.1 := by
    cases e.farText <;> decide
  apply not_collects_of_lines
  rw [Emitter.text, lines_textBand, List.forall_mem_cons]
  exact ⟨start_leaves hf hbank hne other, familyLines_leave hf hbank hstems h 2⟩

theorem text_first (hmem : ∃ g ∈ textFamilies e.farText, g.1 = f)
    (hbare : f ∈ farFamilies → rest ≠ "") :
    ∃ bare, First (Command.Collects ("." ++ f ++ rest)) (e.text tag)
      (familyLine 2 tag (f, bare)) := by
  have hstems : ∀ g ∈ textFamilies e.farText, Stem g.1 := by
    cases e.farText <;> decide
  have hstart : ∀ g ∈ textFamilies e.farText, g.1 ≠ "start" := by
    cases e.farText <;> decide
  have hfar : ∀ g ∈ textFamilies e.farText, g.2 = true ∨ g.1 ∈ farFamilies := by
    cases e.farText <;> decide
  have hne : f ≠ "start" := by
    obtain ⟨g, hg, rfl⟩ := hmem
    exact hstart g hg
  obtain ⟨bare, hfirst⟩ := familyLines_first hf hbank hstems hmem (fun g hg hgf =>
    (hfar g hg).imp_right fun hmem => by simpa using hbare (hgf ▸ hmem)) 2
  refine ⟨bare, first_of_lines ?_⟩
  rw [Emitter.text, lines_textBand]
  exact hfirst.tail (start_leaves hf hbank hne tag)

theorem farBand_leaves {name : String} (hname : Stem name) (hne : name ≠ f) :
    ∀ c ∈ farBand name, ¬ c.Collects ("." ++ f ++ rest) := by
  have hsuffixes : ∀ suffix ∈ farSuffixes, Tail suffix.toList := by decide
  have hlines : lines (farBand name) =
      farSuffixes.map fun suffix => .input 2 (.sorted (.inQuotes ("." ++ name ++ suffix))) := rfl
  apply not_collects_of_lines
  rw [hlines, List.forall_mem_map]
  exact fun suffix hsuffix => not_collects_of_stem hf hbank rfl hname (hsuffixes suffix hsuffix) hne

end Rom

theorem constants_leave (name : String) (constants : List (Value × Int)) :
    ∀ c ∈ constants.flatMap (fun p => constant p.1 (.int p.2)), ¬ c.Collects name := by
  apply not_collects_of_lines
  have hlines : lines (constants.flatMap fun p => constant p.1 (.int p.2)) = [] := by
    rw [lines_flatMap, List.flatMap_eq_nil_iff]
    exact fun _ _ => rfl
  simp [hlines]

section Script
variable {e : Emitter} {f rest : String} {tag : BankTag} (hf : Stem f)
  (hbank : bank? rest.toList = some tag)
include hf hbank

theorem romPart_taken (hmem : ∃ g ∈ textFamilies e.farText, g.1 = f)
    (hbare : f ∈ farFamilies → rest ≠ "") :
    ∃ bare, TakenIn ("." ++ f ++ rest) e.romPart (e.text tag) (familyLine 2 tag (f, bare)) := by
  have hstart : ∀ g ∈ textFamilies e.farText, g.1 ≠ "start" := by
    cases e.farText <;> decide
  have hne : f ≠ "start" := by
    obtain ⟨g, hg, rfl⟩ := hmem
    exact hstart g hg
  have hblank : ∀ c ∈ [Command.blank], ¬ c.Collects ("." ++ f ++ rest) :=
    List.forall_mem_singleton.mpr (silent_leaves .blank)
  have hearlier {other : BankTag} (h : bankOrder other < bankOrder tag) :
      ∀ c ∈ e.text other, ¬ c.Collects ("." ++ f ++ rest) := text_leaves hf hbank hne (.inr h)
  obtain ⟨bare, hfirst⟩ := text_first hf hbank hmem hbare
  obtain ⟨ending, hrom⟩ : ∃ ending, e.romPart = e.text .shadow ++ ([Command.blank]
      ++ (e.text .primary ++ (e.constants.flatMap (fun c => constant c.1 (.int c.2))
        ++ ([Command.blank] ++ (e.text .mirror ++ ending))))) :=
    ⟨(if e.farText then farFamilies.flatMap farBand else []) ++ (endMarker romEnd (.int 16)
      ++ [Command.blank]), by simp [Emitter.romPart]⟩
  have htaken := TakenIn.of_first hfirst
  rw [hrom]
  refine ⟨bare, ?_⟩
  cases tag with
  | shadow => exact htaken.append _
  | primary => exact ((htaken.append _).prepend hblank).prepend (hearlier (by decide))
  | mirror =>
    have hmirror := ((htaken.append ending).prepend hblank).prepend (constants_leave _ e.constants)
    exact ((hmirror.prepend (hearlier (by decide))).prepend hblank).prepend (hearlier (by decide))

theorem romPart_leaves (hne : f ∉ ["text", "start"] ++ farFamilies) :
    ∀ c ∈ e.romPart, ¬ c.Collects ("." ++ f ++ rest) := by
  have htextFamilies : ∀ g ∈ textFamilies e.farText, g.1 ∈ "text" :: farFamilies := by
    cases e.farText <;> decide
  have htext (other : BankTag) : ∀ c ∈ e.text other, ¬ c.Collects ("." ++ f ++ rest) := by
    refine text_leaves hf hbank ?_ (.inl ?_)
    · rintro rfl
      exact hne (by decide)
    · rintro g hg rfl
      have hmem := htextFamilies g hg
      simp_all
  have hfar : ∀ g ∈ farFamilies, ∀ c ∈ farBand g, ¬ c.Collects ("." ++ f ++ rest) := by
    intro g hg
    have hstem : ∀ g ∈ farFamilies, Stem g := by decide
    refine farBand_leaves hf hbank (hstem g hg) ?_
    rintro rfl
    exact hne (List.mem_append_right _ hg)
  exact Emitter.forall_mem_romPart (silent_leaves .blank) htext
    (List.forall_mem_flatMap.mp (constants_leave _ e.constants)) hfar (endMarker_leaves _ _ _)

end Script

theorem header_leaves (name : String) (e : Emitter) (date : String) :
    ∀ c ∈ e.header date, ¬ c.Collects name := by
  have hheader : ∀ c ∈ e.header date, c.Silent := by simp [Emitter.header]
  exact fun c hc => silent_leaves (hheader c hc)

theorem mem_textFamilies_iff (farText : Bool) (f : String) :
    (∃ g ∈ textFamilies farText, g.1 = f) ↔
      f = "text" ∨ (farText = false ∧ f ∈ farFamilies) := by
  cases farText <;> simp [textFamilies, eq_comm]

theorem served_stem {e : Emitter} (hstems : ∀ r ∈ e.layout.regions, Stem r.name) {f : String}
    (hf : Served e f) : Stem f := by
  rcases hf with rfl | ⟨_, hfar⟩ | ⟨r, hr, hfamily⟩
  · decide
  · have hfars : ∀ g ∈ farFamilies, Stem g := by decide
    exact hfars f hfar
  · obtain ⟨g, hg, rfl⟩ := mem_ownFamilies_iff.mpr hfamily
    exact ownFamilies_stem (hstems r hr) g hg

/-- A section of a family that has bands goes to the family's line in the band of its bank. -/
theorem script_routes (entries : Value.Entries) (model : Value) (l : Layout)
    (hl : Memory.normalize entries model = .ok l) (e : Emitter) (he : e.layout = l)
    (hnames : ∀ r ∈ l.regions, r.name ∉ reservedFamilies) (f rest : String) (tag : BankTag)
    (hf : Served e f) (hbank : bank? rest.toList = some tag) (hbare : f ∈ farFamilies → rest ≠ "")
    (date : String) :
    ∃ band level bare, OwnBand e f tag band ∧ TakenIn ("." ++ f ++ rest) (e.script date) band
      (.input level (family tag f bare)) := by
  subst he
  have hstems : ∀ r ∈ e.layout.regions, Stem r.name := fun r hr =>
    (Memory.normalize_identifier hl r hr).all_rest
  have hstem := served_stem hstems hf
  have hheader := header_leaves ("." ++ f ++ rest) e date
  have hscript : e.script date = e.header date ++ (e.romPart ++ (e.ramPart
      ++ (Emitter.debugPart ++ [.verbatim "\x7d\n"]))) := by
    simp [Emitter.script]
  rw [hscript]
  by_cases htext : ∃ g ∈ textFamilies e.farText, g.1 = f
  · obtain ⟨bare, htaken⟩ := romPart_taken hstem hbank htext hbare
    exact ⟨_, 2, bare, .text ((mem_textFamilies_iff _ f).mp htext) tag,
      (htaken.append _).prepend hheader⟩
  · obtain ⟨r, hr, hfamily⟩ : ∃ r ∈ e.layout.regions, f ∈ regionFamilies r := by
      rw [mem_textFamilies_iff] at htext
      rcases hf with hf | hf | hf
      · exact absurd (.inl hf) htext
      · exact absurd (.inr hf) htext
      · exact hf
    obtain ⟨w, hw, hrw⟩ := (mem_windows_regions_iff e.layout r).mpr hr
    have hne : f ∉ ["text", "start"] ++ farFamilies := by
      unfold regionFamilies at hfamily
      split at hfamily
      · have hheap : ∀ g ∈ heapFamilies, g ∉ ["text", "start"] ++ farFamilies := by decide
        exact hheap f hfamily
      · rw [List.mem_singleton] at hfamily
        rw [hfamily]
        exact fun hmem => hnames r hr (List.mem_append_left _ hmem)
    obtain ⟨band, level, bare, hown, htaken⟩ := chain_taken hstem hbank (e := e)
      (fun w hw => hw) (fun w hw r hr => hstems r ((mem_windows_regions_iff _ r).mp ⟨w, hw, hr⟩))
      ⟨w, hw, r, hrw, hfamily⟩ romEnd
    exact ⟨band, level, bare, hown, ((htaken.append _).prepend
      (romPart_leaves hstem hbank hne)).prepend hheader⟩

theorem script_routes_adjoiningMap : ∃ e : Emitter,
    Emitter.make adjoiningLayout [] (.int 0x20000) (.int 0xE0000) defaultProgramName = .ok e ∧
      Memory.normalize adjoiningMap (.model .small) = .ok adjoiningLayout ∧
      ∃ band level bare, OwnBand e "data" .shadow band ∧
        TakenIn ".data.x!" (e.script "today") band (.input level (family .shadow "data" bare)) := by
  refine ⟨_, rfl, normalize_adjoiningMap, ?_⟩
  exact script_routes adjoiningMap (.model .small) adjoiningLayout normalize_adjoiningMap _ rfl
    (by decide) "data" ".x!" .shadow
    (.inr (.inr ⟨⟨"c_heap", 0x10000, 0x10FFF⟩, by decide, by decide⟩)) (by decide) (by decide)
    "today"

end FirmwareKit.Script
