import FirmwareKit.Proofs.Script.Names
import FirmwareKit.Proofs.Script.Statements
set_option autoImplicit false

namespace FirmwareKit

def Layout.filledWindows (l : Layout) : List Window := l.windows.filter fun w => !w.regions.isEmpty

namespace Script

def Command.sectionReferences : Command → List String
  | .assign _ _ (.sizeOf name) => [name]
  | .openSection header | .openInline header => header.loadAfter.toList
  | _ => []

def Command.symbolReferences : Command → List String
  | .assign _ _ (.words symbol) => [symbol]
  | _ => []

def Command.Free (c : Command) : Prop := c.sectionReferences = [] ∧ c.symbolReferences = []

instance (c : Command) : Decidable c.Free := inferInstanceAs (Decidable (_ ∧ _))

def Command.ResolvedBy (before : List Command) (c : Command) : Prop :=
  (∀ s ∈ c.sectionReferences, s ∈ sections before) ∧ ∀ s ∈ c.symbolReferences, s ∈ symbols before

/-- Each command refers only to what stands before it. -/
def Resolved (before : List Command) : List Command → Prop
  | [] => True
  | c :: cs => c.ResolvedBy before ∧ Resolved (before ++ [c]) cs

theorem resolved_append_iff (before xs ys : List Command) :
    Resolved before (xs ++ ys) ↔ Resolved before xs ∧ Resolved (before ++ xs) ys := by
  induction xs generalizing before with
  | nil => simp [Resolved]
  | cons x xs ih =>
    rw [List.cons_append, Resolved, Resolved, ih, and_assoc, List.append_assoc,
      List.singleton_append]

theorem Resolved.at {before cs : List Command} (h : Resolved before cs)
    {earlier later : List Command} {c : Command} (hcs : cs = earlier ++ c :: later) :
    c.ResolvedBy (before ++ earlier) := by
  subst hcs
  exact ((resolved_append_iff before earlier (c :: later)).mp h).2.1

theorem Resolved.free {cs : List Command} (h : ∀ c ∈ cs, c.Free) (before : List Command) :
    Resolved before cs := by
  induction cs generalizing before with
  | nil => trivial
  | cons c cs ih =>
    obtain ⟨⟨hsections, hsymbols⟩, hcs⟩ := List.forall_mem_cons.mp h
    exact ⟨by simp [Command.ResolvedBy, hsections, hsymbols], ih hcs _⟩

theorem Resolved.flatMap {α : Type} {xs : List α} {f : α → List Command} {before : List Command}
    (h : ∀ x ∈ xs, ∀ between, Resolved (before ++ between) (f x)) :
    Resolved before (xs.flatMap f) := by
  induction xs generalizing before with
  | nil => trivial
  | cons x xs ih =>
    obtain ⟨hx, hxs⟩ := List.forall_mem_cons.mp h
    rw [List.flatMap_cons, resolved_append_iff]
    refine ⟨by simpa using hx [], ih ?_⟩
    intro y hy between
    rw [List.append_assoc]
    exact hxs y hy _

theorem resolved_lengths {before : List Command} {sectionName : String}
    (h : sectionName ∈ sections before) (name : String) :
    Resolved before (lengths name sectionName) := by
  simp [lengths, Resolved, Command.ResolvedBy, Command.sectionReferences, Command.symbolReferences,
    zeroAlias, define, symbols_cons, Command.assigned?, sections_cons, Command.opened?, h,
    Name.plain]

theorem resolved_regionBody (before : List Command) (r : Region) :
    Resolved before (regionBody r) := by
  rw [regionBody, resolved_append_iff, resolved_append_iff]
  refine ⟨⟨.free ?_ _, resolved_lengths ?_ _⟩, .free ?_ _⟩
  · simp [Command.Free, markHere, define, collect, Command.sectionReferences,
      Command.symbolReferences]
  · simp [sections_cons, Command.opened?, markHere, define, Name.plain]
  · simp [Command.Free, markHere, define, moveTo, Command.sectionReferences,
      Command.symbolReferences]

theorem resolved_heapBody {before : List Command} (h : "." ++ romEnd ∈ sections before)
    (r : Region) : Resolved before (heapBody r) := by
  have hend : ".erom" ∈ sections before := h
  have hopen : Resolved before [markHere "__sheap", .blank, markHere "__sdata",
      .openSection ⟨.inQuotes ".data", .here, true, some ".erom"⟩,
      collect 3 .primary "rodata", collect 3 .primary "data", .closeSection none,
      markHere "__edata"] := by
    simp [Resolved, Command.ResolvedBy, Command.sectionReferences, Command.symbolReferences,
      markHere, define, collect, sections_cons, Command.opened?, hend]
  rw [heapBody, resolved_append_iff, resolved_append_iff, resolved_append_iff, resolved_append_iff]
  refine ⟨⟨⟨⟨hopen, resolved_lengths ?_ _⟩, .free (by decide) _⟩, resolved_lengths ?_ _⟩,
    .free ?_ _⟩
  · simp [sections_cons, Command.opened?, Name.inQuotes]
  · simp [sections_cons, Command.opened?, Name.plain]
  · simp [Command.Free, markHere, zeroAlias, define, moveTo, Command.sectionReferences,
      Command.symbolReferences]

theorem resolved_placedRegion {before : List Command} (h : "." ++ romEnd ∈ sections before)
    (r : Region) : Resolved before (placedRegion r) := by
  rw [placedRegion, resolved_append_iff]
  refine ⟨.free ?_ _, ?_⟩
  · simp [Command.Free, moveTo, Command.sectionReferences, Command.symbolReferences]
  · split
    · exact resolved_heapBody (by simp [h]) r
    · exact resolved_regionBody _ r

theorem resolved_markerBand {before : List Command} {chainHead : String}
    (h : "." ++ chainHead ∈ sections before) (w : Window) (tag : BankTag) :
    Resolved before (markerBand chainHead w tag) := by
  have hheader : Resolved before [.blank, .openSection (markerHeader chainHead w tag)] := by
    cases tag <;>
      simp [Resolved, Command.ResolvedBy, Command.sectionReferences, Command.symbolReferences,
        markerHeader, h]
  have hbounds (start : String) : ∀ c ∈ (if tag = .shadow then
      w.regions.map fun r => mark 2 tag (start ++ symbolStem r) else []), c.Free := by
    split <;> simp [Command.Free, mark, define, Command.sectionReferences, Command.symbolReferences]
  have hfamilies : ∀ c ∈ w.regions.flatMap (fun r => (regionFamilies r).map (collect 2 tag)),
      c.Free := by
    simp only [List.forall_mem_flatMap, List.forall_mem_map]
    exact fun _ _ _ _ => ⟨rfl, rfl⟩
  have hclose : (Command.closeSection (some (Text.upper w.name))).Free := ⟨rfl, rfl⟩
  rw [markerBand, resolved_append_iff, resolved_append_iff, resolved_append_iff,
    resolved_append_iff]
  exact ⟨⟨⟨⟨hheader, .free (hbounds _) _⟩, .free hfamilies _⟩, .free (hbounds _) _⟩,
    .free (by simpa using hclose) _⟩

theorem endMarker_free (key : String) (alignment : Value) :
    ∀ c ∈ endMarker key alignment, c.Free := by
  simp only [endMarker, List.forall_mem_append, List.forall_mem_cons, List.forall_mem_map]
  simp [Command.Free, alignCounter, moveNowhere, define, Command.sectionReferences,
    Command.symbolReferences]

theorem mem_sections_window {before : List Command} {chainHead : String}
    (h : "." ++ chainHead ∈ sections before) (w : Window) :
    "." ++ chainAfter chainHead w ∈ sections (before ++ window chainHead w) := by
  unfold chainAfter window
  split <;> simp [sections_cons, sections_endMarker, h]

theorem resolved_window {before : List Command} {chainHead : String}
    (hrom : "." ++ romEnd ∈ sections before) (h : "." ++ chainHead ∈ sections before)
    (w : Window) : Resolved before (window chainHead w) := by
  have hregions (between : List Command) :
      Resolved (before ++ between) (w.regions.flatMap placedRegion) :=
    .flatMap fun r _ _ => resolved_placedRegion (by simp [hrom]) r
  have hmarker (tag : BankTag) (between : List Command) :
      Resolved (before ++ between) (markerBand chainHead w tag) :=
    resolved_markerBand (by simp [h]) w tag
  have hcomment : ∀ c ∈ [Command.comment (Text.upper w.name)], c.Free := by
    simp [Command.Free, Command.sectionReferences, Command.symbolReferences]
  rw [window, resolved_append_iff, resolved_append_iff]
  refine ⟨⟨.free hcomment _, ?_⟩, .free (by decide) _⟩
  split
  · trivial
  · rw [resolved_append_iff, resolved_append_iff, resolved_append_iff]
    refine ⟨⟨⟨hmarker _ _, ?_⟩, ?_⟩, .free (endMarker_free _ _) _⟩
    · rw [List.append_assoc]
      exact hregions _
    · rw [List.append_assoc]
      exact hmarker _ _

theorem resolved_chain {before : List Command} {chainHead : String}
    (hrom : "." ++ romEnd ∈ sections before) (h : "." ++ chainHead ∈ sections before)
    (ws : List Window) : Resolved before (Emitter.chain chainHead ws) := by
  induction ws generalizing before chainHead with
  | nil => trivial
  | cons w ws ih =>
    rw [Emitter.chain, resolved_append_iff]
    exact ⟨resolved_window hrom h w, ih (by simp [hrom]) (mem_sections_window h w)⟩

theorem textBand_free (farText : Bool) (romStart : Value) (tag : BankTag) :
    ∀ c ∈ textBand farText romStart tag, c.Free := by
  have hheader : (textHeader tag romStart).loadAfter = none := by cases tag <;> rfl
  simp only [textBand, List.forall_mem_append, forall_mem_ite, List.forall_mem_cons,
    List.forall_mem_map]
  simp [Command.Free, mark, define, collect, alignCounter, hheader, Command.sectionReferences,
    Command.symbolReferences]

theorem header_free (e : Emitter) (date : String) : ∀ c ∈ e.header date, c.Free := by
  simp [Emitter.header, Command.Free, Command.sectionReferences, Command.symbolReferences]

theorem constant_free (name value : Value) : ∀ c ∈ constant name value, c.Free := by
  simp [constant, Command.Free, define, Command.sectionReferences, Command.symbolReferences]

theorem farBand_free (name : String) : ∀ c ∈ farBand name, c.Free := by
  simp only [farBand, List.forall_mem_append, List.forall_mem_cons, List.forall_mem_map]
  simp [Command.Free, moveNowhere, Command.sectionReferences, Command.symbolReferences]

theorem romPart_free (e : Emitter) : ∀ c ∈ e.romPart, c.Free :=
  Emitter.forall_mem_romPart ⟨rfl, rfl⟩ (textBand_free _ _)
    (fun q _ => constant_free q.1 (.int q.2)) (fun f _ => farBand_free f) (endMarker_free _ _)

theorem debugPart_free : ∀ c ∈ Emitter.debugPart, c.Free := by
  simp only [Emitter.debugPart, List.forall_mem_flatMap]
  simp [debugSection, Command.Free, zeroAlias, define, Command.sectionReferences,
    Command.symbolReferences]

theorem resolved_script (e : Emitter) (date : String) : Resolved [] (e.script date) := by
  have hrom : "." ++ romEnd ∈ sections (e.header date ++ e.romPart) := by
    rw [Emitter.romPart, sections_append, sections_append, sections_append, sections_endMarker]
    simp
  have hclose : ∀ c ∈ [Command.verbatim "\x7d\n"], c.Free := by decide
  rw [Emitter.script, resolved_append_iff, resolved_append_iff, resolved_append_iff,
    resolved_append_iff]
  exact ⟨⟨⟨⟨.free (header_free e date) _, .free (romPart_free e) _⟩,
    resolved_chain hrom hrom _⟩, .free debugPart_free _⟩, .free hclose _⟩

/-- The band that opens a window follows the end marker `key` with no section between them, and it
is loaded behind it. -/
def OpensBehind (script : List Command) (key : String) (w : Window) : Prop :=
  ∃ before alignment between header rest,
    script = before ++ endMarker key alignment ++ between ++ .openSection header :: rest ∧
      sections between = [] ∧ header.name = .tagged .shadow ("." ++ w.name) ∧
      header.loadAfter = some ("." ++ key)

/-- Along a chain, each window with regions opens behind the marker of the one before. -/
theorem chain_opensBehind (before : List Command) (chainHead : String) (alignment : Value)
    (between : List Command) (hbetween : sections between = []) (ws : List Window)
    (rest : List Command) :
    ∀ p ∈ (chainHead :: (ws.filter fun w => !w.regions.isEmpty).map windowMarker).zip
        (ws.filter fun w => !w.regions.isEmpty),
      OpensBehind (before ++ endMarker chainHead alignment ++ between
        ++ (Emitter.chain chainHead ws ++ rest)) p.1 p.2 := by
  induction ws generalizing before chainHead alignment between with
  | nil => simp
  | cons w ws ih =>
    have hcomment :
        sections (between ++ [Command.comment (Text.upper w.name), Command.blank]) = [] := by
      simp [hbetween, sections_cons, Command.opened?]
    cases hw : w.regions.isEmpty with
    | true =>
      -- An empty window leaves the head of the chain in place.
      have hnext := ih before chainHead alignment _ hcomment
      simpa [hw, Emitter.chain, window, chainAfter] using hnext
    | false =>
      -- Its own end marker is what the next window is loaded behind.
      have hnext := ih (before ++ endMarker chainHead alignment ++ between
        ++ [Command.comment (Text.upper w.name)] ++ markerBand chainHead w .shadow
        ++ w.regions.flatMap placedRegion ++ markerBand chainHead w .mirror) (windowMarker w)
        (.int 2) [.blank] rfl
      simp only [hw, Bool.not_false, List.filter_cons_of_pos, List.map_cons, List.zip_cons_cons,
        List.forall_mem_cons]
      refine ⟨⟨before, alignment, _, markerHeader chainHead w .shadow,
        (markerBand chainHead w .shadow).drop 2 ++ (w.regions.flatMap placedRegion
          ++ markerBand chainHead w .mirror ++ endMarker (windowMarker w) (.int 2)
          ++ [Command.blank] ++ (Emitter.chain (windowMarker w) ws ++ rest)), ?_, hcomment, rfl, rfl⟩,
        ?_⟩
      · have hopen : markerBand chainHead w .shadow = [Command.blank,
            Command.openSection (markerHeader chainHead w .shadow)]
              ++ (markerBand chainHead w .shadow).drop 2 := rfl
        simp only [Emitter.chain, window, chainAfter, hw]
        rw [hopen]
        simp
      · simpa [hw, Emitter.chain, window, chainAfter] using hnext

/-- Whatever a script refers to stands before the reference, and each window with regions is loaded
behind the last section before it: the end of the ROM or the end of the window before. -/
theorem script_references (e : Emitter) (date : String) :
    (∀ before c after, e.script date = before ++ c :: after → c.ResolvedBy before) ∧
      ∀ p ∈ (romEnd :: e.layout.filledWindows.map windowMarker).zip e.layout.filledWindows,
        OpensBehind (e.script date) p.1 p.2 := by
  constructor
  · intro before c after hscript
    simpa using (resolved_script e date).at hscript
  · obtain ⟨code, hcode⟩ : ∃ code, e.romPart = code ++ endMarker romEnd (.int 16) ++ [.blank] :=
      ⟨_, rfl⟩
    have hchain := chain_opensBehind (e.header date ++ code) romEnd (.int 16) [.blank] rfl
      e.layout.windows (Emitter.debugPart ++ [.verbatim "\x7d\n"])
    simpa [Emitter.script, Emitter.ramPart, hcode, Layout.filledWindows] using hchain

end Script
end FirmwareKit
