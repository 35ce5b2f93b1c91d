import FirmwareKit.Proofs.Sequence
import FirmwareKit.Proofs.Script.Families
set_option autoImplicit false

namespace FirmwareKit.Script

/-- The first command of a script that takes a section of the name, and the band it stands in. -/
def TakenIn (name : String) (script band : List Command) (c : Command) : Prop :=
  ∃ before after, script = before ++ band ++ after ∧ (∀ d ∈ before, ¬ d.Collects name) ∧
    First (Command.Collects name) band c

section Taken
variable {name : String} {script band : List Command} {c : Command}

theorem TakenIn.of_first (h : First (Command.Collects name) band c) : TakenIn name band band c :=
  ⟨[], [], by simp, by simp, h⟩

theorem TakenIn.prepend {before : List Command} (hbefore : ∀ d ∈ before, ¬ d.Collects name)
    (h : TakenIn name script band c) : TakenIn name (before ++ script) band c := by
  obtain ⟨between, after, rfl, hbetween, hfirst⟩ := h
  exact ⟨before ++ between, after, by simp, List.forall_mem_append.mpr ⟨hbefore, hbetween⟩, hfirst⟩

theorem TakenIn.append (h : TakenIn name script band c) (after : List Command) :
    TakenIn name (script ++ after) band c := by
  obtain ⟨before, between, rfl, hbefore, hfirst⟩ := h
  exact ⟨before, between ++ after, by simp, hbefore, hfirst⟩

end Taken

def lines (cs : List Command) : List Command := cs.filter fun c => !c.patterns.isEmpty

theorem lines_append (xs ys : List Command) : lines (xs ++ ys) = lines xs ++ lines ys :=
  List.filter_append ..

theorem lines_flatMap {α : Type} (f : α → List Command) (xs : List α) :
    lines (xs.flatMap f) = xs.flatMap fun x => lines (f x) := List.filter_flatMap ..

theorem Command.Collects.patterns_ne {name : String} {c : Command} (h : c.Collects name) :
    (!c.patterns.isEmpty) = true := by
  obtain ⟨pattern, hpattern, _⟩ := h
  simpa using List.ne_nil_of_mem hpattern

theorem first_of_lines {name : String} {cs : List Command} {c : Command}
    (h : First (Command.Collects name) (lines cs) c) : First (Command.Collects name) cs c :=
  h.of_filter fun _ hc => hc.patterns_ne

theorem not_collects_of_lines {name : String} {cs : List Command}
    (h : ∀ c ∈ lines cs, ¬ c.Collects name) : ∀ c ∈ cs, ¬ c.Collects name :=
  fun c hc hcollects => h c (List.mem_filter.mpr ⟨hc, hcollects.patterns_ne⟩) hcollects

def familyLine (level : Nat) (tag : BankTag) (f : String × Bool) : Command :=
  .input level (family tag f.1 f.2)

def textFamilies (farText : Bool) : List (String × Bool) :=
  ("text", true) :: if farText then [] else farFamilies.map (·, false)

def ownFamilies (r : Region) : List (String × Bool) := (regionFamilies r).map (·, true)

theorem lines_textBand (farText : Bool) (romStart : Value) (tag : BankTag) :
    lines (textBand farText romStart tag) =
      .input 2 (.keep (.inQuotes (".start" ++ tag.suffix))) ::
        (textFamilies farText).map (familyLine 2 tag) := by
  cases farText <;> cases tag <;> rfl

theorem lines_placedRegion (r : Region) :
    lines (placedRegion r) = (ownFamilies r).map (familyLine 3 .primary) := by
  cases hr : r.isHeap <;> simp only [placedRegion, ownFamilies, regionFamilies, hr] <;> rfl

theorem lines_familyLine (level : Nat) (tag : BankTag) (families : List (String × Bool)) :
    lines (families.map (familyLine level tag)) = families.map (familyLine level tag) := by
  refine List.filter_eq_self.mpr ?_
  rw [List.forall_mem_map]
  intro f _
  change (!(family tag f.1 f.2).patterns.isEmpty) = true
  rw [family_patterns]
  cases tag <;> simp [familyTails]

theorem lines_markerBand (chainHead : String) (w : Window) (tag : BankTag) :
    lines (markerBand chainHead w tag) =
      (w.regions.flatMap ownFamilies).map (familyLine 2 tag) := by
  have hbounds (start : String) : lines (if tag = .shadow then
      w.regions.map fun r => mark 2 tag (start ++ symbolStem r) else []) = [] := by
    split
    · simp [lines, mark, define, Command.patterns]
    · rfl
  have hfamilies : (w.regions.flatMap fun r => (regionFamilies r).map (collect 2 tag)) =
      (w.regions.flatMap ownFamilies).map (familyLine 2 tag) := by
    simp only [ownFamilies, List.map_flatMap, List.map_map]
    rfl
  have hopen : lines [.blank, .openSection (markerHeader chainHead w tag)] = [] := rfl
  rw [markerBand, lines_append, lines_append, lines_append, lines_append, hopen, hbounds, hbounds,
    hfamilies, lines_familyLine]
  simp [lines, Command.patterns]

section Section
variable {f rest : String} {tag : BankTag} (hf : Stem f) (hbank : bank? rest.toList = some tag)
include hf hbank

theorem familyLine_collects_iff {g : String × Bool} (hg : Stem g.1) (level : Nat)
    (other : BankTag) : (familyLine level other g).Collects ("." ++ f ++ rest) ↔
      g.1 = f ∧ Takes other g.2 rest.toList :=
  collects_family_iff hf hg (separated_of_bank hbank) level other g.2

theorem familyLines_leave {families : List (String × Bool)} (hstems : ∀ g ∈ families, Stem g.1)
    {other : BankTag}
    (h : (∀ g ∈ families, g.1 ≠ f) ∨ bankOrder other < bankOrder tag) (level : Nat) :
    ∀ c ∈ families.map (familyLine level other), ¬ c.Collects ("." ++ f ++ rest) := by
  rw [List.forall_mem_map]
  intro g hg hcollects
  obtain ⟨hname, htakes⟩ :=
    (familyLine_collects_iff hf hbank (hstems g hg) level other).mp hcollects
  rcases h with hne | horder
  · exact hne g hg hname
  · exact not_takes_of_bank hbank horder g.2 htakes

theorem familyLines_first {families : List (String × Bool)} (hstems : ∀ g ∈ families, Stem g.1)
    (hmem : ∃ g ∈ families, g.1 = f)
    (hbare : ∀ g ∈ families, g.1 = f → g.2 = true ∨ rest.toList ≠ []) (level : Nat) :
    ∃ bare, First (Command.Collects ("." ++ f ++ rest)) (families.map (familyLine level tag))
      (familyLine level tag (f, bare)) := by
  induction families with
  | nil => simp at hmem
  | cons g families ih =>
    obtain ⟨hstem, hstems⟩ := List.forall_mem_cons.mp hstems
    obtain ⟨hbareg, hbare⟩ := List.forall_mem_cons.mp hbare
    have hcollects := familyLine_collects_iff hf hbank hstem level tag
    by_cases hg : g.1 = f
    · obtain ⟨name, bare⟩ := g
      obtain rfl : name = f := hg
      exact ⟨bare, .head (hcollects.mpr ⟨rfl, takes_of_bank hbank (hbareg rfl)⟩) _⟩
    · have hmem : ∃ g ∈ families, g.1 = f := by simpa [hg] using hmem
      obtain ⟨bare, hfirst⟩ := ih hstems hmem hbare
      exact ⟨bare, .tail (fun h => hg (hcollects.mp h).1) hfirst⟩

/-- A line for one pattern whose stem is another one. -/
theorem not_collects_of_stem {c : Command} {g tail : String} (hc : c.patterns = ["." ++ g ++ tail])
    (hg : Stem g) (htail : Tail tail.toList) (hne : g ≠ f) : ¬ c.Collects ("." ++ f ++ rest) := by
  rintro ⟨pattern, hpattern, h⟩
  rw [hc, List.mem_singleton] at hpattern
  subst hpattern
  exact hne ((globMatches_stem_iff hf hg htail (separated_of_bank hbank)).mp h).1

end Section

end FirmwareKit.Script
