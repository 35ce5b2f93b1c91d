import FirmwareKit.Proofs.Script.Constants
import FirmwareKit.Proofs.Text.Legible
set_option autoImplicit false

/-!
# Bands that can be read off

The bounds of the ROM, the kind of far text, the constants and the regions of a window can be read
off the text of the bands that show them.
-/
namespace FirmwareKit.Script
open Text

def chars (cs : List Command) : List Char := (render cs).toList

@[simp] theorem chars_append (xs ys : List Command) : chars (xs ++ ys) = chars xs ++ chars ys := by
  rw [chars, render_append, String.toList_append, chars, chars]

@[simp] theorem chars_cons (c : Command) (cs : List Command) :
    chars (c :: cs) = c.render.toList ++ chars cs := by
  simp [chars, render, String.join_cons]

@[simp] theorem chars_nil : chars [] = [] := rfl

theorem chars_flatMap {α : Type} (f : α → List Command) (xs : List α) :
    chars (xs.flatMap f) = xs.flatMap fun x => chars (f x) := by
  induction xs with
  | nil => rfl
  | cons x xs ih => rw [List.flatMap_cons, chars_append, ih, List.flatMap_cons]

theorem moveTo_toList (n : Int) :
    (moveTo 1 n).render.toList = "    . = ".toList ++ (integer n ++ ';' :: ['\n']) := by
  change (assignment 1 "." (String.ofList (integer n))).toList = _
  rw [assignment_eq, indent_one]
  simp

theorem markHere_toList (symbol : String) :
    (markHere symbol).render.toList = "    ".toList ++ symbol.toList ++ " = .;\n".toList := by
  change (assignment 1 symbol ".").toList = _
  rw [assignment_eq, indent_one]
  simp

theorem header_start (h : Header) :
    ∃ rest, h.render.toList = h.name.render.toList ++ ' ' :: rest := by
  simp only [Header.render, String.append_assoc, String.toList_append]
  exact ⟨_, rfl⟩

/-- A section begins with its name, after the blanks that indent it. -/
theorem opening_toList (header : Header) :
    ∃ rest, (Command.openSection header).render.toList =
      "    ".toList ++ (header.name.render.toList ++ ' ' :: rest) := by
  obtain ⟨behind, hbehind⟩ := header_start header
  have hne : header.render ≠ "" := by
    intro hempty
    rw [hempty] at hbehind
    simp at hbehind
  refine ⟨behind ++ '\n' :: (line 1 "\x7b").toList, ?_⟩
  change (line 1 header.render ++ line 1 "\x7b").toList = _
  rw [String.toList_append, line_eq 1 hne, indent_one, String.toList_append, String.toList_append,
    hbehind]
  simp

theorem moveTo_legible : Legible (fun _ : Int => True) fun n => (moveTo 1 n).render.toList := by
  simp only [moveTo_toList]
  exact Legible.integer (by decide) rfl _ _

theorem not_mem_identifier {name : String} (h : Memory.Identifier name) {c : Char}
    (hc : Memory.isIdentifierRest c = false) : c ∉ name.toList := by
  intro hmem
  rw [h.all_rest c hmem] at hc
  cases hc

/-! A region is read off its start, its name and the address behind its end. -/

theorem legible_around (before after : List Command) :
    Legible (fun _ : Int => True) fun n => chars (before ++ moveTo 1 n :: after) := by
  intro m n _ _ s t h
  simp only [chars_append, chars_cons, List.append_assoc, List.append_cancel_left_eq] at h
  obtain ⟨rfl, hrest⟩ := moveTo_legible m n trivial trivial _ _ h
  exact ⟨rfl, List.append_cancel_left hrest⟩

theorem region_ext {r r' : Region} (hname : r.name = r'.name) (hstart : r.start = r'.start)
    (hlast : r.last + 1 = r'.last + 1) : r = r' := by
  cases r
  cases r'
  simp_all

theorem heapBody_around : ∃ before after, ∀ r,
    heapBody r = before ++ moveTo 1 (r.last + 1) :: after :=
  ⟨(heapBody default).take 23, [zeroAlias "__eheap", markHere "__eheap"], fun _ => rfl⟩

theorem heapBody_start (r : Region) :
    ∃ rest, chars (heapBody r) =
      "    __s".toList ++ ("heap".toList ++ ' ' :: ("= .;\n\n".toList ++ rest)) := by
  obtain ⟨tail, htail⟩ : ∃ tail, heapBody r = markHere "__sheap" :: .blank :: tail := ⟨_, rfl⟩
  refine ⟨chars tail, ?_⟩
  rw [htail, chars_cons, chars_cons, markHere_toList]
  simp [Command.render]

theorem regionBody_start (r : Region) :
    ∃ rest, chars (regionBody r) =
      "    __s".toList ++ (r.name.toList ++ ' ' :: ("= .;\n ".toList ++ rest)) := by
  let head : Header := ⟨.plain ("." ++ r.name), .here, false, none⟩
  obtain ⟨tail, htail⟩ : ∃ tail,
      regionBody r = markHere ("__s" ++ r.name) :: .openSection head :: tail := ⟨_, rfl⟩
  obtain ⟨behind, hopening⟩ := opening_toList head
  refine ⟨"   ".toList ++ (head.name.render.toList ++ ' ' :: behind) ++ chars tail, ?_⟩
  rw [htail, chars_cons, chars_cons, markHere_toList, hopening]
  simp

theorem regionBody_around (name : String) : ∃ before after, ∀ start last,
    regionBody ⟨name, start, last⟩ = before ++ moveTo 1 (last + 1) :: after :=
  ⟨(regionBody ⟨name, 0, 0⟩).take 9, [markHere ("__e" ++ name)], fun _ _ => rfl⟩

theorem regionBody_named {r r' : Region} (h : Memory.Identifier r.name)
    (h' : Memory.Identifier r'.name) {s t : List Char}
    (heq : chars (regionBody r) ++ s = chars (regionBody r') ++ t) : r.name = r'.name := by
  obtain ⟨rest, hr⟩ := regionBody_start r
  obtain ⟨rest', hr'⟩ := regionBody_start r'
  rw [hr, hr'] at heq
  simp only [List.append_assoc, List.cons_append, List.append_cancel_left_eq] at heq
  obtain ⟨hname, _⟩ := append_cons_inj (not_mem_identifier h rfl) (not_mem_identifier h' rfl) heq
  exact String.toList_inj.mp hname

theorem heapBody_ne_regionBody (r : Region) {r' : Region} (h : Memory.Identifier r'.name)
    (s t : List Char) : chars (heapBody r) ++ s ≠ chars (regionBody r') ++ t := by
  intro heq
  obtain ⟨rest, hr⟩ := heapBody_start r
  obtain ⟨rest', hr'⟩ := regionBody_start r'
  rw [hr, hr'] at heq
  simp only [List.append_assoc, List.cons_append, List.append_cancel_left_eq] at heq
  obtain ⟨_, hbehind⟩ := append_cons_inj (by decide) (not_mem_identifier h rfl) heq
  simp at hbehind

theorem placedRegion_legible :
    Legible (fun r : Region => Memory.Identifier r.name) fun r => chars (placedRegion r) := by
  intro r r' hname hname' s t h
  simp only [placedRegion, chars_append, chars_cons, chars_nil, List.append_assoc, List.nil_append,
    List.append_cancel_left_eq] at h
  obtain ⟨hstart, h⟩ := moveTo_legible r.start r'.start trivial trivial _ _ h
  -- the line behind the first tells the heap from a region of the name heap
  cases hheap : r.isHeap <;> cases hheap' : r'.isHeap <;>
    simp only [hheap, hheap', if_true, Bool.false_eq_true, if_false] at h
  · have hname := regionBody_named hname hname' h
    obtain ⟨before, after, haround⟩ := regionBody_around r.name
    have hr : regionBody r = before ++ moveTo 1 (r.last + 1) :: after := haround r.start r.last
    have hr' : regionBody r' = before ++ moveTo 1 (r'.last + 1) :: after := by
      rw [← haround r'.start r'.last, hname]
    rw [hr, hr'] at h
    obtain ⟨hlast, hrest⟩ := legible_around before after _ _ trivial trivial _ _ h
    exact ⟨region_ext hname hstart hlast, hrest⟩
  · exact absurd h.symm (heapBody_ne_regionBody r' hname t s)
  · exact absurd h (heapBody_ne_regionBody r hname' s t)
  · obtain ⟨before, after, haround⟩ := heapBody_around
    rw [haround r, haround r'] at h
    obtain ⟨hlast, hrest⟩ := legible_around before after _ _ trivial trivial _ _ h
    have hnames : r.name = Memory.heapName ∧ r'.name = Memory.heapName :=
      ⟨beq_iff_eq.mp hheap, beq_iff_eq.mp hheap'⟩
    exact ⟨region_ext (hnames.1.trans hnames.2.symm) hstart hlast, hrest⟩

/-! A constant is read off its shadow name, which ends in a quotation mark, and its value. -/

theorem exportText_toList (c : String × Int) :
    (exportText c).toList =
      ("\n    \"".toList ++ ((c.1 ++ "!").toList ++ '"' :: " = 0;\n    \"".toList)) ++
        ((c.1 ++ "\" = ABSOLUTE(").toList ++ (integer c.2 ++ ')' :: ";\n".toList)) := by
  simp [exportText]

theorem exportText_legible :
    Legible (fun c : String × Int => '"' ∉ c.1.toList) fun c => (exportText c).toList := by
  have hname : Legible (fun name : String => '"' ∉ name.toList) fun name =>
      "\n    \"".toList ++ ((name ++ "!").toList ++ '"' :: " = 0;\n    \"".toList) := by
    refine Legible.field _ _ ?_ ?_
    · intro name h
      simpa using h
    · intro name name' _ _ h
      simpa [String.toList_inj] using h
  have hvalue (name : String) := Legible.integer (c := ')') (by decide) rfl
    (name ++ "\" = ABSOLUTE(").toList ";\n".toList
  intro c d hc hd s t h
  simp only [exportText_toList] at h
  exact (hname.append fun name _ => hvalue name) c d ⟨hc, trivial⟩ ⟨hd, trivial⟩ s t h

theorem mirror_start (farText : Bool) (romStart : Value) :
    ∃ rest, chars (.blank :: textBand farText romStart .mirror) =
      "\n    \"".toList ++ (".text&".toList ++ '"' :: rest) := by
  let head : Header := ⟨.tagged .mirror ".text", .here, false, none⟩
  obtain ⟨tail, htail⟩ : ∃ tail,
      textBand farText romStart .mirror = .openSection head :: tail := ⟨_, rfl⟩
  have hname : head.name.render.toList = '"' :: (".text&".toList ++ ['"']) := by decide
  obtain ⟨behind, hopening⟩ := opening_toList head
  refine ⟨' ' :: behind ++ chars tail, ?_⟩
  rw [htail, chars_cons, chars_cons, hopening, hname]
  simp [Command.render]

/-- The mirror band does not begin like a constant, whose shadow name ends in `!`. -/
theorem exportText_not_prefix {c : String × Int} (hc : '"' ∉ c.1.toList) (farText : Bool)
    (romStart : Value) (rest : List Char) :
    ¬ (exportText c).toList <+: chars (.blank :: textBand farText romStart .mirror) ++ rest := by
  rintro ⟨tail, htail⟩
  obtain ⟨behind, hmirror⟩ := mirror_start farText romStart
  rw [hmirror, exportText_toList] at htail
  simp only [List.append_assoc, List.cons_append, List.append_cancel_left_eq] at htail
  obtain ⟨hname, _⟩ := append_cons_inj (by simpa using hc) (by decide) htail
  have hlast := congrArg List.getLast? hname
  simp at hlast

/-! The kind of far text shows in the line behind the code of the shadow band. -/

theorem farText_inj {farText farText' : Bool} {romStart : Value} {s t : List Char}
    (h : chars (textBand farText romStart .shadow) ++ s =
      chars (textBand farText' romStart .shadow) ++ t) : farText = farText' := by
  have hdiffer (s t : List Char) : chars (textBand true romStart .shadow) ++ s ≠
      chars (textBand false romStart .shadow) ++ t := by
    intro h
    simp only [textBand, chars_append, List.append_assoc, List.append_cancel_left_eq, if_true,
      Bool.false_eq_true, if_false, farFamilies, List.map_cons, chars_cons, chars_nil,
      List.nil_append] at h
    have hmark : (mark 2 .shadow "__etext").render.toList =
        "        \"".toList ++ "__etext!\" = .;\n".toList := by decide
    have hfamily : (Command.input 2 (family .shadow "fartext" false)).render.toList =
        "        *".toList ++ "(\".fartext!*\" \".fartext.*!\")\n".toList := by decide
    rw [hmark, hfamily] at h
    simp at h
  cases farText <;> cases farText'
  · rfl
  · exact absurd h.symm (hdiffer t s)
  · exact absurd h (hdiffer s t)
  · rfl

/-! The bounds of the ROM stand in the list of the memories. -/

/-- An integer, or a truth value in its place. -/
def Integral (v : Value) : Prop := (∃ n, v = .int n) ∨ ∃ b, v = .bool b

theorem bool_display (b : Bool) :
    (Value.bool b).display.toList = if b then "True".toList else "False".toList := by
  cases b <;> rfl

theorem bool_letters (b : Bool) : ∀ c ∈ (Value.bool b).display.toList, c.isAlpha = true := by
  rw [bool_display]
  cases b <;> simp

theorem Integral.display_plain {v : Value} (h : Integral v) {c : Char} (hsign : c ≠ '-')
    (halpha : c.isAlpha = false) (hdigit : c.isDigit = false) : c ∉ v.display.toList := by
  rcases h with ⟨n, rfl⟩ | ⟨b, rfl⟩
  · change c ∉ (String.ofList (integer n)).toList
    rw [String.toList_ofList]
    exact not_mem_integer hsign hdigit
  · intro hmem
    rw [bool_letters b c hmem] at halpha
    cases halpha

/-- A truth value is written in letters, an integer without any. -/
theorem integer_ne_bool (n : Int) (b : Bool) :
    (Value.int n).display.toList ≠ (Value.bool b).display.toList := by
  intro h
  have hint : (Value.int n).display.toList = integer n := String.toList_ofList
  have hletter : 'e' ∈ (Value.bool b).display.toList := by
    rw [bool_display]
    cases b <;> simp
  rw [← h, hint] at hletter
  exact not_mem_integer (by decide) rfl hletter

theorem Integral.display_inj {v w : Value} (hv : Integral v) (hw : Integral w)
    (h : v.display.toList = w.display.toList) : v = w := by
  rcases hv with ⟨m, rfl⟩ | ⟨a, rfl⟩ <;> rcases hw with ⟨n, rfl⟩ | ⟨b, rfl⟩
  · change (String.ofList (integer m)).toList = (String.ofList (integer n)).toList at h
    rw [String.toList_ofList, String.toList_ofList] at h
    rw [integer_injective h]
  · exact absurd h (integer_ne_bool m b)
  · exact absurd h.symm (integer_ne_bool n a)
  · have hsame : a = b := by
      revert h
      cases a <;> cases b <;> decide
    rw [hsame]

theorem memory_toList (name attributes : String) (origin length : Value) :
    (Command.memory name attributes origin length).render.toList =
      ("    " ++ name ++ " (" ++ attributes ++ ") : ORIGIN = ").toList ++
        (origin.display.toList ++ ',' :: (" LENGTH = ".toList ++
          (length.display.toList ++ '\n' :: []))) := by
  change (line 1 (name ++ " (" ++ attributes ++ ") : ORIGIN = " ++ origin.display
    ++ ", LENGTH = " ++ length.display)).toList = _
  rw [line_eq 1 (by simp), indent_one]
  simp

theorem memory_inj (name attributes : String) {origin length origin' length' : Value}
    (ho : Integral origin) (hl : Integral length) (ho' : Integral origin')
    (hl' : Integral length') {s t : List Char}
    (h : (Command.memory name attributes origin length).render.toList ++ s =
      (Command.memory name attributes origin' length').render.toList ++ t) :
    origin = origin' ∧ length = length' ∧ s = t := by
  rw [memory_toList, memory_toList] at h
  simp only [List.append_assoc, List.cons_append, List.nil_append,
    List.append_cancel_left_eq] at h
  obtain ⟨horigin, h⟩ := append_cons_inj (ho.display_plain (by decide) rfl rfl)
    (ho'.display_plain (by decide) rfl rfl) h
  obtain ⟨hlength, hrest⟩ := append_cons_inj (hl.display_plain (by decide) rfl rfl)
    (hl'.display_plain (by decide) rfl rfl) (List.append_cancel_left h)
  exact ⟨ho.display_inj ho' horigin, hl.display_inj hl' hlength, hrest⟩

/-! The regions of a window stand behind its shadow band, whose only closing brace ends it. -/

theorem not_mem_chars {c : Char} {cs : List Command} (h : ∀ d ∈ cs, c ∉ d.render.toList) :
    c ∉ chars cs := by
  induction cs with
  | nil => simp
  | cons d cs ih =>
    obtain ⟨hd, hcs⟩ := List.forall_mem_cons.mp h
    rw [chars_cons, List.mem_append]
    exact fun hmem => hmem.elim hd (ih hcs)

def shadowBody (rs : List Region) : List Command :=
  rs.map (fun r => mark 2 .shadow ("__s" ++ symbolStem r))
    ++ rs.flatMap (fun r => (regionFamilies r).map (collect 2 .shadow))
    ++ rs.map fun r => mark 2 .shadow ("__e" ++ symbolStem r)

theorem markerBand_shadow (chainHead : String) (w : Window) :
    markerBand chainHead w .shadow =
      [Command.blank, Command.openSection (markerHeader chainHead w .shadow)]
        ++ shadowBody w.regions ++ [Command.closeSection (some (Text.upper w.name))] := by
  simp only [markerBand, shadowBody, if_true, List.append_assoc]

theorem mark_braces {symbol : String} (h : '\x7d' ∉ symbol.toList) :
    '\x7d' ∉ (mark 2 .shadow symbol).render.toList := by
  change '\x7d' ∉ (assignment 2 ("\"" ++ (symbol ++ "!") ++ "\"") ".").toList
  rw [assignment_eq, indent_two]
  simp [h]

theorem collect_braces {name : String} (h : '\x7d' ∉ name.toList) :
    '\x7d' ∉ (collect 2 .shadow name).render.toList := by
  have hne : (family .shadow name true).render ≠ "" := by simp [family, Input.render]
  change '\x7d' ∉ (line 2 (family .shadow name true).render).toList
  rw [line_eq 2 hne, indent_two]
  simp [family, Input.render, familyPatterns, Name.inQuotes, Name.render, BankTag.suffix, h]

theorem shadowBody_braces {rs : List Region} (h : ∀ r ∈ rs, Memory.Identifier r.name) :
    '\x7d' ∉ chars (shadowBody rs) := by
  have hname : ∀ r ∈ rs, '\x7d' ∉ r.name.toList := fun r hr => not_mem_identifier (h r hr) rfl
  have hstem : ∀ r ∈ rs, '\x7d' ∉ (symbolStem r).toList := by
    intro r hr
    unfold symbolStem
    split
    · decide
    · exact hname r hr
  have hfamily : ∀ r ∈ rs, ∀ f ∈ regionFamilies r, '\x7d' ∉ f.toList := by
    intro r hr
    unfold regionFamilies
    split
    · decide
    · exact List.forall_mem_singleton.mpr (hname r hr)
  apply not_mem_chars
  simp only [shadowBody, List.forall_mem_append, List.forall_mem_map, List.forall_mem_flatMap]
  refine ⟨⟨?_, ?_⟩, ?_⟩
  · exact fun r hr => mark_braces (by simpa using hstem r hr)
  · exact fun r hr f hf => collect_braces (hfamily r hr f hf)
  · exact fun r hr => mark_braces (by simpa using hstem r hr)

theorem closing_toList (region : Option String) : ∃ rest,
    (Command.closeSection region).render.toList = "    ".toList ++ '\x7d' :: rest := by
  have hline (text : String) : (line 1 ("\x7d" ++ text)).toList =
      "    ".toList ++ '\x7d' :: (text.toList ++ ['\n']) := by
    rw [line_eq 1 (by simp), indent_one]
    simp
  cases region with
  | none => exact ⟨_, hline ""⟩
  | some r =>
    change ∃ rest, (line 1 (if r.isEmpty then "\x7d" else "\x7d >" ++ r)).toList = _
    split
    · exact ⟨_, hline ""⟩
    · exact ⟨_, hline (" >" ++ r)⟩

theorem shadow_cancel {chainHead name : String} {base : Int} {rs rs' : List Region}
    (h : ∀ r ∈ rs, Memory.Identifier r.name) (h' : ∀ r ∈ rs', Memory.Identifier r.name)
    {s t : List Char}
    (heq : chars (markerBand chainHead ⟨name, base, rs⟩ .shadow) ++ s =
      chars (markerBand chainHead ⟨name, base, rs'⟩ .shadow) ++ t) : s = t := by
  have hheader : markerHeader chainHead ⟨name, base, rs⟩ .shadow =
      markerHeader chainHead ⟨name, base, rs'⟩ .shadow := rfl
  obtain ⟨behind, hclosing⟩ := closing_toList (some (Text.upper name))
  simp only [markerBand_shadow, hheader, chars_append, chars_cons, chars_nil, List.append_nil,
    List.append_assoc, List.append_cancel_left_eq, hclosing] at heq
  have hbody {rs : List Region} (h : ∀ r ∈ rs, Memory.Identifier r.name) :
      '\x7d' ∉ chars (shadowBody rs) ++ "    ".toList := by
    simpa using shadowBody_braces h
  rw [← List.append_assoc, ← List.append_assoc (chars (shadowBody rs'))] at heq
  obtain ⟨_, hrest⟩ := append_cons_inj (hbody h) (hbody h') heq
  exact List.append_cancel_left hrest

theorem markerBand_start (chainHead : String) (w : Window) {tag : BankTag}
    (htag : tag ≠ .primary) :
    ∃ rest, chars (markerBand chainHead w tag) =
      '\n' :: (("    \"." ++ w.name ++ tag.suffix).toList ++ rest) := by
  obtain ⟨tail, htail⟩ : ∃ tail, markerBand chainHead w tag =
      .blank :: .openSection (markerHeader chainHead w tag) :: tail := ⟨_, rfl⟩
  have hname : (markerHeader chainHead w tag).name.render.toList =
      ("\"." ++ w.name ++ tag.suffix).toList ++ ['"'] := by
    cases tag with
    | primary => exact absurd rfl htag
    | shadow | mirror => simp [markerHeader, Name.tagged, Name.render, BankTag.suffix]
  obtain ⟨behind, hopening⟩ := opening_toList (markerHeader chainHead w tag)
  refine ⟨'"' :: ' ' :: behind ++ chars tail, ?_⟩
  rw [htail, chars_cons, chars_cons, hopening, hname]
  simp [Command.render]

theorem placedRegion_start (r : Region) :
    ∃ rest, chars (placedRegion r) = '\n' :: ("    . = ".toList ++ rest) := by
  obtain ⟨tail, htail⟩ : ∃ tail, placedRegion r = .blank :: moveTo 1 r.start :: tail := ⟨_, rfl⟩
  refine ⟨integer r.start ++ ';' :: ['\n'] ++ chars tail, ?_⟩
  rw [htail, chars_cons, chars_cons, moveTo_toList]
  simp [Command.render]

theorem regions_inj {chainHead name : String} {base : Int} {rs rs' : List Region}
    (h : ∀ r ∈ rs, Memory.Identifier r.name) (h' : ∀ r ∈ rs', Memory.Identifier r.name)
    {s t : List Char}
    (heq : chars (markerBand chainHead ⟨name, base, rs⟩ .shadow) ++
        (chars (rs.flatMap placedRegion) ++
          (chars (markerBand chainHead ⟨name, base, rs⟩ .mirror) ++ s)) =
      chars (markerBand chainHead ⟨name, base, rs'⟩ .shadow) ++
        (chars (rs'.flatMap placedRegion) ++
          (chars (markerBand chainHead ⟨name, base, rs'⟩ .mirror) ++ t))) : rs = rs' := by
  have hstop (rs : List Region) (rest : List Char) (r : Region) : ¬ chars (placedRegion r) <+:
      chars (markerBand chainHead ⟨name, base, rs⟩ .mirror) ++ rest := by
    rintro ⟨tail, htail⟩
    obtain ⟨behind, hplaced⟩ := placedRegion_start r
    obtain ⟨behind', hmirror⟩ := markerBand_start chainHead ⟨name, base, rs⟩
      (show BankTag.mirror ≠ .primary by decide)
    rw [hplaced, hmirror] at htail
    simp at htail
  simp only [chars_flatMap] at heq
  exact (placedRegion_legible.flatMap h h' (fun r _ => hstop rs s r) (fun r _ => hstop rs' t r)
    (shadow_cancel h h' heq)).1

theorem chars_window_nil (chainHead name : String) (base : Int) :
    chars (window chainHead ⟨name, base, []⟩) =
      chars [.comment (Text.upper name)] ++ ['\n'] := by
  simp [window, Command.render]

theorem chars_window_cons (chainHead name : String) (base : Int) (r : Region) (rs : List Region) :
    chars (window chainHead ⟨name, base, r :: rs⟩) = chars [.comment (Text.upper name)] ++
      (chars (markerBand chainHead ⟨name, base, r :: rs⟩ .shadow) ++
        (chars ((r :: rs).flatMap placedRegion) ++
          (chars (markerBand chainHead ⟨name, base, r :: rs⟩ .mirror) ++
            (chars (endMarker ("e" ++ name) (.int 2)) ++ chars [.blank])))) := by
  simp only [window, List.isEmpty_cons, Bool.false_eq_true, if_false, windowMarker, chars_append,
    List.append_assoc]

/-- A window without regions is not taken for one with regions, as its name does not follow. -/
theorem window_inj {chainHead name : String} {base : Int} {rs rs' : List Region}
    (h : ∀ r ∈ rs, Memory.Identifier r.name) (h' : ∀ r ∈ rs', Memory.Identifier r.name)
    {s t : List Char} (hs : ¬ ("    \"." ++ name ++ "!").toList <+: s)
    (ht : ¬ ("    \"." ++ name ++ "!").toList <+: t)
    (heq : chars (window chainHead ⟨name, base, rs⟩) ++ s =
      chars (window chainHead ⟨name, base, rs'⟩) ++ t) : rs = rs' ∧ s = t := by
  have hempty (r : Region) (rs : List Region) {s t : List Char}
      (hs : ¬ ("    \"." ++ name ++ "!").toList <+: s) :
      chars (window chainHead ⟨name, base, []⟩) ++ s ≠
        chars (window chainHead ⟨name, base, r :: rs⟩) ++ t := by
    intro heq
    obtain ⟨behind, hshadow⟩ := markerBand_start chainHead ⟨name, base, r :: rs⟩
      (show BankTag.shadow ≠ .primary by decide)
    rw [chars_window_nil, chars_window_cons, hshadow] at heq
    simp only [List.append_assoc, List.append_cancel_left_eq, List.cons_append, List.nil_append,
      List.cons.injEq, true_and] at heq
    rw [heq] at hs
    exact hs (List.prefix_append _ _)
  have hregions : rs = rs' := by
    cases rs with
    | nil =>
      cases rs' with
      | nil => rfl
      | cons r' rs' => exact absurd heq (hempty r' rs' hs)
    | cons r rs =>
      cases rs' with
      | nil => exact absurd heq.symm (hempty r rs ht)
      | cons r' rs' =>
        simp only [chars_window_cons, List.append_assoc, List.append_cancel_left_eq] at heq
        exact regions_inj h h' heq
  subst hregions
  exact ⟨rfl, List.append_cancel_left heq⟩

end FirmwareKit.Script
