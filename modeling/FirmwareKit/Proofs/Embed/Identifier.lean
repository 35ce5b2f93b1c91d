import FirmwareKit.Files.Reference
set_option autoImplicit false

namespace FirmwareKit.Embed

/-- The characters of names in C, all of them among the first 128. -/
def Allowed (c : Char) : Prop :=
  ('A' ≤ c ∧ c ≤ 'Z') ∨ ('a' ≤ c ∧ c ≤ 'z') ∨ ('0' ≤ c ∧ c ≤ '9') ∨ c = '_'

def Digit (c : Char) : Prop := '0' ≤ c ∧ c ≤ '9'

instance : DecidablePred Allowed := fun c =>
  inferInstanceAs (Decidable (('A' ≤ c ∧ c ≤ 'Z') ∨ ('a' ≤ c ∧ c ≤ 'z') ∨ ('0' ≤ c ∧ c ≤ '9') ∨
    c = '_'))

instance : DecidablePred Digit := fun c => inferInstanceAs (Decidable ('0' ≤ c ∧ c ≤ '9'))

def Identifier (s : String) : Prop :=
  ∃ c rest, s.toList = c :: rest ∧ ¬ Digit c ∧ Allowed c ∧ ∀ d ∈ rest, Allowed d

theorem isDigit_iff (c : Char) : c.isDigit = true ↔ Digit c := by
  have hclass : c.isDigit = (decide ('0' ≤ c) && decide (c ≤ '9')) := rfl
  rw [hclass, Bool.and_eq_true, decide_eq_true_iff, decide_eq_true_iff, Digit]

theorem isIdentifierChar_iff (c : Char) : isIdentifierChar c = true ↔ Allowed c := by
  have hclasses : isIdentifierChar c = (decide ('A' ≤ c ∧ c ≤ 'Z') ||
      (decide ('a' ≤ c) && decide (c ≤ 'z')) || c.isDigit || c == '_') := rfl
  rw [hclasses]
  simp only [Bool.or_eq_true, Bool.and_eq_true, decide_eq_true_iff, isDigit_iff, beq_iff_eq, Allowed,
    Digit, or_assoc]

theorem toIdentifierChar_eq (c : Char) : toIdentifierChar c = if Allowed c then c else '_' := by
  simp only [toIdentifierChar, isIdentifierChar_iff]

theorem allowed_toIdentifierChar (c : Char) : Allowed (toIdentifierChar c) := by
  rw [toIdentifierChar_eq]
  split
  case isTrue h => exact h
  case isFalse => decide

/-- Only a digit becomes one. -/
theorem digit_toIdentifierChar (c : Char) : Digit (toIdentifierChar c) ↔ Digit c := by
  rw [toIdentifierChar_eq]
  split
  case isTrue => exact Iff.rfl
  case isFalse h =>
    exact ⟨fun hmark => absurd hmark (by decide), fun hc => absurd (.inr (.inr (.inl hc))) h⟩

theorem map_toIdentifierChar_of_allowed {cs : List Char} (h : ∀ c ∈ cs, Allowed c) :
    cs.map toIdentifierChar = cs := by
  have hkept : ∀ c ∈ cs, toIdentifierChar c = id c := fun c hc => by
    rw [toIdentifierChar_eq, if_pos (h c hc), id]
  rw [List.map_congr_left hkept, List.map_id]

def NeedsMark : List Char → Prop
  | [] => True
  | c :: _ => Digit c

instance : DecidablePred NeedsMark
  | [] => .isTrue trivial
  | c :: _ => inferInstanceAs (Decidable (Digit c))

theorem toIdentifier_toList (s : String) :
    (toIdentifier s).toList =
      (if NeedsMark s.toList then ['_'] else []) ++ s.toList.map toIdentifierChar := by
  rw [toIdentifier, String.toList_ofList, identifierChars]
  cases s.toList with
  | nil => rfl
  | cons c rest =>
    simp only [List.map_cons, isDigit_iff, digit_toIdentifierChar, NeedsMark]
    by_cases hc : Digit c <;> simp [hc]

theorem identifier_toIdentifier (s : String) : Identifier (toIdentifier s) := by
  have hall : ∀ c ∈ s.toList.map toIdentifierChar, Allowed c :=
    List.forall_mem_map.mpr fun c _ => allowed_toIdentifierChar c
  have htext := toIdentifier_toList s
  cases hs : s.toList with
  | nil =>
    rw [hs] at htext
    exact ⟨'_', [], htext, by decide, by decide, nofun⟩
  | cons c rest =>
    rw [hs] at htext hall
    by_cases hc : Digit c
    · rw [if_pos (show NeedsMark (c :: rest) from hc)] at htext
      exact ⟨'_', _, htext, by decide, by decide, hall⟩
    · rw [if_neg (show ¬ NeedsMark (c :: rest) from hc)] at htext
      obtain ⟨hfirst, hrest⟩ := List.forall_mem_cons.mp hall
      exact ⟨_, _, htext, mt (digit_toIdentifierChar c).mp hc, hfirst, hrest⟩

theorem toIdentifier_of_identifier {s : String} (h : Identifier s) : toIdentifier s = s := by
  obtain ⟨c, rest, hs, hdigit, hfirst, hrest⟩ := h
  refine String.toList_inj.mp ?_
  rw [toIdentifier_toList, hs, if_neg (show ¬ NeedsMark (c :: rest) from hdigit), List.nil_append,
    map_toIdentifierChar_of_allowed (List.forall_mem_cons.mpr ⟨hfirst, hrest⟩)]

theorem Identifier.append {lead s : String} (hlead : Identifier lead) (h : Identifier s) :
    Identifier (lead ++ s) := by
  obtain ⟨c, rest, hc, hdigit, hfirst, hrest⟩ := hlead
  obtain ⟨d, more, hd, _, hd', hmore⟩ := h
  refine ⟨c, rest ++ d :: more, by rw [String.toList_append, hc, hd]; rfl, hdigit, hfirst, ?_⟩
  exact List.forall_mem_append.mpr ⟨hrest, List.forall_mem_cons.mpr ⟨hd', hmore⟩⟩

/-- The symbol of any path is an identifier, with a lead or without. Of a text just the characters
that C does not allow become underscores, and one more stands in front of a digit or of nothing; so
an identifier is kept, also one that has been made. -/
theorem symbol_identifier (path lead text : String) (h : lead = "" ∨ Identifier lead) :
    (∃ s, (Reference.ofValue (.text path) >>= fun r => r.symbol lead) = .ok s ∧ Identifier s) ∧
      (toIdentifier text).toList = (if NeedsMark text.toList then ['_'] else []) ++
        text.toList.map (fun c => if Allowed c then c else '_') ∧
      toIdentifier (toIdentifier text) = toIdentifier text ∧
      (Identifier text → toIdentifier text = text) := by
  refine ⟨⟨_, rfl, ?_⟩, ?_, toIdentifier_of_identifier (identifier_toIdentifier text),
    toIdentifier_of_identifier⟩
  · rcases h with rfl | h
    · rw [String.empty_append]
      exact identifier_toIdentifier _
    · exact h.append (identifier_toIdentifier _)
  · rw [toIdentifier_toList, funext toIdentifierChar_eq]

theorem symbol_identifier_levels :
    Identifier "gfx_" ∧
      (Reference.ofValue (.text "maps/2nd level.v3.bin") >>= fun r => r.symbol "gfx_") =
        .ok "gfx__2nd_level_v3" ∧
      Identifier "gfx__2nd_level_v3" ∧ toIdentifier "x_2" = "x_2" := by
  have hlead : Identifier "gfx_" := by
    refine ⟨'g', ['f', 'x', '_'], rfl, by decide, by decide, ?_⟩
    rw [List.forall_mem_cons, List.forall_mem_cons, List.forall_mem_singleton]
    decide
  have hkept : Identifier "x_2" := by
    refine ⟨'x', ['_', '2'], rfl, by decide, by decide, ?_⟩
    rw [List.forall_mem_cons, List.forall_mem_singleton]
    decide
  have hsymbol : (Reference.ofValue (.text "maps/2nd level.v3.bin") >>= fun r => r.symbol "gfx_") =
      .ok "gfx__2nd_level_v3" := by rfl
  obtain ⟨⟨s, hs, hname⟩, -, -, hsame⟩ :=
    symbol_identifier "maps/2nd level.v3.bin" "gfx_" "x_2" (.inr hlead)
  rw [hsymbol] at hs
  cases hs
  exact ⟨hlead, hsymbol, hname, hsame hkept⟩

end FirmwareKit.Embed
