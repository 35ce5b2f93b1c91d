import FirmwareKit.Proofs.Memory.Rule
import FirmwareKit.Proofs.Script.Addresses
set_option autoImplicit false

namespace FirmwareKit.Script
open Text

def Solid (name : String) : Prop :=
  '\n' ∉ name.toList ∧ ∃ c rest, name.toList = c :: rest ∧ c ≠ ' '

theorem solid_of_identifier {name : String} (h : Memory.Identifier name) : Solid name := by
  obtain ⟨c, rest, hname, hc, hrest⟩ := h
  refine ⟨?_, c, rest, hname, ?_⟩
  · rw [hname, List.mem_cons]
    rintro (rfl | hmem)
    · simp at hc
    · have := hrest _ hmem
      simp at this
  · rintro rfl
    simp at hc

def Symbolic (symbol : String) : Prop :=
  '\n' ∉ symbol.toList ∧ symbol.toList.head? = some '_'

instance (symbol : String) : Decidable (Symbolic symbol) := inferInstanceAs (Decidable (_ ∧ _))

theorem define_quiet (level : Nat) {name : Name} {value : Expr} (hname : Symbolic name.text)
    (hvalue : '\n' ∉ value.render.toList) : (define level name value).Quiet := by
  obtain ⟨hend, hhead⟩ := hname
  obtain ⟨rest, hrest⟩ := List.head?_eq_some_iff.mp hhead
  have hname : name.render.toList = if name.quoted then '"' :: (name.text.toList ++ ['"'])
      else name.text.toList := by
    cases hq : name.quoted <;> simp [Name.render, hq]
  have hp : Plain (name.render ++ " = " ++ value.render ++ ";") := by
    refine ⟨?_, ?_, ?_⟩
    · cases hq : name.quoted <;> simp [hname, hq, hend, hvalue]
    · cases hq : name.quoted <;> simp [hname, hq, hrest]
    · cases hq : name.quoted <;> simp [loudStarts, hname, hq, hrest]
  exact hp.line_quiet rfl

theorem mark_quiet (level : Nat) (tag : BankTag) {symbol : String} (h : Symbolic symbol) :
    (mark level tag symbol).Quiet := by
  have htagged : Symbolic (Name.tagged tag symbol).text := by
    cases tag <;> simp [Symbolic, Name.tagged, BankTag.suffix, h.1, h.2]
  exact define_quiet level htagged (by decide)

theorem zeroAlias_quiet {symbol : String} (h : Symbolic symbol) : (zeroAlias symbol).Quiet := by
  have htagged : Symbolic (Name.tagged .shadow symbol).text := by
    simp [Symbolic, Name.tagged, BankTag.suffix, h.1, h.2]
  exact define_quiet 1 htagged (by decide)

theorem markHere_quiet {symbol : String} (h : Symbolic symbol) : (markHere symbol).Quiet := by
  have hplain : Symbolic (Name.plain symbol).text := h
  exact define_quiet 1 hplain (by decide)

theorem lengths_quiet {name sectionName : String} (hname : '\n' ∉ name.toList)
    (hsection : '\n' ∉ sectionName.toList) : ∀ c ∈ lengths name sectionName, c.Quiet := by
  have hbytes : Symbolic ("__l" ++ name) := by simp [Symbolic, hname]
  have hwords : Symbolic ("__lw" ++ name) := by simp [Symbolic, hname]
  have hsize : '\n' ∉ (Expr.sizeOf sectionName).render.toList := by simp [Expr.render, hsection]
  have hhalf : '\n' ∉ (Expr.words ("__l" ++ name)).render.toList := by simp [Expr.render, hname]
  simp only [lengths, List.forall_mem_cons]
  exact ⟨zeroAlias_quiet hbytes, define_quiet 1 hbytes hsize, zeroAlias_quiet hwords,
    define_quiet 1 hwords hhalf, by simp⟩

theorem collect_quiet (level : Nat) (tag : BankTag) {name : String} (h : '\n' ∉ name.toList) :
    (collect level tag name).Quiet := by
  have hp : Plain (family tag name true).render := by
    refine ⟨?_, ?_, ?_⟩
    · cases tag <;> simp [family, Input.render, familyPatterns, Name.inQuotes, Name.plain,
        Name.render, BankTag.suffix, h]
    · simp [family, Input.render]
    · simp [loudStarts, family, Input.render]
  exact hp.line_quiet rfl

theorem bareSection_quiet {name : String} (h : Solid name) :
    (Command.openSection ⟨.plain ("." ++ name), .here, false, none⟩).Quiet := by
  obtain ⟨hend, c, rest, hname, hc⟩ := h
  have hrender : (Header.render ⟨.plain ("." ++ name), .here, false, none⟩).toList =
      '.' :: (name.toList ++ " . (NOLOAD) :".toList) := by
    simp [Header.render, Name.plain, Name.render, Address.render]
  have hp : Plain (Header.render ⟨.plain ("." ++ name), .here, false, none⟩) := by
    refine ⟨?_, ?_, ?_⟩
    · simp [hrender, hend]
    · simp [hrender]
    · simp [loudStarts, hrender, hname, Ne.symm hc]
  exact hp.opening_quiet

theorem endMarker_quiet {key : String} (h : Solid key) :
    ∀ c ∈ endMarker key (.int 2), c.Quiet := by
  have hend := h.1
  have hmark : ∀ tag ∈ (Labelled.members : List BankTag),
      (define 2 (.inQuotes ("__" ++ key ++ tag.suffix)) .here).Quiet := by
    intro tag _
    have hname : Symbolic (Name.inQuotes ("__" ++ key ++ tag.suffix)).text := by
      cases tag <;> simp [Symbolic, Name.inQuotes, BankTag.suffix, hend]
    exact define_quiet 2 hname (by decide)
  simp only [endMarker, List.forall_mem_append, List.forall_mem_cons, List.forall_mem_map]
  exact ⟨⟨⟨by decide, bareSection_quiet h, by decide, by simp⟩, hmark⟩, by decide, by decide,
    by simp⟩

theorem debugSection_quiet {name : String} {extra : List String} {c : Char} {rest : List Char}
    (hname : name.toList = '.' :: c :: rest) (hc : c = 'd' ∨ c = 'l')
    (hend : ∀ p ∈ name :: extra, '\n' ∉ p.toList) : ∀ d ∈ debugSection name extra, d.Quiet := by
  have hnameEnd : '\n' ∉ name.toList := hend name List.mem_cons_self
  have hpatterns : '\n' ∉ (" ".intercalate (name :: extra)).toList :=
    not_mem_intercalate (by decide) hend
  have halias : Plain ((Name.tagged .shadow name).render ++ " = " ++ "0" ++ ";") := by
    have hrender : (Name.tagged .shadow name).render.toList =
        '"' :: (name.toList ++ ['!', '"']) := by
      simp [Name.tagged, Name.render, BankTag.suffix]
    refine ⟨?_, ?_, ?_⟩
    · simp [hrender, hnameEnd]
    · simp [hrender]
    · rcases hc with rfl | rfl <;> simp [loudStarts, hrender, hname]
  have houtside (patterns : String) (h : '\n' ∉ patterns.toList) :
      Plain (name ++ " 0 : \x7b *(" ++ patterns ++ ") \x7d") := by
    refine ⟨?_, ?_, ?_⟩
    · simp [hnameEnd, h]
    · simp [hname]
    · rcases hc with rfl | rfl <;> simp [loudStarts, hname]
  simp only [debugSection, List.forall_mem_cons]
  exact ⟨halias.line_quiet rfl, (houtside _ hpatterns).line_quiet rfl, by simp⟩

theorem debugSections_named : ∀ s ∈ Emitter.debugSections,
    s.1.toList.take 2 ∈ [['.', 'd'], ['.', 'l']] ∧ ∀ p ∈ s.1 :: s.2, '\n' ∉ p.toList := by
  decide +kernel

theorem reads_debugPart : Reads Emitter.debugPart [] := by
  apply Reads.quiet
  rw [Emitter.debugPart, List.forall_mem_flatMap]
  intro s hs
  obtain ⟨hstart, hend⟩ := debugSections_named s hs
  cases hname : s.1.toList with
  | nil => simp [hname] at hstart
  | cons b rest =>
    cases rest with
    | nil => simp [hname] at hstart
    | cons c rest =>
      simp only [hname, List.take_succ_cons, List.take_zero, List.mem_cons, List.cons.injEq,
        and_true, List.not_mem_nil, or_false] at hstart
      rcases hstart with ⟨rfl, rfl⟩ | ⟨rfl, rfl⟩
      · exact debugSection_quiet hname (.inl rfl) hend
      · exact debugSection_quiet hname (.inr rfl) hend

end FirmwareKit.Script
