import FirmwareKit.Proofs.Text.Integer
import FirmwareKit.Proofs.Script.Statements
set_option autoImplicit false

namespace FirmwareKit.Script
open Text

def movedTo? (s : List Char) : Option Int :=
  (". = ".toList.isPrefixOf? s).bind fun rest =>
    if rest.dropWhile (· != ';') = [';'] then readInteger? (rest.takeWhile (· != ';')) else none

def openedAt? (window : String) (s : List Char) : Option Int :=
  (("\"." ++ window ++ "!\" ").toList.isPrefixOf? s).bind fun rest =>
    readInteger? (rest.takeWhile (· != ' '))

def counterAddress? (s : List Char) : Option Int :=
  movedTo? s <|> openedAt? "iram" s <|> openedAt? "sram" s

def ramHeading : List Char := "/* IRAM */".toList

/-- The addresses in the RAM part of a script, which follows the last heading. -/
def ramAddresses? (script : String) : Option (List Int) :=
  (afterLast? ramHeading (statements script)).map fun ss => ss.filterMap counterAddress?

theorem isPrefixOf?_of_not_prefix {xs ys : List Char} (h : ¬ xs <+: ys) :
    xs.isPrefixOf? ys = none := by
  induction xs generalizing ys with
  | nil => simp at h
  | cons x xs ih =>
    cases ys with
    | nil => rfl
    | cons y ys =>
      by_cases hxy : x = y
      · subst hxy
        have htail : ¬ xs <+: ys := fun hp => h (List.cons_prefix_cons.mpr ⟨rfl, hp⟩)
        simp [List.isPrefixOf?, ih htail]
      · simp [List.isPrefixOf?, hxy]

theorem ne_of_mem_integer {c : Char} (hsign : c ≠ '-') (hdigit : c.isDigit = false) (n : Int) :
    ∀ d ∈ integer n, (d != c) = true := by
  intro d hd
  rw [bne_iff_ne]
  rintro rfl
  exact not_mem_integer hsign hdigit hd

theorem takeWhile_integer_append {c : Char} (hsign : c ≠ '-') (hdigit : c.isDigit = false)
    (n : Int) (rest : List Char) :
    (integer n ++ c :: rest).takeWhile (· != c) = integer n := by
  rw [List.takeWhile_append_of_pos (ne_of_mem_integer hsign hdigit n)]
  simp

theorem dropWhile_integer_append {c : Char} (hsign : c ≠ '-') (hdigit : c.isDigit = false)
    (n : Int) (rest : List Char) :
    (integer n ++ c :: rest).dropWhile (· != c) = c :: rest := by
  rw [List.dropWhile_append_of_pos (ne_of_mem_integer hsign hdigit n)]
  simp

theorem movedTo?_assignment (n : Int) :
    movedTo? (". = ".toList ++ (integer n ++ [';'])) = some n := by
  have hsign : ';' ≠ '-' := by decide
  rw [movedTo?, isPrefixOf?_append, Option.bind_some,
    dropWhile_integer_append hsign rfl, takeWhile_integer_append hsign rfl, if_pos rfl,
    readInteger?_integer]

theorem openedAt?_header (window : String) (base : Int) (rest : List Char) :
    openedAt? window (("\"." ++ window ++ "!\" ").toList ++ (integer base ++ ' ' :: rest)) =
      some base := by
  have hsign : ' ' ≠ '-' := by decide
  rw [openedAt?, isPrefixOf?_append, Option.bind_some, takeWhile_integer_append hsign rfl,
    readInteger?_integer]

theorem counterAddress?_header {window : String} (hw : window = "iram" ∨ window = "sram")
    (base : Int) (rest : List Char) :
    counterAddress? (("\"." ++ window ++ "!\" ").toList ++ (integer base ++ ' ' :: rest)) =
      some base := by
  have hmoved : movedTo? (("\"." ++ window ++ "!\" ").toList ++ (integer base ++ ' ' :: rest)) =
      none := by
    simp [movedTo?, List.isPrefixOf?]
  have hopened := openedAt?_header window base rest
  rw [counterAddress?, hmoved]
  rcases hw with rfl | rfl
  · rw [hopened]
    rfl
  · have hapart : ¬ ("\"." ++ "iram" ++ "!\" ").toList <+:
        ("\"." ++ "sram" ++ "!\" ").toList ++ (integer base ++ ' ' :: rest) := by
      rintro ⟨tail, htail⟩
      have hthird := congrArg (fun cs => cs[2]?) htail
      change some 'i' = some 's' at hthird
      exact absurd hthird (by decide)
    rw [hopened, openedAt?, isPrefixOf?_of_not_prefix hapart]
    rfl

/-- A statement that neither heads the RAM part nor gives the counter an absolute address. -/
def Quiet (s : List Char) : Prop := s ≠ ramHeading ∧ counterAddress? s = none

instance (s : List Char) : Decidable (Quiet s) := inferInstanceAs (Decidable (_ ∧ _))

def loudStarts : List (List Char) :=
  ["/* IRAM */".toList, ". = ".toList, "\".iram!\" ".toList, "\".sram!\" ".toList]

/-- One line, without indentation, that shows by its first characters that it is quiet. -/
structure Plain (text : String) : Prop where
  oneLine : '\n' ∉ text.toList
  flush : text.toList.head? ≠ some ' '
  start : ∀ s ∈ loudStarts, ¬ s <+: text.toList

theorem Plain.quiet {text : String} (h : Plain text) : Quiet text.toList := by
  have hstart := h.start
  simp only [loudStarts, List.forall_mem_cons] at hstart
  obtain ⟨hheading, hmove, hiram, hsram, _⟩ := hstart
  refine ⟨?_, ?_⟩
  · intro he
    exact hheading (he ▸ List.prefix_refl _)
  · have hmoved : movedTo? text.toList = none := by
      rw [movedTo?, isPrefixOf?_of_not_prefix hmove]
      rfl
    have hopened (window : String) (hw : ¬ ("\"." ++ window ++ "!\" ").toList <+: text.toList) :
        openedAt? window text.toList = none := by
      rw [openedAt?, isPrefixOf?_of_not_prefix hw]
      rfl
    rw [counterAddress?, hmoved, hopened "iram" hiram, hopened "sram" hsram]
    rfl

def Command.Quiet (c : Command) : Prop := ∀ s ∈ c.statements, Script.Quiet s

instance (c : Command) : Decidable c.Quiet :=
  inferInstanceAs (Decidable (∀ s ∈ c.statements, Script.Quiet s))

theorem Plain.line_quiet {c : Command} {level : Int} {text : String} (h : Plain text)
    (hc : c.render = line level text) : c.Quiet := by
  intro s hs
  rw [Command.statements, hc, statements_line level h.oneLine h.flush, List.mem_singleton] at hs
  subst hs
  exact h.quiet

theorem Plain.opening_quiet {header : Header} (h : Plain header.render) :
    (Command.openSection header).Quiet := by
  intro s hs
  change s ∈ statements (opening header.render) at hs
  rw [statements_opening h.oneLine h.flush] at hs
  rcases List.mem_cons.mp hs with rfl | hs
  · exact h.quiet
  · rw [List.mem_singleton] at hs
    subst hs
    decide

structure Reads (commands : List Command) (addresses : List Int) : Prop where
  unheaded : ramHeading ∉ commands.flatMap Command.statements
  read : (commands.flatMap Command.statements).filterMap counterAddress? = addresses

namespace Reads

theorem append {xs ys : List Command} {as bs : List Int} (hx : Reads xs as) (hy : Reads ys bs) :
    Reads (xs ++ ys) (as ++ bs) := by
  obtain ⟨hxu, rfl⟩ := hx
  obtain ⟨hyu, rfl⟩ := hy
  refine ⟨?_, ?_⟩
  · rw [List.flatMap_append, List.mem_append]
    exact fun h => h.elim hxu hyu
  · rw [List.flatMap_append, List.filterMap_append]

theorem quiet {commands : List Command} (h : ∀ c ∈ commands, c.Quiet) : Reads commands [] := by
  refine ⟨?_, ?_⟩
  · intro hmem
    obtain ⟨c, hc, hs⟩ := List.mem_flatMap.mp hmem
    exact (h c hc _ hs).1 rfl
  · rw [List.filterMap_eq_nil_iff]
    intro s hmem
    obtain ⟨c, hc, hs⟩ := List.mem_flatMap.mp hmem
    exact (h c hc s hs).2

theorem skip {c : Command} {cs : List Command} {as : List Int} (hc : c.Quiet) (h : Reads cs as) :
    Reads (c :: cs) as :=
  (quiet (by simpa using hc) : Reads [c] []).append h

/-- A command whose first statement moves the counter. -/
theorem of_statement {c : Command} {s : List Char} {rest : List (List Char)} {n : Int}
    (hs : c.statements = s :: rest) (hstart : s.head? ≠ some '/')
    (hread : counterAddress? s = some n) (hrest : ∀ t ∈ rest, Quiet t) : Reads [c] [n] := by
  refine ⟨?_, ?_⟩
  · rw [List.flatMap_singleton, hs, List.mem_cons]
    rintro (rfl | hmem)
    · exact hstart rfl
    · exact (hrest _ hmem).1 rfl
  · have hnone : rest.filterMap counterAddress? = [] :=
      List.filterMap_eq_nil_iff.mpr fun t ht => (hrest t ht).2
    rw [List.flatMap_singleton, hs, List.filterMap_cons_some hread, hnone]

theorem flatMap {α : Type} {xs : List α} {f : α → List Command} {g : α → List Int}
    (h : ∀ x ∈ xs, Reads (f x) (g x)) : Reads (xs.flatMap f) (xs.flatMap g) := by
  induction xs with
  | nil => exact quiet (by simp)
  | cons x xs ih =>
    rw [List.flatMap_cons, List.flatMap_cons]
    exact (h x List.mem_cons_self).append (ih fun y hy => h y (List.mem_cons_of_mem x hy))

end Reads
end FirmwareKit.Script
