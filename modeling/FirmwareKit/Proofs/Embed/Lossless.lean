import FirmwareKit.Proofs.Embed.Reading
set_option autoImplicit false

namespace FirmwareKit.Embed
variable {arrays : List ByteArray}

/-! ## Marks in a definition -/

def innerMarks : List Char := ['[', ']', '(', ')', '-', '=', '{', '}', ',']

theorem mark_mem_number {n : Int} {c : Char} (h : .mark c ∈ numberTokens n) : c ∈ innerMarks := by
  rw [numberTokens] at h
  split at h
  · rcases List.mem_cons.mp h with h | h
    · cases h
      decide
    · cases List.mem_singleton.mp h
  · cases List.mem_singleton.mp h

theorem mark_mem_declarator {a : ByteArray} {c : Char} (h : .mark c ∈ declaratorTokens a) :
    c ∈ innerMarks := by
  rw [declaratorTokens] at h
  rcases List.mem_append.mp h with h | h
  · cases hspace : a.addressSpace with
    | none =>
      rw [hspace] at h
      cases h
    | some space =>
      rw [hspace] at h
      cases List.mem_singleton.mp h
  · have hc : c = '[' ∨ c = ']' := by simpa using h
    obtain rfl | rfl := hc <;> decide

theorem mark_mem_attribute {n : Int} {c : Char} (h : .mark c ∈ attributeTokens n) :
    c ∈ innerMarks := by
  have hparts : c = '(' ∨ .mark c ∈ numberTokens n ∨ c = ')' := by
    simpa [attributeTokens] using h
  rcases hparts with rfl | h | rfl
  · decide
  · exact mark_mem_number h
  · decide

theorem mark_mem_bytes {data : List UInt8} {c : Char} (h : .mark c ∈ byteTokens data) :
    c ∈ innerMarks := by
  induction data with
  | nil => cases h
  | cons b more ih =>
    cases more with
    | nil => cases List.mem_singleton.mp h
    | cons b' more =>
      have hmem : c = ',' ∨ .mark c ∈ byteTokens (b' :: more) := by simpa [byteTokens] using h
      rcases hmem with rfl | h
      · decide
      · exact ih h

def openDefinition (a : ByteArray) : List Token :=
  .word "const" :: .word "uint8_t" :: (declaratorTokens a ++
    (a.effectiveAlignment.elim [] attributeTokens ++ Token.mark '=' :: Token.mark '{' ::
      (byteTokens a.data ++ [.mark '}'])))

theorem definitionTokens_eq (a : ByteArray) :
    definitionTokens a = openDefinition a ++ [Token.mark ';'] := by
  simp [definitionTokens, openDefinition]

theorem mark_mem_openDefinition {a : ByteArray} {c : Char} (h : .mark c ∈ openDefinition a) :
    c ∈ innerMarks := by
  have hparts : .mark c ∈ declaratorTokens a ∨
      .mark c ∈ a.effectiveAlignment.elim [] attributeTokens ∨
        c = '=' ∨ c = '{' ∨ .mark c ∈ byteTokens a.data ∨ c = '}' := by
    simpa [openDefinition] using h
  rcases hparts with h | h | rfl | rfl | h | rfl
  · exact mark_mem_declarator h
  · cases halign : a.effectiveAlignment with
    | none =>
      rw [halign] at h
      cases h
    | some n =>
      rw [halign] at h
      exact mark_mem_attribute h
  · decide
  · decide
  · exact mark_mem_bytes h
  · decide

/-! ## The source -/

theorem statements_append {s : List Token} (h : .mark ';' ∉ s) (rest : List Token) :
    statements (s ++ Token.mark ';' :: rest) = (s ++ [Token.mark ';']) :: statements rest := by
  induction s with
  | nil => simp [statements]
  | cons t s ih =>
    obtain ⟨ht, hs⟩ := List.ne_and_not_mem_of_not_mem_cons h
    rw [List.cons_append, statements, if_neg (Ne.symm ht), ih hs]
    rfl

theorem statements_definitions (arrays : List ByteArray) :
    statements (arrays.flatMap definitionTokens) = arrays.map definitionTokens := by
  induction arrays with
  | nil => rfl
  | cons a more ih =>
    have hopen : .mark ';' ∉ openDefinition a := fun h =>
      absurd (mark_mem_openDefinition h) (by decide)
    rw [List.flatMap_cons, List.map_cons, definitionTokens_eq, List.append_assoc,
      List.singleton_append, statements_append hopen, ih]

theorem mapM_readDefinition? (arrays : List ByteArray) :
    (arrays.map definitionTokens).mapM readDefinition? = some (arrays.map ByteArray.defined) := by
  induction arrays with
  | nil => rfl
  | cons a more ih =>
    rw [List.map_cons, List.mapM_cons, readDefinition?_tokens, ih]
    rfl

theorem tokenised_definitions (h : ∀ a ∈ arrays, a.Named) :
    Tokenised (String.join (arrays.map definition)).toList (arrays.flatMap definitionTokens) := by
  induction arrays with
  | nil => exact .nil
  | cons a more ih =>
    obtain ⟨ha, hmore⟩ := List.forall_mem_cons.mp h
    rw [List.map_cons, String.join_cons, String.toList_append, List.flatMap_cons]
    exact (tokenised_definition ha).append (ih hmore)

theorem ended_definition (a : ByteArray) : Text.Ended (definition a).toList := by
  have hclosing : Text.Ended "\n\x7d;\n".toList := rfl
  unfold definition
  rw [String.toList_append]
  exact hclosing.append

theorem ended_join {texts : List String} (h : ∀ t ∈ texts, Text.Ended t.toList) :
    Text.Ended ('\n' :: (String.join texts).toList) := by
  induction texts with
  | nil => rfl
  | cons t more ih =>
    obtain ⟨ht, hmore⟩ := List.forall_mem_cons.mp h
    obtain ⟨body, hbody⟩ := List.getLast?_eq_some_iff.mp ht
    rw [String.join_cons, String.toList_append, hbody, List.append_assoc, ← List.cons_append]
    exact (ih hmore).append

theorem flatMap_tokens_filter (rows : List (List Char)) :
    (rows.filter fun row => !row.isEmpty).flatMap tokens = rows.flatMap tokens := by
  induction rows with
  | nil => rfl
  | cons row more ih =>
    cases row with
    | nil => exact ih
    | cons c cs => exact congrArg (tokens (c :: cs) ++ ·) ih

/-- The rows behind the includes of a file, when none of them is the last include again. -/
theorem rowsBehindIncludes?_eq {text : String} {opening behind : List Char}
    (htext : text.toList = opening ++ (lastInclude ++ '\n' :: behind))
    (hopening : Text.Ended opening) (hfree : lastInclude ∉ Text.rows behind) :
    rowsBehindIncludes? text = some ((Text.rows behind).filter fun row => !row.isEmpty) := by
  have hinclude : Text.rows (lastInclude ++ '\n' :: behind) = lastInclude :: Text.rows behind := by
    have hended : Text.Ended (lastInclude ++ ['\n']) := rfl
    have hline : '\n' ∉ lastInclude := by decide +kernel
    rw [List.append_cons, Text.rows_append hended, Text.rows_singleton hline]
    rfl
  rw [rowsBehindIncludes?, htext, Text.rows_append hopening, hinclude,
    Text.afterLast?_append hfree, Option.map_some]

theorem readSource?_sourceText (program date : String) (h : ∀ a ∈ arrays, a.Named) :
    readSource? (sourceText program date arrays) = some (arrays.map ByteArray.defined) := by
  have htext : (sourceText program date arrays).toList =
      ((banner program date).toList ++ "#include <stdint.h>\n".toList) ++
        (lastInclude ++ '\n' :: '\n' :: (String.join (arrays.map definition)).toList) := by
    have hincludes : "#include <stdint.h>\n#include <wonderful.h>\n\n".toList =
        "#include <stdint.h>\n".toList ++ (lastInclude ++ ['\n', '\n']) := by decide +kernel
    rw [sourceText, String.toList_append, String.toList_append, hincludes]
    simp only [List.append_assoc, List.cons_append, List.nil_append]
  have hopening : Text.Ended
      ((banner program date).toList ++ "#include <stdint.h>\n".toList) := Text.Ended.append rfl
  have hended : Text.Ended ('\n' :: (String.join (arrays.map definition)).toList) :=
    ended_join (List.forall_mem_map.mpr fun a _ => ended_definition a)
  have htokens : (Text.rows ('\n' :: (String.join (arrays.map definition)).toList)).flatMap tokens =
      arrays.flatMap definitionTokens := by
    rw [flatMap_tokens_rows hended]
    exact (tokenised_definitions h).eq
  -- An include would leave its mark among the tokens of the definitions.
  have hfree : lastInclude ∉ Text.rows ('\n' :: (String.join (arrays.map definition)).toList) := by
    intro hmem
    have hmark : Token.mark '#' ∈ arrays.flatMap definitionTokens := by
      rw [← htokens]
      exact List.mem_flatMap.mpr ⟨lastInclude, hmem, List.mem_cons_self⟩
    obtain ⟨a, -, ha⟩ := List.mem_flatMap.mp hmark
    rw [definitionTokens_eq] at ha
    rcases List.mem_append.mp ha with ha | ha
    · exact absurd (mark_mem_openDefinition ha) (by decide)
    · exact absurd (List.mem_singleton.mp ha) (by decide)
  rw [readSource?, rowsBehindIncludes?_eq htext hopening hfree, Option.bind_eq_bind,
    Option.bind_some, flatMap_tokens_filter, htokens, statements_definitions, mapM_readDefinition?]

/-! ## The header -/

theorem lineEnd_not_mem {cs : List Char} (h : ∀ c ∈ cs, isIdentifierChar c = true) : '\n' ∉ cs :=
  fun hmem => absurd (h _ hmem) (by decide)

theorem lineEnd_not_mem_declaratorText {a : ByteArray} (h : a.Named) : '\n' ∉ declaratorText a := by
  have hqualifier : '\n' ∉ (qualifier a).toList := by
    rw [qualifier]
    cases hspace : a.addressSpace with
    | none => exact List.not_mem_nil
    | some space =>
      have hidentifier := h.addressSpace space hspace
      have hfree := lineEnd_not_mem (isWord_of_isIdentifier hidentifier).2
      simp [isIdentifier_isEmpty hidentifier, hfree]
  have hname := lineEnd_not_mem (isWord_of_isIdentifier h.name).2
  have hsize := lineEnd_not_mem (isWord_decimal a.data.length).2
  simp [declaratorText, hqualifier, hname, hsize]

theorem rows_declaration {a : ByteArray} (h : a.Named) :
    Text.rows (declaration a).toList = [macroRow a, externRow a] := by
  have hmacro : '\n' ∉ macroRow a := by
    have hname := lineEnd_not_mem (isIdentifierChar_of_mem_macroName h)
    have hsize := lineEnd_not_mem (isWord_decimal a.data.length).2
    have hstart : '\n' ∉ "#define ".toList := by decide +kernel
    have hopening : '\n' ∉ " (".toList := by decide +kernel
    have hclosing : '\n' ∉ [')'] := by decide
    exact List.not_mem_append hstart (List.not_mem_append hname
      (List.not_mem_append hopening (List.not_mem_append hsize hclosing)))
  have hextern : '\n' ∉ externRow a := by
    have hstart : '\n' ∉ "extern const uint8_t ".toList := by decide +kernel
    have hclosing : '\n' ∉ [';'] := by decide
    exact List.not_mem_append hstart
      (List.not_mem_append (lineEnd_not_mem_declaratorText h) hclosing)
  have hended : Text.Ended (macroRow a ++ ['\n']) := Text.Ended.append rfl
  rw [declaration_toList, Text.rows_append hended, Text.rows_singleton hmacro,
    Text.rows_singleton hextern]
  rfl

def declarationRows (arrays : List ByteArray) : List (List Char) :=
  arrays.flatMap fun a => [macroRow a, externRow a]

theorem rows_declarations (h : ∀ a ∈ arrays, a.Named) :
    Text.rows (String.join (arrays.map declaration)).toList = declarationRows arrays := by
  induction arrays with
  | nil => rfl
  | cons a more ih =>
    obtain ⟨ha, hmore⟩ := List.forall_mem_cons.mp h
    have hended : Text.Ended (declaration a).toList := by
      rw [declaration_toList, ← List.append_assoc]
      exact Text.Ended.append rfl
    rw [List.map_cons, String.join_cons, String.toList_append, Text.rows_append hended,
      rows_declaration ha, ih hmore]
    rfl

/-- Neither `#define` nor `extern` may be taken for an include. -/
theorem second_of_mem_declarationRows {row : List Char} (h : row ∈ declarationRows arrays) :
    row[1]? = some 'd' ∨ row[1]? = some 'x' := by
  obtain ⟨a, -, ha⟩ := List.mem_flatMap.mp h
  rcases List.mem_cons.mp ha with rfl | ha
  · exact .inl rfl
  · rw [List.mem_singleton.mp ha]
    exact .inr rfl

theorem readDeclarations?_rows (h : ∀ a ∈ arrays, a.Named) :
    readDeclarations? (declarationRows arrays) = some (arrays.map ByteArray.declared) := by
  induction arrays with
  | nil => rfl
  | cons a more ih =>
    obtain ⟨ha, hmore⟩ := List.forall_mem_cons.mp h
    change (readDeclaration? _ _).bind _ = _
    rw [readDeclaration?_rows ha, Option.bind_some]
    change (readDeclarations? (declarationRows more)).bind _ = _
    rw [ih hmore]
    rfl

theorem readHeader?_headerText (program date : String) (h : ∀ a ∈ arrays, a.Named) :
    readHeader? (headerText program date arrays) = some (arrays.map ByteArray.declared) := by
  have htext : (headerText program date arrays).toList =
      ((banner program date).toList ++ "#pragma once\n#include <stdint.h>\n".toList) ++
        (lastInclude ++ '\n' :: '\n' :: (String.join (arrays.map declaration)).toList) := by
    have hincludes : "#pragma once\n#include <stdint.h>\n#include <wonderful.h>\n\n".toList =
        "#pragma once\n#include <stdint.h>\n".toList ++ (lastInclude ++ ['\n', '\n']) := by
      decide +kernel
    rw [headerText, String.toList_append, String.toList_append, hincludes]
    simp only [List.append_assoc, List.cons_append, List.nil_append]
  have hopening : Text.Ended
      ((banner program date).toList ++ "#pragma once\n#include <stdint.h>\n".toList) :=
    Text.Ended.append rfl
  have hrows : Text.rows ('\n' :: (String.join (arrays.map declaration)).toList) =
      [] :: declarationRows arrays := by
    have hempty : Text.Ended ['\n'] := rfl
    rw [← List.singleton_append, Text.rows_append hempty, rows_declarations h]
    rfl
  have hfree : lastInclude ∉ [] :: declarationRows arrays := by
    intro hmem
    have hsecond : lastInclude[1]? = some 'i' := rfl
    rcases List.mem_cons.mp hmem with hnil | hmem
    · exact absurd hnil (List.cons_ne_nil _ _)
    · rcases second_of_mem_declarationRows hmem with hrow | hrow <;>
        exact absurd (hsecond.symm.trans hrow) (by decide)
  have hkept : ([] :: declarationRows arrays).filter (fun row => !row.isEmpty) =
      declarationRows arrays := by
    refine (List.filter_cons_of_neg (by decide)).trans (List.filter_eq_self.mpr fun row hrow => ?_)
    cases row with
    | nil => exact (second_of_mem_declarationRows hrow).elim nofun nofun
    | cons => rfl
  rw [← hrows] at hfree
  rw [readHeader?, rowsBehindIncludes?_eq htext hopening hfree, hrows, hkept]
  exact readDeclarations?_rows h

/-! ## Both files -/

/-- Writing goes through unless an alignment is too long, and then each file tells the arrays: the
source all of each in order, the header the same names, address spaces and sizes. -/
theorem write_recovered (program date : String) (h : ∀ a ∈ arrays, a.Named) :
    ((∃ a ∈ arrays, isOverlong a = true) ∧
      write program date arrays = .error (.system .overlongInteger)) ∨
    ((∀ a ∈ arrays, isOverlong a = false) ∧
      ∃ source header, write program date arrays = .ok (source, header) ∧
        readSource? source = some (arrays.map ByteArray.defined) ∧
        readHeader? header = some (arrays.map ByteArray.declared)) := by
  rw [write]
  by_cases hlong : arrays.any isOverlong = true
  · rw [if_pos hlong]
    exact .inl ⟨List.any_eq_true.mp hlong, rfl⟩
  · have hwritable : ∀ a ∈ arrays, isOverlong a = false := fun a ha =>
      Bool.eq_false_iff.mpr fun ha' => hlong (List.any_eq_true.mpr ⟨a, ha, ha'⟩)
    rw [if_neg hlong]
    exact .inr ⟨hwritable, _, _, rfl, readSource?_sourceText program date h,
      readHeader?_headerText program date h⟩

def writtenArrays : List ByteArray :=
  [⟨"empty", [], some 0, none⟩, ⟨"icon", List.replicate 13 0xA5, some 4, some "__far"⟩,
    ⟨"_rest", [0, 255], none, none⟩]

theorem write_recovered_writtenArrays :
    (∀ a ∈ writtenArrays, a.Named) ∧
      ∃ source header, write "tool" "today" writtenArrays = .ok (source, header) ∧
        readSource? source = some
          [⟨"empty", none, none, 0, []⟩,
            ⟨"icon", some "__far", some 4, 13, List.replicate 13 0xA5⟩,
            ⟨"_rest", none, none, 2, [0, 255]⟩] ∧
        readHeader? header = some
          [⟨"empty_size", 0, "empty", none, 0⟩, ⟨"icon_size", 13, "icon", some "__far", 13⟩,
            ⟨"_rest_size", 2, "_rest", none, 2⟩] := by
  have hnamed : ∀ a ∈ writtenArrays, a.Named := by decide +kernel
  refine ⟨hnamed, ?_⟩
  rcases write_recovered "tool" "today" hnamed with hlong | hwritten
  · exact absurd hlong.1 (by decide +kernel)
  · exact hwritten.2

def alignedArray (n : Int) : ByteArray := ⟨"x_bin", [1, 2], some n, none⟩

/-- An alignment may be a number that is too long to be written. -/
theorem write_longAlignment :
    (∀ a ∈ [alignedArray (Int.ofNat (Nat.pow 10 Value.greatestDigitCount))], a.Named) ∧
      write "tool" "today" [alignedArray (Int.ofNat (Nat.pow 10 Value.greatestDigitCount))] =
        .error (.system .overlongInteger) := by
  refine ⟨List.forall_mem_singleton.mpr ⟨rfl, nofun⟩, ?_⟩
  have hlong : [alignedArray (Int.ofNat (Nat.pow 10 Value.greatestDigitCount))].any isOverlong =
      true := by
    decide +kernel
  rw [write, if_pos hlong]

end FirmwareKit.Embed
