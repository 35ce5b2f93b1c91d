import FirmwareKit.Embed.Arrays
import FirmwareKit.Proofs.Embed.Tokens
set_option autoImplicit false

namespace FirmwareKit.Embed

structure Definition where
  name : String
  addressSpace : Option String
  alignment : Option Int
  size : Nat
  data : List UInt8
deriving DecidableEq, Repr

structure Declaration where
  macroName : String
  macroValue : Nat
  name : String
  addressSpace : Option String
  size : Nat
deriving DecidableEq, Repr

/-! ## Parts of a definition -/

def number? (word : String) : Option Nat := Text.readDigits? 10 word.toList

def readDeclarator? : List Token → Option ((Option String × String × Nat) × List Token)
  | .word name :: .mark '[' :: .word size :: .mark ']' :: rest =>
    (number? size).map fun n => ((none, name, n), rest)
  | .word space :: .word name :: .mark '[' :: .word size :: .mark ']' :: rest =>
    (number? size).map fun n => ((some space, name, n), rest)
  | _ => none

def readNumber? : List Token → Option (Int × List Token)
  | .mark '-' :: .word digits :: rest => (number? digits).map fun n : Nat => (-(n : Int), rest)
  | .word digits :: rest => (number? digits).map fun n : Nat => ((n : Int), rest)
  | _ => none

/-- The alignment, where an attribute states it. -/
def readAlignment? : List Token → Option (Option Int × List Token)
  | .word "__attribute__" :: .mark '(' :: .mark '(' :: .word "aligned" :: .mark '(' :: rest =>
    match readNumber? rest with
    | some (n, .mark ')' :: .mark ')' :: .mark ')' :: rest) => some (some n, rest)
    | _ => none
  | rest => some (none, rest)

def readByte? (word : String) : Option UInt8 :=
  match word.toList with
  | '0' :: 'x' :: digits =>
    (Text.readDigits? 16 digits).bind fun n =>
      if !digits.isEmpty ∧ n < 256 then some (UInt8.ofNat n) else none
  | _ => none

def readBytes? : List Token → Option (List UInt8 × List Token)
  | .word byte :: .mark ',' :: rest => do
    let b ← readByte? byte
    let (bs, rest) ← readBytes? rest
    return (b :: bs, rest)
  | .word byte :: .mark '}' :: rest => (readByte? byte).map fun b => ([b], rest)
  | _ => none

def readInitializer? : List Token → Option (List UInt8 × List Token)
  | .mark '{' :: .mark '}' :: rest => some ([], rest)
  | .mark '{' :: rest => readBytes? rest
  | _ => none

/-! ## Statements, macros, files -/

def readDefinition? : List Token → Option Definition
  | .word "const" :: .word "uint8_t" :: rest => do
    let ((addressSpace, name, size), rest) ← readDeclarator? rest
    let (alignment, rest) ← readAlignment? rest
    match rest with
    | .mark '=' :: rest =>
      let (data, rest) ← readInitializer? rest
      if rest = [.mark ';'] then some ⟨name, addressSpace, alignment, size, data⟩ else none
    | _ => none
  | _ => none

def statements : List Token → List (List Token)
  | [] => []
  | t :: rest =>
    if t = .mark ';' then [t] :: statements rest
    else match statements rest with
      | [] => [[t]]
      | s :: more => (t :: s) :: more

/-- The text of a macro that is a number in parentheses. Without a blank in front of them they would
be those of parameters. -/
def readMacroText? (text : List Char) : Option Nat :=
  if text.head? = some ' ' then
    match tokens text with
    | [.mark '(', .word value, .mark ')'] => number? value
    | _ => none
  else none

def readMacro? (row : List Char) : Option (String × Nat) :=
  ("#define ".toList.isPrefixOf? row).bind fun rest =>
    (readMacroText? (rest.dropWhile isIdentifierChar)).map fun n =>
      (String.ofList (rest.takeWhile isIdentifierChar), n)

def readDeclaration? (macroRow externRow : List Char) : Option Declaration := do
  let (macroName, macroValue) ← readMacro? macroRow
  match tokens externRow with
  | .word "extern" :: .word "const" :: .word "uint8_t" :: rest =>
    let ((addressSpace, name, size), rest) ← readDeclarator? rest
    if rest = [.mark ';'] then some ⟨macroName, macroValue, name, addressSpace, size⟩ else none
  | _ => none

def readDeclarations? : List (List Char) → Option (List Declaration)
  | [] => some []
  | macroRow :: externRow :: rest => do
    let d ← readDeclaration? macroRow externRow
    let ds ← readDeclarations? rest
    return d :: ds
  | [_] => none

def lastInclude : List Char := "#include <wonderful.h>".toList

def rowsBehindIncludes? (text : String) : Option (List (List Char)) :=
  (Text.afterLast? lastInclude (Text.rows text.toList)).map fun rows =>
    rows.filter fun row => !row.isEmpty

def readSource? (text : String) : Option (List Definition) := do
  let rows ← rowsBehindIncludes? text
  (statements (rows.flatMap tokens)).mapM readDefinition?

def readHeader? (text : String) : Option (List Declaration) := do
  let rows ← rowsBehindIncludes? text
  readDeclarations? rows

/-! ## What is read of a written part -/

theorem number?_decimal (n : Nat) : number? (String.ofList (Text.decimal n)) = some n := by
  rw [number?, String.toList_ofList]
  exact Text.readDigits?_toDigits (by decide) (by decide) n

theorem toString_toList (n : Nat) : (toString n).toList = Text.decimal n := by
  simp [Text.decimal]

theorem toString_int_toList (n : Int) : (toString n).toList = Text.integer n := by
  cases n <;> simp [Text.integer, Text.decimal, toString, Int.repr]

structure ByteArray.Named (a : ByteArray) : Prop where
  name : isIdentifier a.name = true
  addressSpace : ∀ space, a.addressSpace = some space → isIdentifier space = true

theorem ByteArray.named_iff (a : ByteArray) :
    isIdentifier a.name = true ∧ a.addressSpace.all isIdentifier = true ↔ a.Named := by
  rw [Option.all_eq_true]
  exact ⟨fun h => ⟨h.1, h.2⟩, fun h => ⟨h.name, h.addressSpace⟩⟩

instance (a : ByteArray) : Decidable a.Named := decidable_of_iff _ a.named_iff

def declaratorTokens (a : ByteArray) : List Token :=
  (a.addressSpace.map Token.word).toList ++
    [.word a.name, .mark '[', .word (String.ofList (Text.decimal a.data.length)), .mark ']']

def declaratorText (a : ByteArray) : List Char :=
  (qualifier a).toList ++ (a.name.toList ++ '[' :: (Text.decimal a.data.length ++ [']']))

variable {a : ByteArray}

theorem isIdentifier_isEmpty {s : String} (h : isIdentifier s = true) : s.isEmpty = false := by
  have hword := (isWord_of_isIdentifier h).1
  rw [Bool.eq_false_iff]
  intro hempty
  rw [String.isEmpty_iff] at hempty
  exact hword (hempty ▸ rfl)

theorem tokenised_qualifier (h : a.Named) :
    Tokenised (qualifier a).toList (a.addressSpace.map Token.word).toList := by
  rw [qualifier]
  cases hspace : a.addressSpace with
  | none => exact .nil
  | some space =>
    have hidentifier := h.addressSpace space hspace
    simp only [isIdentifier_isEmpty hidentifier, Bool.false_eq_true, if_false, String.toList_append]
    exact tokenised_word_blank hidentifier

theorem tokenised_declarator (h : a.Named) :
    Tokenised (declaratorText a) (declaratorTokens a) := by
  refine (tokenised_qualifier h).append fun rest => ?_
  rw [List.append_assoc, List.cons_append, List.append_assoc]
  rw [tokens_word (isWord_of_isIdentifier h.name) rfl, String.ofList_toList]
  change _ :: .mark '[' :: tokens (Text.decimal a.data.length ++ ']' :: rest) = _
  rw [tokens_word (isWord_decimal _) rfl]
  rfl

theorem readDeclarator?_tokens (a : ByteArray) (rest : List Token) :
    readDeclarator? (declaratorTokens a ++ rest) =
      some ((a.addressSpace, a.name, a.data.length), rest) := by
  rw [declaratorTokens]
  cases a.addressSpace <;> simp [readDeclarator?, number?_decimal]

def numberTokens (n : Int) : List Token :=
  if n < 0 then [.mark '-', .word (String.ofList (Text.decimal n.natAbs))]
  else [.word (String.ofList (Text.decimal n.natAbs))]

theorem tokens_integer (n : Int) {c : Char} (hc : isIdentifierChar c = false) (rest : List Char) :
    tokens (Text.integer n ++ c :: rest) = numberTokens n ++ tokens (c :: rest) := by
  have hword := tokens_word (isWord_decimal n.natAbs) hc rest
  rw [Text.integer, numberTokens]
  split
  · rw [List.cons_append]
    change Token.mark '-' :: tokens _ = _
    rw [hword]
    rfl
  · exact hword

theorem readNumber?_tokens (n : Int) (rest : List Token) :
    readNumber? (numberTokens n ++ rest) = some (n, rest) := by
  rw [numberTokens]
  split
  case isTrue hneg =>
    have hn : -(n.natAbs : Int) = n := by omega
    rw [List.cons_append, List.singleton_append, readNumber?, number?_decimal, Option.map_some, hn]
  case isFalse hpos =>
    have hn : (n.natAbs : Int) = n := by omega
    rw [List.singleton_append, readNumber?, number?_decimal, Option.map_some, hn]

def ByteArray.effectiveAlignment (a : ByteArray) : Option Int := a.alignment.filter (· ≠ 0)

def attributeTokens (n : Int) : List Token :=
  .word "__attribute__" :: .mark '(' :: .mark '(' :: .word "aligned" :: .mark '(' ::
    (numberTokens n ++ [.mark ')', .mark ')', .mark ')'])

theorem tokenised_attribute (n : Int) :
    Tokenised ("__attribute__((aligned(".toList ++ (Text.integer n ++ "))) ".toList))
      (attributeTokens n) := by
  intro rest
  rw [List.append_assoc, List.append_assoc]
  change .word "__attribute__" :: .mark '(' :: .mark '(' :: .word "aligned" :: .mark '(' ::
    tokens (Text.integer n ++ ')' :: ')' :: ')' :: ' ' :: rest) = _
  rw [tokens_integer n rfl, attributeTokens]
  simp only [List.cons_append, List.append_assoc, List.nil_append]
  rfl

theorem tokenised_alignment (a : ByteArray) :
    Tokenised (alignmentText a).toList (a.effectiveAlignment.elim [] attributeTokens) := by
  rw [alignmentText, ByteArray.effectiveAlignment]
  cases a.alignment with
  | none => exact .nil
  | some n =>
    by_cases hn : n = 0
    · subst hn
      exact .nil
    · have htext : s!"__attribute__((aligned({n}))) ".toList =
          "__attribute__((aligned(".toList ++ (Text.integer n ++ "))) ".toList) := by
        simp only [String.toList_append, toString_int_toList, List.append_assoc]
        rfl
      have hkept : (some n).filter (· ≠ 0) = some n := by simp [hn]
      rw [hkept, Option.elim_some]
      simp only [hn, if_false, htext]
      exact tokenised_attribute n

theorem readAlignment?_tokens (alignment : Option Int) (rest : List Token) :
    readAlignment? (alignment.elim [] attributeTokens ++ Token.mark '=' :: rest) =
      some (alignment, .mark '=' :: rest) := by
  cases alignment with
  | none => rfl
  | some n =>
    have hnumber := readNumber?_tokens n
      (.mark ')' :: .mark ')' :: .mark ')' :: .mark '=' :: rest)
    have htokens : attributeTokens n ++ Token.mark '=' :: rest =
        .word "__attribute__" :: .mark '(' :: .mark '(' :: .word "aligned" :: .mark '(' ::
          (numberTokens n ++ (.mark ')' :: .mark ')' :: .mark ')' :: .mark '=' :: rest)) := by
      simp only [attributeTokens, List.cons_append, List.append_assoc, List.nil_append]
    simp only [Option.elim_some, htokens, readAlignment?, hnumber]

/-! ## Bytes -/

theorem readByte?_literal (b : UInt8) :
    IsWord (literal b) ∧ readByte? (String.ofList (literal b)) = some b := by
  have hall : ∀ n < 256, ((Text.upperHex 2 n).all isIdentifierChar &&
      !(Text.upperHex 2 n).isEmpty && Text.readDigits? 16 (Text.upperHex 2 n) == some n) = true := by
    decide +kernel
  have hlt := UInt8.toNat_lt b
  obtain ⟨hchars, hread⟩ := Bool.and_eq_true_iff.mp (hall b.toNat hlt)
  obtain ⟨hchars, hsome⟩ := Bool.and_eq_true_iff.mp hchars
  constructor
  · refine ⟨List.cons_ne_nil _ _, ?_⟩
    exact List.forall_mem_cons.mpr ⟨rfl, List.forall_mem_cons.mpr
      ⟨rfl, List.all_eq_true.mp hchars⟩⟩
  · rw [readByte?, String.toList_ofList, literal]
    simp only [eq_of_beq hread, Option.bind_some]
    rw [if_pos ⟨hsome, hlt⟩, UInt8.ofNat_toNat]

def byteTokens : List UInt8 → List Token
  | [] => []
  | [b] => [.word (String.ofList (literal b))]
  | b :: rest => .word (String.ofList (literal b)) :: .mark ',' :: byteTokens rest

theorem tokens_body (column : Nat) (data : List UInt8) (rest : List Char) :
    tokens (bodyFrom column data ++ '\n' :: rest) = byteTokens data ++ tokens rest := by
  induction data generalizing column with
  | nil => rfl
  | cons b more ih =>
    have hword := (readByte?_literal b).1
    -- A line break or a blank leads to the literal, and neither is a token.
    have hlead (cs : List Char) :
        tokens ((if column = 0 then ['\n', '\t'] else [' ']) ++ cs) = tokens cs := by
      split <;> rfl
    rw [bodyFrom, List.append_assoc, List.append_assoc, List.append_assoc, hlead]
    cases more with
    | nil =>
      change tokens (literal b ++ '\n' :: rest) = _
      rw [tokens_word hword rfl]
      rfl
    | cons b' more =>
      change tokens (literal b ++ ',' :: (bodyFrom _ (b' :: more) ++ '\n' :: rest)) = _
      rw [tokens_word hword rfl]
      change _ :: .mark ',' :: tokens (bodyFrom _ (b' :: more) ++ '\n' :: rest) = _
      rw [ih]
      rfl

theorem readInitializer?_tokens (data : List UInt8) (rest : List Token) :
    readInitializer? (.mark '{' :: (byteTokens data ++ Token.mark '}' :: rest)) = some (data, rest) := by
  have hbytes (b : UInt8) (more : List UInt8) :
      readBytes? (byteTokens (b :: more) ++ Token.mark '}' :: rest) = some (b :: more, rest) := by
    induction more generalizing b with
    | nil =>
      change (readByte? _).map _ = _
      rw [(readByte?_literal b).2, Option.map_some]
    | cons b' more ih =>
      rw [byteTokens, List.cons_append, List.cons_append, readBytes?, (readByte?_literal b).2, ih b']
      · rfl
      · exact nofun
  cases data with
  | nil => rfl
  | cons b more =>
    rw [← hbytes b more]
    cases more <;> rfl

/-! ## Definitions -/

def ByteArray.defined (a : ByteArray) : Definition :=
  ⟨a.name, a.addressSpace, a.effectiveAlignment, a.data.length, a.data⟩

def definitionTokens (a : ByteArray) : List Token :=
  .word "const" :: .word "uint8_t" :: (declaratorTokens a ++
    (a.effectiveAlignment.elim [] attributeTokens ++ Token.mark '=' :: Token.mark '{' ::
      (byteTokens a.data ++ [.mark '}', .mark ';'])))

theorem definition_toList (a : ByteArray) :
    (definition a).toList = "const uint8_t ".toList ++ (declaratorText a ++ ([' '] ++
      ((alignmentText a).toList ++ ("= \x7b".toList ++
        (bodyFrom 0 a.data ++ '\n' :: "\x7d;\n".toList))))) := by
  have htext : definition a = "const uint8_t " ++ qualifier a ++ a.name ++ "[" ++
      toString a.data.length ++ "] " ++ alignmentText a ++ "= \x7b" ++ body a.data ++ "\n\x7d;\n" := rfl
  rw [htext, declaratorText]
  simp only [body, String.toList_append, String.toList_ofList, toString_toList, List.append_assoc,
    List.cons_append, List.nil_append]
  rfl

theorem tokenised_definition (h : a.Named) :
    Tokenised (definition a).toList (definitionTokens a) := by
  have hbody : Tokenised ("= \x7b".toList ++ (bodyFrom 0 a.data ++ '\n' :: "\x7d;\n".toList))
      (.mark '=' :: .mark '{' :: (byteTokens a.data ++ [Token.mark '}', Token.mark ';'])) := by
    intro rest
    rw [List.append_assoc, List.append_assoc]
    change .mark '=' :: .mark '{' :: tokens (bodyFrom 0 a.data ++ '\n' :: _) = _
    rw [tokens_body, List.cons_append, List.cons_append, List.append_assoc]
    rfl
  have hblank : Tokenised [' '] [] := fun _ => rfl
  have htype : Tokenised "const uint8_t ".toList [.word "const", .word "uint8_t"] := fun _ => rfl
  rw [definition_toList]
  exact htype.append ((tokenised_declarator h).append
    (hblank.append ((tokenised_alignment a).append hbody)))

theorem readDefinition?_tokens (a : ByteArray) :
    readDefinition? (definitionTokens a) = some a.defined := by
  change (readDeclarator? _).bind _ = _
  rw [readDeclarator?_tokens, Option.bind_some]
  change (readAlignment? _).bind _ = _
  rw [readAlignment?_tokens, Option.bind_some]
  change (readInitializer? _).bind _ = _
  rw [readInitializer?_tokens, Option.bind_some]
  rfl

/-! ## Declarations -/

def ByteArray.declared (a : ByteArray) : Declaration :=
  ⟨a.name ++ "_size", a.data.length, a.name, a.addressSpace, a.data.length⟩

def macroRow (a : ByteArray) : List Char :=
  "#define ".toList ++ ((a.name ++ "_size").toList ++
    (" (".toList ++ (Text.decimal a.data.length ++ [')'])))

def externRow (a : ByteArray) : List Char :=
  "extern const uint8_t ".toList ++ (declaratorText a ++ [';'])

theorem declaration_toList (a : ByteArray) :
    (declaration a).toList = (macroRow a ++ ['\n']) ++ (externRow a ++ ['\n']) := by
  have htext : declaration a =
      ("#define " ++ a.name ++ "_size (" ++ toString a.data.length ++ ")\n") ++
        ("extern const uint8_t " ++ qualifier a ++ a.name ++ "[" ++ toString a.data.length ++
          "];\n") := by
    simp only [declaration, toString]
  have hopening : "_size (".toList = "_size".toList ++ " (".toList := rfl
  have hbracket : "[".toList = ['['] := rfl
  have hclosed : ")\n".toList = [')', '\n'] := rfl
  have hended : "];\n".toList = [']', ';', '\n'] := rfl
  rw [htext]
  unfold macroRow externRow declaratorText
  simp only [String.toList_append, toString_toList, hopening, hbracket, hclosed, hended,
    List.append_assoc, List.cons_append, List.nil_append]

theorem readMacroText?_number (n : Nat) :
    readMacroText? (" (".toList ++ (Text.decimal n ++ [')'])) = some n := by
  have hvalue : tokens (" (".toList ++ (Text.decimal n ++ [')'])) =
      [.mark '(', .word (String.ofList (Text.decimal n)), .mark ')'] := by
    change .mark '(' :: tokens (Text.decimal n ++ ')' :: []) = _
    rw [tokens_word (isWord_decimal n) rfl]
    rfl
  have hblank : (" (".toList ++ (Text.decimal n ++ [')'])).head? = some ' ' := rfl
  rw [readMacroText?, if_pos hblank, hvalue]
  exact number?_decimal n

theorem readMacro?_number {name : String} (h : ∀ c ∈ name.toList, isIdentifierChar c = true)
    (n : Nat) :
    readMacro? ("#define ".toList ++ (name.toList ++ (" (".toList ++ (Text.decimal n ++ [')'])))) =
      some (name, n) := by
  have hblank : " (".toList = [' ', '('] := rfl
  have hstop : ¬ isIdentifierChar ' ' = true := by decide
  have hvalue := readMacroText?_number n
  rw [hblank] at hvalue ⊢
  rw [readMacro?, Text.isPrefixOf?_append, Option.bind_some,
    List.dropWhile_append_of_pos h, List.takeWhile_append_of_pos h, List.cons_append,
    List.dropWhile_cons_of_neg hstop, List.takeWhile_cons_of_neg hstop, List.append_nil,
    String.ofList_toList, ← List.cons_append, hvalue, Option.map_some]

theorem isIdentifierChar_of_mem_macroName (h : a.Named) :
    ∀ c ∈ (a.name ++ "_size").toList, isIdentifierChar c = true := by
  have hsuffix : "_size".toList.all isIdentifierChar = true := by decide +kernel
  rw [String.toList_append]
  exact List.forall_mem_append.mpr
    ⟨(isWord_of_isIdentifier h.name).2, List.all_eq_true.mp hsuffix⟩

theorem readMacro?_macroRow (h : a.Named) :
    readMacro? (macroRow a) = some (a.name ++ "_size", a.data.length) :=
  readMacro?_number (isIdentifierChar_of_mem_macroName h) a.data.length

theorem readDeclaration?_rows (h : a.Named) :
    readDeclaration? (macroRow a) (externRow a) = some a.declared := by
  have hextern : tokens (externRow a) =
      .word "extern" :: .word "const" :: .word "uint8_t" :: (declaratorTokens a ++ [Token.mark ';']) := by
    change .word "extern" :: .word "const" :: .word "uint8_t" :: tokens (declaratorText a ++ [';']) = _
    rw [tokenised_declarator h]
    rfl
  rw [readDeclaration?, readMacro?_macroRow h, hextern]
  change (readDeclarator? _).bind _ = _
  rw [readDeclarator?_tokens, Option.bind_some]
  rfl

end FirmwareKit.Embed
