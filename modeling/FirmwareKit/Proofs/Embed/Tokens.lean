import FirmwareKit.Embed.Identifier
import FirmwareKit.Proofs.Text.Integer
import FirmwareKit.Proofs.Text.Rows
set_option autoImplicit false

namespace FirmwareKit.Embed

inductive Token where
  | word (text : String)
  | mark (c : Char)
deriving DecidableEq, Repr

def Token.word? : Token → Option String
  | .word text => some text
  | .mark _ => none

def ended : List Char → List Token
  | [] => []
  | cs => [.word (String.ofList cs)]

def tokensAfter (word : List Char) : List Char → List Token
  | [] => ended word
  | c :: rest =>
    if isIdentifierChar c then tokensAfter (word ++ [c]) rest
    else ended word ++
      if c.isWhitespace then tokensAfter [] rest else .mark c :: tokensAfter [] rest

def tokens (cs : List Char) : List Token := tokensAfter [] cs

/-- A text whose tokens do not depend on what follows it. -/
def Tokenised (text : List Char) (ts : List Token) : Prop :=
  ∀ rest, tokens (text ++ rest) = ts ++ tokens rest

theorem Tokenised.append {text more : List Char} {ts us : List Token} (h : Tokenised text ts)
    (hmore : Tokenised more us) : Tokenised (text ++ more) (ts ++ us) := by
  intro rest
  rw [List.append_assoc, h, hmore, List.append_assoc]

theorem Tokenised.nil : Tokenised [] [] := fun _ => rfl

theorem Tokenised.eq {text : List Char} {ts : List Token} (h : Tokenised text ts) :
    tokens text = ts := by
  have hnothing := h []
  rw [List.append_nil] at hnothing
  exact hnothing.trans (List.append_nil ts)

def IsWord (cs : List Char) : Prop := cs ≠ [] ∧ ∀ c ∈ cs, isIdentifierChar c = true

theorem isWord_of_isIdentifier {s : String} (h : isIdentifier s = true) : IsWord s.toList := by
  rw [isIdentifier] at h
  cases hs : s.toList with
  | nil =>
    rw [hs] at h
    cases h
  | cons c rest =>
    rw [hs] at h
    simp only [Bool.and_eq_true_iff, List.all_eq_true] at h
    exact ⟨List.cons_ne_nil c rest, List.forall_mem_cons.mpr ⟨h.1.1, h.2⟩⟩

theorem isIdentifierChar_of_isDigit {c : Char} (h : c.isDigit = true) :
    isIdentifierChar c = true := by
  simp [isIdentifierChar, Char.isAlphanum, h]

theorem isWord_decimal (n : Nat) : IsWord (Text.decimal n) :=
  ⟨Text.decimal_ne_nil n, fun _ h => isIdentifierChar_of_isDigit (Text.isDigit_of_mem_decimal h)⟩

theorem tokensAfter_append (word : List Char) {cs : List Char}
    (h : ∀ c ∈ cs, isIdentifierChar c = true) (rest : List Char) :
    tokensAfter word (cs ++ rest) = tokensAfter (word ++ cs) rest := by
  induction cs generalizing word with
  | nil => rw [List.nil_append, List.append_nil]
  | cons c cs ih =>
    obtain ⟨hc, hcs⟩ := List.forall_mem_cons.mp h
    rw [List.cons_append, tokensAfter, if_pos hc, ih _ hcs, List.append_assoc]
    rfl

theorem tokensAfter_of_not_identifier {c : Char} (h : isIdentifierChar c = false)
    (word rest : List Char) : tokensAfter word (c :: rest) = ended word ++ tokens (c :: rest) := by
  have hc : ¬ isIdentifierChar c = true := by rw [h]; exact Bool.false_ne_true
  rw [tokensAfter, if_neg hc, tokens, tokensAfter, if_neg hc]
  rfl

/-- A word ends where another character stands. -/
theorem tokens_word {cs : List Char} (h : IsWord cs) {c : Char} (hc : isIdentifierChar c = false)
    (rest : List Char) :
    tokens (cs ++ c :: rest) = .word (String.ofList cs) :: tokens (c :: rest) := by
  obtain ⟨hne, hcs⟩ := h
  rw [tokens, tokensAfter_append [] hcs, List.nil_append, tokensAfter_of_not_identifier hc]
  cases cs with
  | nil => exact absurd rfl hne
  | cons => rfl

theorem tokenised_word_blank {s : String} (h : isIdentifier s = true) :
    Tokenised (s.toList ++ [' ']) [.word s] := by
  intro rest
  rw [List.append_assoc]
  change tokens (s.toList ++ ' ' :: rest) = _
  rw [tokens_word (isWord_of_isIdentifier h) rfl, String.ofList_toList]
  rfl

theorem tokens_lineEnd (cs : List Char) : tokens (cs ++ ['\n']) = tokens cs := by
  have hafter (word : List Char) : tokensAfter word (cs ++ ['\n']) = tokensAfter word cs := by
    induction cs generalizing word with
    | nil => exact List.append_nil _
    | cons c cs ih => rw [List.cons_append, tokensAfter, tokensAfter, ih, ih]
  exact hafter []

/-- Splitting a text into lines keeps its tokens, also in the middle of a word. -/
theorem tokensAfter_splitOnChar (word cs : List Char) :
    (match Text.splitOnChar '\n' cs with
      | [] => []
      | line :: more => tokensAfter word line ++ more.flatMap tokens) = tokensAfter word cs := by
  induction cs generalizing word with
  | nil => exact List.append_nil _
  | cons c cs ih =>
    rw [Text.splitOnChar]
    by_cases hc : c = '\n'
    · subst hc
      have hrest := ih []
      rw [if_pos rfl, tokensAfter_of_not_identifier rfl]
      cases hsplit : Text.splitOnChar '\n' cs with
      | nil => exact absurd hsplit (Text.splitOnChar_ne_nil '\n' cs)
      | cons line more =>
        rw [hsplit] at hrest
        exact congrArg (ended word ++ ·) hrest
    · rw [if_neg hc]
      cases hsplit : Text.splitOnChar '\n' cs with
      | nil => exact absurd hsplit (Text.splitOnChar_ne_nil '\n' cs)
      | cons line more =>
        have hword := ih (word ++ [c])
        have hnone := ih []
        rw [hsplit] at hword hnone
        simp only [tokensAfter]
        split
        · exact hword
        · rw [List.append_assoc]
          refine congrArg (ended word ++ ·) ?_
          split
          · exact hnone
          · exact congrArg (Token.mark c :: ·) hnone

theorem flatMap_tokens_splitOnChar (cs : List Char) :
    (Text.splitOnChar '\n' cs).flatMap tokens = tokens cs := by
  have h := tokensAfter_splitOnChar [] cs
  cases hsplit : Text.splitOnChar '\n' cs with
  | nil => exact absurd hsplit (Text.splitOnChar_ne_nil '\n' cs)
  | cons line more =>
    rw [hsplit] at h
    exact h

theorem flatMap_tokens_rows {cs : List Char} (h : Text.Ended cs) :
    (Text.rows cs).flatMap tokens = tokens cs := by
  obtain ⟨body, rfl⟩ := List.getLast?_eq_some_iff.mp h
  have hall := flatMap_tokens_splitOnChar (body ++ ['\n'])
  rw [Text.splitOnChar_append] at hall
  rw [← hall, Text.rows, Text.splitOnChar_append]
  change ((Text.splitOnChar '\n' body ++ [[]]).dropLast).flatMap tokens = List.flatMap tokens (_ ++ [[]])
  rw [List.dropLast_concat, List.flatMap_append]
  exact (List.append_nil _).symm

end FirmwareKit.Embed
