import FirmwareKit.Proofs.Sequence
import FirmwareKit.Yaml.Document
set_option autoImplicit false

namespace FirmwareKit.Yaml

def Brings {α : Type} (classes : List String) (x : Except Refusal α) : Prop :=
  ∀ f, x = .error (.system f) → f.className ∈ classes

namespace Brings
variable {α β : Type} {classes : List String} {x : Except Refusal α}

theorem ok (a : α) : Brings classes (.ok a) := nofun

theorem malformed : Brings classes (.error .malformed : Except Refusal α) := nofun

theorem system {f : SystemFault} (h : f.className ∈ classes) :
    Brings classes (.error (.system f) : Except Refusal α) := by
  rintro _ ⟨⟩
  exact h

theorem bind {f : α → Except Refusal β} (hx : Brings classes x) (hf : ∀ a, Brings classes (f a)) :
    Brings classes (x >>= f) := by
  intro c h
  rcases (Outcome.bind_eq_error_iff _ _ _).mp h with h | ⟨a, _, h⟩
  · exact hx c h
  · exact hf a c h

theorem map {f : α → β} (hx : Brings classes x) : Brings classes (x.map f) := by
  cases x with
  | ok a => exact ok (f a)
  | error r =>
    rintro c ⟨⟩
    exact hx c rfl

theorem ite {y : Except Refusal α} {p : Prop} [Decidable p] (hx : Brings classes x)
    (hy : Brings classes y) : Brings classes (if p then x else y) := by
  split
  · exact hx
  · exact hy

theorem mapM {f : α → Except Refusal β} (hf : ∀ a, Brings classes (f a)) (as : List α) :
    Brings classes (as.mapM f) := by
  intro c h
  obtain ⟨a, _, ha⟩ := Outcome.exists_of_mapM_eq_error h
  exact hf a c ha

theorem mono {others : List String} (h : classes ⊆ others) (hx : Brings classes x) :
    Brings others x :=
  fun f hf => h (hx f hf)

end Brings

/-! Tokens -/

def tokenClasses : List String := ["ValueError", "OverflowError"]

theorem className_codeFault (code : Nat) : (codeFault code).className ∈ tokenClasses := by
  rw [codeFault]
  split <;> decide

theorem className_toFault (r : Numeral.Refusal) (base : Nat) (cs : List Char) :
    (r.toFault base cs).className = "ValueError" := by
  cases r <;> rfl

theorem brings_quotedBreaks (fuel : Nat) (c : Cursor) :
    Brings tokenClasses (quotedBreaks fuel c) := by
  induction fuel generalizing c with
  | zero => exact .ok _
  | succ fuel ih =>
    rw [quotedBreaks]
    refine .ite .malformed ?_
    dsimp only
    split
    · exact .ok _
    · exact (ih _).map

theorem brings_quotedSpaces (c : Cursor) : Brings tokenClasses (quotedSpaces c) := by
  unfold quotedSpaces
  dsimp only
  split
  · exact .malformed
  · exact .ok _
  · exact (brings_quotedBreaks _ _).map

theorem brings_escape (c : Cursor) : Brings tokenClasses (escape c) := by
  unfold escape
  split
  · exact .malformed
  · dsimp only
    split
    · exact .ok _
    · refine .ite ?_ .malformed
      split
      · exact .ite (.ok _) (.system (className_codeFault _))
      · exact .malformed
    · split
      · exact brings_quotedBreaks _ _
      · exact .malformed

/-- A part of a text before what is read behind it. -/
theorem brings_more {r : Except Refusal (List Char × Cursor)} (h : Brings tokenClasses r)
    (part : List Char) : Brings tokenClasses (do
      let (text, c) ← r
      pure (part ++ text, c)) :=
  h.bind fun _ => .ok _

theorem brings_quotedScalar (double : Bool) (fuel : Nat) (c : Cursor) :
    Brings tokenClasses (quotedScalar double fuel c) := by
  induction fuel generalizing c with
  | zero => exact .malformed
  | succ fuel ih =>
    have hmore (part : List Char) (c : Cursor) := brings_more (ih c) part
    unfold quotedScalar
    dsimp only
    split
    · exact .malformed
    · refine .ite ((brings_quotedSpaces _).bind fun _ => hmore _ _) (.ite ?_ (.ite ?_ (hmore _ _)))
      · exact (brings_escape _).bind fun _ => hmore _ _
      · exact .ite (hmore _ _) (.ok _)

theorem brings_increment (c : Cursor) : Brings tokenClasses (increment c) := by
  unfold increment
  split
  · exact .ite .malformed (.ite (.ok _) (.ok _))
  · exact .ok _

theorem brings_blockSigns (c : Cursor) : Brings tokenClasses (blockSigns c) := by
  unfold blockSigns
  dsimp only
  split
  · refine (brings_increment _).map.bind fun r => ?_
    exact .ite (.ok _) .malformed
  · refine (brings_increment _).bind fun r => ?_
    split <;> exact .ite (.ok _) .malformed

theorem brings_blockScalar (folded : Bool) (indent : Int) (c : Cursor) :
    Brings tokenClasses (blockScalar folded indent c) := by
  unfold blockScalar
  refine (brings_blockSigns c).bind fun _ => ?_
  dsimp only
  split
  · exact .ok _
  · exact .malformed

namespace Lexer

/-! Directives, anchors and tags -/

theorem brings_number (c : Cursor) : Brings tokenClasses (number c) := by
  unfold number
  dsimp only
  split
  · exact .malformed
  · split
    · exact .ok _
    · exact .system (by rw [className_toFault]; decide)

theorem brings_versionDirective (c : Cursor) : Brings tokenClasses (versionDirective c) := by
  unfold versionDirective
  refine (brings_number _).bind fun _ => .ite .malformed ?_
  exact (brings_number _).bind fun _ => .ite (.ok _) .malformed

theorem brings_tagHandle (c : Cursor) : Brings tokenClasses (tagHandle c) := by
  unfold tagHandle
  exact .ite .malformed (.ite (.ok _) (.ite (.ok _) .malformed))

theorem brings_uriEscapes (fuel : Nat) (c : Cursor) : Brings tokenClasses (uriEscapes fuel c) := by
  induction fuel generalizing c with
  | zero => exact .ok _
  | succ fuel ih =>
    unfold uriEscapes
    refine .ite ?_ (.ok _)
    dsimp only
    split
    · exact (ih _).map
    · exact .malformed

theorem brings_uriPart (fuel : Nat) (c : Cursor) : Brings tokenClasses (uriPart fuel c) := by
  induction fuel generalizing c with
  | zero => exact .ok _
  | succ fuel ih =>
    unfold uriPart
    refine .ite ((brings_uriEscapes _ _).bind fun _ => ?_) (.ok _)
    dsimp only
    split
    · exact .malformed
    · exact (ih _).bind fun _ => .ok _

theorem brings_uri (c : Cursor) : Brings tokenClasses (uri c) :=
  (brings_uriPart _ _).bind fun _ => .ite .malformed (.ok _)

theorem brings_tagDirective (c : Cursor) : Brings tokenClasses (tagDirective c) := by
  unfold tagDirective
  refine (brings_tagHandle _).bind fun _ => .ite .malformed ?_
  exact (brings_uri _).bind fun _ => .ite (.ok _) .malformed

/-- Behind a directive the line ends. -/
theorem brings_endLine (r : Directive × Cursor) : Brings tokenClasses (match r.2.endLine? with
    | some c => pure (r.1, c)
    | _ => .error .malformed) := by
  split
  · exact .ok _
  · exact .malformed

theorem brings_directive (c : Cursor) : Brings tokenClasses (directive c) := by
  unfold directive
  refine .ite .malformed ?_
  dsimp only
  split
  · exact (brings_versionDirective _).bind fun r => brings_endLine r
  · exact (brings_tagDirective _).bind fun r => brings_endLine r
  · exact (Brings.ok _).bind fun r => brings_endLine r

theorem brings_anchorName (c : Cursor) : Brings tokenClasses (anchorName c) := by
  unfold anchorName
  exact .ite .malformed (.ok _)

theorem brings_tag (c : Cursor) : Brings tokenClasses (tag c) := by
  have hend (r : Token × Cursor) :
      Brings tokenClasses (if isSpaceOrBreak r.2.peek then pure r else .error .malformed) :=
    .ite (.ok _) .malformed
  unfold tag
  refine .ite ?_ (.ite ((Brings.ok _).bind fun r => hend r) ?_)
  · refine (brings_uri _).bind fun _ => .ite ((Brings.ok _).bind fun r => hend r) ?_
    exact Brings.malformed.bind fun r => hend r
  · have hsuffix (r : List Char × Cursor) : Brings tokenClasses (uri r.2 >>= fun suffix =>
        if isSpaceOrBreak suffix.2.peek then
          pure (Token.tag (some (String.ofList r.1)) (String.ofList suffix.1), suffix.2)
        else .error .malformed) :=
      (brings_uri _).bind fun _ => .ite (.ok _) .malformed
    refine .ite ?_ ?_
    · exact (brings_tagHandle _).bind fun r => hsuffix r
    · exact (Brings.ok _).bind fun r => hsuffix r

/-! Steps of the lexer -/

variable (l : Lexer)

theorem brings_dropStale : Brings tokenClasses l.dropStale := by
  unfold dropStale
  exact .ite .malformed (.ok _)

theorem brings_dropKeyPlace : Brings tokenClasses l.dropKeyPlace := by
  unfold dropKeyPlace
  split
  · exact .ite .malformed (.ok _)
  · exact .ok _

theorem brings_saveKeyPlace : Brings tokenClasses l.saveKeyPlace := by
  unfold saveKeyPlace
  exact .ite ((brings_dropKeyPlace l).bind fun _ => .ok _) (.ok _)

theorem brings_documentMark (t : Token) : Brings tokenClasses (l.documentMark t) :=
  (brings_dropKeyPlace _).bind fun _ => .ok _

theorem brings_directiveToken : Brings tokenClasses l.directiveToken :=
  (brings_dropKeyPlace _).bind fun _ => (brings_directive _).bind fun _ => .ok _

theorem brings_openFlow (t : Token) : Brings tokenClasses (l.openFlow t) :=
  (brings_saveKeyPlace _).bind fun _ => .ok _

theorem brings_closeFlow (t : Token) : Brings tokenClasses (l.closeFlow t) := by
  unfold closeFlow
  exact .ite ((brings_dropKeyPlace _).bind fun _ => .ok _) .malformed

theorem brings_simpleMark (t : Token) (allowed : Bool) :
    Brings tokenClasses (l.simpleMark t allowed) :=
  (brings_dropKeyPlace _).bind fun _ => .ok _

theorem brings_blockEntry : Brings tokenClasses l.blockEntry := by
  unfold blockEntry
  exact .ite (brings_simpleMark _ _ _) (.ite (brings_simpleMark _ _ _) .malformed)

theorem brings_keyMark : Brings tokenClasses l.keyMark := by
  unfold keyMark
  exact .ite (brings_simpleMark _ _ _) (.ite (brings_simpleMark _ _ _) .malformed)

theorem brings_valueMark : Brings tokenClasses l.valueMark := by
  unfold valueMark
  split
  · exact .ok _
  · exact .ite (brings_simpleMark _ _ _) (.ite (brings_simpleMark _ _ _) .malformed)

theorem brings_keyToken {read : Cursor → Except Refusal (Token × Cursor)}
    (h : ∀ c, Brings tokenClasses (read c)) : Brings tokenClasses (l.keyToken read) :=
  (brings_saveKeyPlace _).bind fun _ => (h _).bind fun _ => .ok _

theorem brings_block (folded : Bool) : Brings tokenClasses (l.block folded) :=
  (brings_dropKeyPlace _).bind fun _ => (brings_blockScalar _ _ _).bind fun _ => .ok _

theorem brings_quoted (double : Bool) : Brings tokenClasses (l.quoted double) :=
  brings_keyToken l fun _ => (brings_quotedScalar _ _ _).bind fun _ => .ok _

theorem brings_plain : Brings tokenClasses l.plain :=
  (brings_saveKeyPlace _).bind fun _ => .ok _

theorem brings_next : Brings tokenClasses l.next := by
  unfold next
  refine (brings_dropStale _).bind fun l => ?_
  dsimp only
  split
  · exact .ok _
  · have hname (make : String → Token) (c : Cursor) :
        Brings tokenClasses ((anchorName c).map fun r => (make r.1, r.2)) :=
      (brings_anchorName c).map
    exact Brings.map <| .ite (brings_directiveToken _) <| .ite (brings_documentMark _ _) <|
      .ite (brings_documentMark _ _) <| .ite (brings_openFlow _ _) <|
      .ite (brings_openFlow _ _) <| .ite (brings_closeFlow _ _) <|
      .ite (brings_closeFlow _ _) <| .ite (brings_simpleMark _ _ _) <|
      .ite (brings_blockEntry _) <| .ite (brings_keyMark _) <| .ite (brings_valueMark _) <|
      .ite (brings_keyToken _ (hname .alias)) <| .ite (brings_keyToken _ (hname .anchor)) <|
      .ite (brings_keyToken _ brings_tag) <| .ite (brings_block _ _) <|
      .ite (brings_block _ _) <| .ite (brings_quoted _ _) <| .ite (brings_quoted _ _) <|
      .ite (brings_plain _) .malformed

theorem className_of_run {fuel : Nat} {l : Lexer} {f : SystemFault}
    (h : (run fuel l).2 = some (.system f)) : f.className ∈ tokenClasses := by
  induction fuel generalizing l with
  | zero => cases h
  | succ fuel ih =>
    rw [run] at h
    cases hnext : l.next with
    | error r =>
      rw [hnext] at h
      cases h
      exact brings_next l f hnext
    | ok after =>
      rw [hnext] at h
      cases after with
      | some l => exact ih h
      | none =>
        cases hend : (l.unwind (-1)).dropKeyPlace with
        | ok l => simp [hend] at h
        | error r =>
          simp only [hend] at h
          cases h
          exact brings_dropKeyPlace _ f hend

end Lexer

theorem className_of_tokens {text : List Char} {f : SystemFault}
    (h : (tokens text).2 = some (.system f)) : f.className ∈ tokenClasses := by
  rw [tokens] at h
  split at h
  · exact Lexer.className_of_run h
  · cases h

/-! Nodes -/

/-- What making a node may bring: numbers without digits, of too many or too large, words that are
no truth values, and times that there are not. -/
def nodeClasses : List String :=
  ["ValueError", "OverflowError", "IndexError", "KeyError", "AttributeError", "TypeError"]

theorem brings_readNumber (base : Nat) (cs : List Char) :
    Brings nodeClasses (readNumber base cs) := by
  unfold readNumber
  split
  · exact .ok _
  · exact .system (by rw [className_toFault]; decide)

theorem brings_readFloat (cs : List Char) : Brings nodeClasses (readFloat cs) := by
  unfold readFloat
  dsimp only
  split
  · exact .ok _
  · exact .system (by simp [SystemFault.className, nodeClasses])

theorem brings_unsigned (text : String) : Brings nodeClasses (unsigned text) := by
  unfold unsigned
  split
  · exact .system (by decide)
  all_goals exact .ok _

theorem brings_integerValue (text : String) : Brings nodeClasses (integerValue text) := by
  refine (brings_unsigned text).bind fun r => .bind ?_ fun _ => .ok _
  unfold integerMagnitude
  split
  · exact .system (by decide)
  · exact .ok _
  · exact brings_readNumber _ _
  · exact brings_readNumber _ _
  · exact brings_readNumber _ _
  · exact .ite ((Brings.mapM (brings_readNumber 10) _).bind fun _ => .ok _) (brings_readNumber _ _)

theorem brings_floatOf (n : Int) : Brings nodeClasses (floatOf n) := by
  unfold floatOf
  split
  · exact .system (by simp [SystemFault.className, nodeClasses])
  · exact .ok _

theorem brings_baseSixtyFrom (unit : Int) (sum : Binary64) (parts : List Binary64) :
    Brings nodeClasses (baseSixtyFrom unit sum parts) := by
  induction parts generalizing unit sum with
  | nil => exact .ok _
  | cons x rest ih => exact (brings_floatOf unit).bind fun _ => ih _ _

theorem brings_floatValue (text : String) : Brings nodeClasses (floatValue text) := by
  refine (brings_unsigned text).bind fun r => .bind ?_ fun _ => .ok _
  unfold floatMagnitude
  refine .ite (.ok _) (.ite (.ok _) (.ite ?_ (brings_readFloat _)))
  exact (Brings.mapM brings_readFloat _).bind fun _ => brings_baseSixtyFrom _ _ _

theorem brings_boolValue (text : String) : Brings nodeClasses (boolValue text) := by
  unfold boolValue
  exact .ite (.ok _) (.ite (.ok _) (.system (by simp [SystemFault.className, nodeClasses])))

theorem brings_momentValue (text : String) : Brings nodeClasses (momentValue text) := by
  unfold momentValue
  split
  · exact .system (by simp [SystemFault.className, nodeClasses])
  · split
    · exact .system (by simp [SystemFault.className, nodeClasses])
    · exact .ok _

theorem brings_binaryValue (text : String) : Brings nodeClasses (binaryValue text) := by
  unfold binaryValue
  split
  · exact .ok _
  · exact .malformed

theorem brings_scalarValue (kind : Kind) (text : String) :
    Brings nodeClasses (scalarValue kind text) := by
  cases kind with
  | null | text => exact .ok _
  | bool => exact (brings_boolValue text).map
  | int => exact (brings_integerValue text).map
  | float => exact (brings_floatValue text).map
  | _ => exact .malformed

theorem brings_make (n : Node) : Brings nodeClasses n.make := by
  unfold Node.make
  split
  · exact .malformed
  · split
    · exact (brings_momentValue _).map
    · exact .system (by simp [SystemFault.className, nodeClasses])
    · exact brings_binaryValue _
    · exact brings_scalarValue _ _

end FirmwareKit.Yaml
