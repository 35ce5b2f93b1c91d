import Mathlib.Data.List.Chain
set_option autoImplicit false

/-!
# Reading of rules

A rule is read as the build tool reads it: targets before the first colon and prerequisites behind
it, all separated by blanks and continued lines. A backslash takes their meaning from blanks, colons
and line ends; further marks of the build tool, such as dollar signs, are not looked at.
-/
namespace FirmwareKit.Build

/-! ## Reading -/

/-- What a rule is made of once the backslashes have done their work. -/
inductive Piece where
  | char (c : Char)
  | gap
  | colon
  | lineEnd
deriving DecidableEq, Repr

def pieceOf (c : Char) : Piece :=
  if c = ' ' ∨ c = '\t' then .gap
  else if c = ':' then .colon
  else if c = '\n' then .lineEnd
  else .char c

/-- A mark behind a backslash is a character; a line end is the gap that continues the line. -/
def escaped (c : Char) : Piece := if c = '\n' then .gap else .char c

def pieces (backslashes : Nat) : List Char → List Piece
  | [] => List.replicate backslashes (.char '\\')
  | c :: rest =>
    if c = '\\' then pieces (backslashes + 1) rest
    else if pieceOf c = .char c then
      List.replicate backslashes (.char '\\') ++ .char c :: pieces 0 rest
    else
      List.replicate (backslashes / 2) (.char '\\') ++
        (if backslashes % 2 = 0 then pieceOf c else escaped c) :: pieces 0 rest

/-- The words between gaps, after the characters of one that has begun. A further colon is a
character. -/
def wordsFrom (begun : List Char) : List Piece → List (List Char)
  | [] => if begun.isEmpty then [] else [begun]
  | .char c :: rest => wordsFrom (begun ++ [c]) rest
  | .colon :: rest => wordsFrom (begun ++ [':']) rest
  | .gap :: rest | .lineEnd :: rest =>
    if begun.isEmpty then wordsFrom [] rest else begun :: wordsFrom [] rest

def words (ps : List Piece) : List String := (wordsFrom [] ps).map String.ofList

def readRule? (text : String) : Option (List String × List String) :=
  let ps := pieces 0 text.toList
  if ps.dropWhile (· ≠ .lineEnd) = [.lineEnd] then
    let line := ps.takeWhile (· ≠ .lineEnd)
    match line.dropWhile (· ≠ .colon) with
    | [] => none
    | _ :: behind => some (words (line.takeWhile (· ≠ .colon)), words behind)
  else none

example : readRule? "all: \\\n  a\\ b.c \\\n  d.h\n" = some (["all"], ["a b.c", "d.h"]) := by
  decide +kernel

/-- Every backslash stands for itself, also when a mark follows the characters. -/
def Bare (cs : List Char) : Prop :=
  (cs ++ [' ']).IsChain fun a b => a = '\\' → pieceOf b = .char b

instance (cs : List Char) : Decidable (Bare cs) :=
  inferInstanceAs (Decidable (List.IsChain _ _))

structure IsPrerequisite (path : String) : Prop where
  not_empty : path.toList ≠ []
  no_gap : ∀ c ∈ path.toList, c ≠ ' ' ∧ c ≠ '\t' ∧ c ≠ '\n'
  bare : Bare path.toList

structure IsTarget (path : String) : Prop extends IsPrerequisite path where
  no_colon : ':' ∉ path.toList

instance (path : String) : Decidable (IsPrerequisite path) :=
  decidable_of_iff (path.toList ≠ [] ∧
      (path.toList.all fun c => c ≠ ' ' ∧ c ≠ '\t' ∧ c ≠ '\n') = true ∧ Bare path.toList)
    ⟨fun ⟨hne, hgap, hbare⟩ => ⟨hne, by simpa using hgap, hbare⟩,
      fun h => ⟨h.not_empty, by simpa using h.no_gap, h.bare⟩⟩

instance (path : String) : Decidable (IsTarget path) :=
  decidable_of_iff (IsPrerequisite path ∧ ':' ∉ path.toList)
    ⟨fun ⟨h, hcolon⟩ => ⟨h, hcolon⟩, fun h => ⟨h.toIsPrerequisite, h.no_colon⟩⟩

/-! ## Pieces of a text -/

section Pieces
variable {c m : Char} {k : Nat} {cs rest : List Char}

theorem char_of_pieceOf {x : Char} (h : pieceOf x = .char c) : x = c ∧ pieceOf c = .char c := by
  have hx : x = c := by
    unfold pieceOf at h
    split at h
    · cases h
    split at h
    · cases h
    split at h
    · cases h
    · cases h
      rfl
  exact ⟨hx, hx ▸ h⟩

theorem pieceOf_eq_char_iff :
    pieceOf c = .char c ↔ (c ≠ ' ' ∧ c ≠ '\t' ∧ c ≠ '\n') ∧ c ≠ ':' := by
  unfold pieceOf
  split
  case isTrue h => rcases h with rfl | rfl <;> simp
  case isFalse h =>
    obtain ⟨hblank, htab⟩ := not_or.mp h
    by_cases hcolon : c = ':'
    · simp [hcolon]
    · by_cases hend : c = '\n' <;> simp [hblank, htab, hcolon, hend]

theorem mem_of_colon (h : .colon ∈ cs.map pieceOf) : ':' ∈ cs := by
  obtain ⟨x, hx, hpiece⟩ := List.mem_map.mp h
  by_cases hcolon : x = ':'
  · exact hcolon ▸ hx
  · by_cases hgap : x = ' ' ∨ x = '\t' <;> by_cases hend : x = '\n' <;>
      simp [pieceOf, hcolon, hgap, hend] at hpiece

theorem mem_of_lineEnd (h : .lineEnd ∈ cs.map pieceOf) : '\n' ∈ cs := by
  obtain ⟨x, hx, hpiece⟩ := List.mem_map.mp h
  by_cases hend : x = '\n'
  · exact hend ▸ hx
  · by_cases hgap : x = ' ' ∨ x = '\t' <;> by_cases hcolon : x = ':' <;>
      simp [pieceOf, hcolon, hgap, hend] at hpiece

theorem ne_backslash_of_mark (hmark : pieceOf m ≠ .char m) : m ≠ '\\' := by
  rintro rfl
  exact hmark rfl

theorem pieces_of_mark (hmark : pieceOf m ≠ .char m) :
    pieces k (m :: rest) = List.replicate (k / 2) (Piece.char '\\') ++
      (if k % 2 = 0 then pieceOf m else escaped m) :: pieces 0 rest := by
  rw [pieces, if_neg (ne_backslash_of_mark hmark), if_neg hmark]

/-- A character before which backslashes stand for themselves. -/
theorem pieces_of_plain (hc : c ≠ '\\') (h : k = 0 ∨ pieceOf c = .char c) :
    pieces k (c :: rest) = (List.replicate k '\\' ++ [c]).map pieceOf ++ pieces 0 rest := by
  have hbackslashes : (List.replicate k '\\').map pieceOf = List.replicate k (.char '\\') :=
    List.map_replicate
  rw [List.map_append, hbackslashes, List.append_assoc, List.map_singleton, List.singleton_append]
  by_cases hplain : pieceOf c = .char c
  · rw [pieces, if_neg hc, if_pos hplain, hplain]
  · obtain rfl := h.resolve_right hplain
    exact pieces_of_mark hplain

/-- How many backslashes are left as characters. -/
def kept (ps : List Piece) : Nat := ps.count (.char '\\')

theorem kept_append (ps qs : List Piece) : kept (ps ++ qs) = kept ps + kept qs := List.count_append

theorem kept_cons_of_ne {p : Piece} {ps : List Piece} (hp : p ≠ .char '\\') :
    kept (p :: ps) = kept ps := List.count_cons_of_ne hp

theorem kept_replicate (n : Nat) : kept (List.replicate n (.char '\\')) = n :=
  List.count_replicate_self

theorem kept_map_pieceOf (cs : List Char) : kept (cs.map pieceOf) = cs.count '\\' := by
  induction cs with
  | nil => rfl
  | cons c cs ih =>
    by_cases hc : c = '\\'
    · subst hc
      rw [List.count_cons_self, ← ih]
      exact List.count_cons_self
    · have hpiece : pieceOf c ≠ .char '\\' := fun h => hc (char_of_pieceOf h).1
      rw [List.map_cons, kept_cons_of_ne hpiece, ih, List.count_cons_of_ne hc]

theorem kept_of_mark (hmark : pieceOf m ≠ .char m) :
    kept (pieces k (m :: rest)) = k / 2 + kept (pieces 0 rest) := by
  have hm := ne_backslash_of_mark hmark
  have hpiece : (if k % 2 = 0 then pieceOf m else escaped m) ≠ .char '\\' := by
    split
    · exact fun h => hm (char_of_pieceOf h).1
    · rw [escaped]
      split
      · exact nofun
      · exact fun h => hm (Piece.char.inj h)
  rw [pieces_of_mark hmark, kept_append, kept_replicate, kept_cons_of_ne hpiece]

theorem bare_replicate_append :
    Bare (List.replicate k '\\' ++ cs) ↔
      (k ≠ 0 → ∀ c ∈ (cs ++ [' ']).head?, pieceOf c = .char c) ∧ Bare cs := by
  have hself : (List.replicate k '\\').IsChain fun a b => a = '\\' → pieceOf b = .char b :=
    List.isChain_replicate_of_rel k fun _ => rfl
  rw [Bare, Bare, List.append_assoc, List.isChain_append, List.getLast?_replicate]
  by_cases hk : k = 0
  · simp [hk]
  · simp [hk, hself, and_comm]

theorem bare_cons (hc : c ≠ '\\') : Bare (c :: cs) ↔ Bare cs := by
  simp [Bare, List.isChain_cons, hc]

theorem bare_append_cons (hc : c ≠ '\\') :
    Bare (List.replicate k '\\' ++ c :: cs) ↔ (k = 0 ∨ pieceOf c = .char c) ∧ Bare cs := by
  rw [bare_replicate_append, bare_cons hc]
  simp [or_iff_not_imp_left]

/-- What goes before a mark is read as it is, or a backslash is lost. -/
theorem pieces_append (hmark : pieceOf m ≠ .char m) (rest : List Char) (k : Nat) (cs : List Char) :
    (Bare (List.replicate k '\\' ++ cs) ∧ pieces k (cs ++ m :: rest) =
        (List.replicate k '\\' ++ cs).map pieceOf ++ pieces 0 (m :: rest)) ∨
      (¬ Bare (List.replicate k '\\' ++ cs) ∧
        kept (pieces k (cs ++ m :: rest)) < k + cs.count '\\' + kept (pieces 0 (m :: rest))) := by
  induction cs generalizing k with
  | nil =>
    by_cases hk : k = 0
    · subst hk
      exact .inl ⟨by decide, rfl⟩
    · refine .inr ⟨fun hbare => ?_, ?_⟩
      · have hblank := (bare_replicate_append.mp hbare).1 hk ' ' rfl
        exact absurd hblank (by decide)
      · rw [List.nil_append, List.count_nil, kept_of_mark hmark, kept_of_mark hmark]
        omega
  | cons c cs ih =>
    rw [List.cons_append]
    by_cases hc : c = '\\'
    · subst hc
      have hshift : List.replicate k '\\' ++ '\\' :: cs = List.replicate (k + 1) '\\' ++ cs := by
        rw [List.replicate_succ', List.append_assoc, List.singleton_append]
      rw [hshift, pieces, if_pos rfl, List.count_cons_self]
      have hnext := ih (k + 1)
      rwa [Nat.add_right_comm k, Nat.add_assoc k] at hnext
    rw [bare_append_cons hc, List.count_cons_of_ne hc]
    by_cases hplain : k = 0 ∨ pieceOf c = .char c
    · rw [pieces_of_plain hc hplain]
      rcases ih 0 with ⟨hbare, heq⟩ | ⟨hbare, hlt⟩
      · refine .inl ⟨⟨hplain, hbare⟩, ?_⟩
        rw [heq, ← List.append_assoc, ← List.map_append]
        simp
      · refine .inr ⟨fun h => hbare h.2, ?_⟩
        rw [kept_append, kept_map_pieceOf, List.count_append, List.count_replicate_self,
          List.count_singleton, if_neg (by simpa using hc)]
        omega
    · -- Of the backslashes before a mark, half are lost.
      obtain ⟨hk, hmarked⟩ := not_or.mp hplain
      have hrest : kept (pieces 0 (cs ++ m :: rest)) ≤
          cs.count '\\' + kept (pieces 0 (m :: rest)) := by
        rcases ih 0 with ⟨-, heq⟩ | ⟨-, hlt⟩
        · rw [heq, kept_append, kept_map_pieceOf]
          exact Nat.le_refl _
        · omega
      refine .inr ⟨fun h => hplain h.1, ?_⟩
      rw [kept_of_mark hmarked]
      omega

theorem pieces_of_bare (hmark : pieceOf m ≠ .char m) (hbare : Bare cs) :
    pieces 0 (cs ++ m :: rest) = cs.map pieceOf ++ pieces 0 (m :: rest) := by
  rcases pieces_append hmark rest 0 cs with ⟨-, heq⟩ | ⟨hlost, -⟩
  · exact heq
  · exact absurd hbare hlost

theorem kept_append_mark (hmark : pieceOf m ≠ .char m) (cs rest : List Char) :
    kept (pieces 0 (cs ++ m :: rest)) ≤ cs.count '\\' + kept (pieces 0 (m :: rest)) ∧
      (cs.count '\\' + kept (pieces 0 (m :: rest)) ≤ kept (pieces 0 (cs ++ m :: rest)) →
        Bare cs) := by
  rcases pieces_append hmark rest 0 cs with ⟨hbare, heq⟩ | ⟨-, hlt⟩
  · rw [heq, kept_append, kept_map_pieceOf]
    exact ⟨Nat.le_refl _, fun _ => hbare⟩
  · exact ⟨by omega, fun hle => by omega⟩

end Pieces

/-! ## Words of a text -/

/-- What stands before the first place of an element, and what stands from there on. -/
theorem takeWhile_append_of_not_mem {α : Type} [DecidableEq α] {x : α} {xs : List α} (h : x ∉ xs)
    (ys : List α) : (xs ++ x :: ys).takeWhile (· ≠ x) = xs ∧
      (xs ++ x :: ys).dropWhile (· ≠ x) = x :: ys := by
  have hall : ∀ y ∈ xs, decide (y ≠ x) = true := fun y hy =>
    decide_eq_true (fun heq => h (heq ▸ hy))
  rw [List.takeWhile_append_of_pos hall, List.dropWhile_append_of_pos hall]
  simp

theorem not_mem_takeWhile {α : Type} [DecidableEq α] (x : α) (xs : List α) :
    x ∉ xs.takeWhile (· ≠ x) := fun hmem =>
  of_decide_eq_true (List.all_eq_true.mp List.all_takeWhile x hmem) rfl

theorem eq_append_of_dropWhile {α : Type} [DecidableEq α] {x y : α} {xs ys : List α}
    (h : xs.dropWhile (· ≠ x) = y :: ys) : xs = xs.takeWhile (· ≠ x) ++ x :: ys := by
  have hhead := List.head_dropWhile_not (fun z => decide (z ≠ x)) (l := xs)
    (by rw [h]; exact List.cons_ne_nil y ys)
  simp only [h, List.head_cons, decide_eq_false_iff_not, not_not] at hhead
  subst hhead
  rw [← h, List.takeWhile_append_dropWhile]

section Words
variable {begun w : List Char} {targets dependencies : List String}

def Piece.char? : Piece → Option Char
  | .char c => some c
  | .colon => some ':'
  | .gap | .lineEnd => none

theorem flatten_wordsFrom (begun : List Char) (ps : List Piece) :
    (wordsFrom begun ps).flatten = begun ++ ps.filterMap Piece.char? := by
  induction ps generalizing begun with
  | nil => cases begun <;> simp [wordsFrom]
  | cons q rest ih =>
    cases q with
    | gap | lineEnd => cases begun <;> simp [wordsFrom, List.filterMap_cons, Piece.char?, ih]
    | colon | char => simp [wordsFrom, Piece.char?, ih]

theorem ne_nil_of_mem_wordsFrom {ps : List Piece} (h : w ∈ wordsFrom begun ps) : w ≠ [] := by
  induction ps generalizing begun with
  | nil =>
    cases begun with
    | nil => cases h
    | cons c cs =>
      cases List.mem_singleton.mp h
      exact List.cons_ne_nil c cs
  | cons q rest ih =>
    cases q with
    | colon | char => exact ih h
    | gap | lineEnd =>
      cases begun with
      | nil => exact ih h
      | cons c cs =>
        rcases List.mem_cons.mp h with rfl | h
        · exact List.cons_ne_nil c cs
        · exact ih h

theorem kept_eq_count (ps : List Piece) : kept ps = (ps.filterMap Piece.char?).count '\\' := by
  induction ps with
  | nil => rfl
  | cons q rest ih =>
    cases q with
    | gap | lineEnd => rw [kept_cons_of_ne (by decide), ih]; rfl
    | colon => rw [kept_cons_of_ne (by decide), ih]; exact (List.count_cons_of_ne (by decide)).symm
    | char c =>
      rw [kept, List.count_cons, ← kept, ih, List.filterMap_cons, Piece.char?, List.count_cons]
      simp

def backslashes (paths : List String) : Nat := (paths.flatMap String.toList).count '\\'

theorem backslashes_cons (path : String) (paths : List String) :
    backslashes (path :: paths) = path.toList.count '\\' + backslashes paths := by
  rw [backslashes, List.flatMap_cons, List.count_append, backslashes]

/-- The backslashes of the words are those that are left. -/
theorem backslashes_words {ps : List Piece} {paths : List String} (h : words ps = paths) :
    backslashes paths = kept ps := by
  have hchars : (words ps).flatMap String.toList = (wordsFrom [] ps).flatten := by
    rw [words, List.flatMap_map]
    simp only [String.toList_ofList, List.flatMap_id']
  rw [← h, backslashes, hchars, flatten_wordsFrom, List.nil_append, kept_eq_count]

theorem mem_words {ps : List Piece} {paths : List String} (h : words ps = paths) {path : String}
    (hpath : path ∈ paths) : path.toList ≠ [] ∧
      ∀ c ∈ path.toList, .char c ∈ ps ∨ (c = ':' ∧ .colon ∈ ps) := by
  subst h
  obtain ⟨w, hw, rfl⟩ := List.mem_map.mp hpath
  rw [String.toList_ofList]
  refine ⟨ne_nil_of_mem_wordsFrom hw, fun c hc => ?_⟩
  have hflat : c ∈ (wordsFrom [] ps).flatten := List.mem_flatten.mpr ⟨w, hw, hc⟩
  rw [flatten_wordsFrom, List.nil_append, List.mem_filterMap] at hflat
  obtain ⟨q, hq, hchar⟩ := hflat
  cases q with
  | gap | lineEnd => cases hchar
  | colon => cases hchar; exact .inr ⟨rfl, hq⟩
  | char => cases hchar; exact .inl hq

/-- A rule is read by its first colon and its only line end. -/
theorem readRule?_eq_some_iff {text : String} :
    readRule? text = some (targets, dependencies) ↔
      ∃ front behind,
        pieces 0 text.toList = front ++ Piece.colon :: (behind ++ [Piece.lineEnd]) ∧
        .colon ∉ front ∧ .lineEnd ∉ front ∧ .lineEnd ∉ behind ∧
        words front = targets ∧ words behind = dependencies := by
  rw [readRule?]
  dsimp only
  generalize pieces 0 text.toList = ps
  constructor
  · intro h
    split at h
    case isFalse => cases h
    case isTrue hend =>
      have hps := eq_append_of_dropWhile hend
      have hline := not_mem_takeWhile .lineEnd ps
      generalize ps.takeWhile (· ≠ .lineEnd) = line at h hps hline
      cases hcolon : line.dropWhile (· ≠ .colon) with
      | nil =>
        rw [hcolon] at h
        cases h
      | cons q behind =>
        rw [hcolon] at h
        cases h
        have heq := eq_append_of_dropWhile hcolon
        refine ⟨_, behind, ?_, not_mem_takeWhile .colon line, ?_, ?_, rfl, rfl⟩
        · rw [hps, ← List.cons_append, ← List.append_assoc, ← heq]
        · exact fun hmem => hline (heq ▸ List.mem_append_left _ hmem)
        · exact fun hmem => hline (heq ▸ List.mem_append_right _ (List.mem_cons_of_mem _ hmem))
  · rintro ⟨front, behind, rfl, hcolon, hfront, hbehind, rfl, rfl⟩
    have hline : Piece.lineEnd ∉ front ++ Piece.colon :: behind := by
      simp [hfront, hbehind]
    have hsplit : front ++ Piece.colon :: (behind ++ [Piece.lineEnd]) =
        (front ++ Piece.colon :: behind) ++ Piece.lineEnd :: [] := by
      rw [List.append_assoc, List.cons_append]
    obtain ⟨htake, hdrop⟩ := takeWhile_append_of_not_mem hline []
    obtain ⟨htargets, hbehind⟩ := takeWhile_append_of_not_mem hcolon behind
    rw [hsplit, htake, hdrop, if_pos rfl, htargets, hbehind]

/-- A word of characters that are not read as gaps. -/
theorem wordsFrom_append (hw : ∀ c ∈ w, c ≠ ' ' ∧ c ≠ '\t' ∧ c ≠ '\n') (begun : List Char)
    (rest : List Piece) : wordsFrom begun (w.map pieceOf ++ rest) = wordsFrom (begun ++ w) rest := by
  induction w generalizing begun with
  | nil => rw [List.append_nil]; rfl
  | cons c cs ih =>
    obtain ⟨hc, hcs⟩ := List.forall_mem_cons.mp hw
    have hnext : wordsFrom begun (pieceOf c :: (cs.map pieceOf ++ rest)) =
        wordsFrom (begun ++ [c]) (cs.map pieceOf ++ rest) := by
      by_cases hcolon : c = ':'
      · subst hcolon
        rfl
      · rw [pieceOf_eq_char_iff.mpr ⟨hc, hcolon⟩, wordsFrom]
    rw [List.map_cons, List.cons_append, hnext, ih hcs, List.append_assoc, List.singleton_append]

theorem wordsFrom_gap (hw : w ≠ []) (rest : List Piece) :
    wordsFrom w (.gap :: rest) = w :: wordsFrom [] rest := by
  rw [wordsFrom, if_neg (by simpa using hw)]

theorem wordsFrom_end (hw : w ≠ []) : wordsFrom w [] = [w] := by
  rw [wordsFrom, if_neg (by simpa using hw)]

end Words

end FirmwareKit.Build
