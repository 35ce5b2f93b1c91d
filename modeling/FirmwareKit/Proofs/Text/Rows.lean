import FirmwareKit.Text.Lines
set_option autoImplicit false

namespace FirmwareKit.Text

theorem splitOnChar_ne_nil (sep : Char) (cs : List Char) : splitOnChar sep cs ≠ [] := by
  cases cs with
  | nil => simp [splitOnChar]
  | cons c cs =>
    simp only [splitOnChar]
    split
    · simp
    · split <;> simp

theorem splitOnChar_append (sep : Char) (xs ys : List Char) :
    splitOnChar sep (xs ++ sep :: ys) = splitOnChar sep xs ++ splitOnChar sep ys := by
  induction xs with
  | nil => simp [splitOnChar]
  | cons x xs ih =>
    rw [List.cons_append, splitOnChar, splitOnChar, ih]
    split
    · rfl
    · cases h : splitOnChar sep xs with
      | nil => exact absurd h (splitOnChar_ne_nil sep xs)
      | cons part parts => rfl

theorem splitOnChar_of_not_mem {sep : Char} {cs : List Char} (h : sep ∉ cs) :
    splitOnChar sep cs = [cs] := by
  induction cs with
  | nil => rfl
  | cons c cs ih =>
    obtain ⟨hc, hcs⟩ := List.ne_and_not_mem_of_not_mem_cons h
    rw [splitOnChar, if_neg (Ne.symm hc), ih hcs]

/-- Each part behind a separator of its own; nothing comes before the first. -/
theorem splitOnChar_flatMap {sep : Char} {parts : List (List Char)} (h : ∀ part ∈ parts, sep ∉ part) :
    splitOnChar sep (parts.flatMap fun part => sep :: part) = [] :: parts := by
  have hfrom (first : List Char) (hfirst : sep ∉ first) :
      splitOnChar sep (first ++ parts.flatMap fun part => sep :: part) = first :: parts := by
    induction parts generalizing first with
    | nil => rw [List.flatMap_nil, List.append_nil, splitOnChar_of_not_mem hfirst]
    | cons part rest ih =>
      obtain ⟨hpart, hrest⟩ := List.forall_mem_cons.mp h
      rw [List.flatMap_cons, List.cons_append, splitOnChar_append, splitOnChar_of_not_mem hfirst,
        ih hrest part hpart]
      rfl
  exact hfrom [] List.not_mem_nil

/-- A part is made of characters of the text, but not of separators. -/
theorem mem_of_mem_splitOnChar {sep c : Char} {cs part : List Char}
    (hpart : part ∈ splitOnChar sep cs) (hc : c ∈ part) : c ∈ cs ∧ c ≠ sep := by
  induction cs generalizing part with
  | nil =>
    cases List.mem_singleton.mp hpart
    cases hc
  | cons x xs ih =>
    rw [splitOnChar] at hpart
    split at hpart
    case isTrue =>
      rcases List.mem_cons.mp hpart with rfl | hpart
      · cases hc
      · exact (ih hpart hc).imp_left (List.mem_cons_of_mem x)
    case isFalse hx =>
      cases hsplit : splitOnChar sep xs with
      | nil => exact absurd hsplit (splitOnChar_ne_nil sep xs)
      | cons first rest =>
        rw [hsplit] at hpart ih
        rcases List.mem_cons.mp hpart with rfl | hpart
        · rcases List.mem_cons.mp hc with rfl | hc
          · exact ⟨List.mem_cons_self, hx⟩
          · exact (ih List.mem_cons_self hc).imp_left (List.mem_cons_of_mem x)
        · exact (ih (List.mem_cons_of_mem first hpart) hc).imp_left (List.mem_cons_of_mem x)

def Ended (cs : List Char) : Prop := cs.getLast? = some '\n'

def rows (cs : List Char) : List (List Char) := (splitOnChar '\n' cs).dropLast

theorem Ended.append {xs ys : List Char} (h : Ended ys) : Ended (xs ++ ys) := by
  unfold Ended at h ⊢
  rw [List.getLast?_append, h]
  rfl

theorem rows_append {xs : List Char} (h : Ended xs) (ys : List Char) :
    rows (xs ++ ys) = rows xs ++ rows ys := by
  obtain ⟨body, rfl⟩ := List.getLast?_eq_some_iff.mp h
  have hxs : rows (body ++ ['\n']) = splitOnChar '\n' body := by
    rw [rows, splitOnChar_append]
    simp [splitOnChar]
  rw [hxs, rows, List.append_assoc, List.singleton_append, splitOnChar_append,
    List.dropLast_append_of_ne_nil (splitOnChar_ne_nil '\n' ys)]
  rfl

theorem rows_singleton {cs : List Char} (h : '\n' ∉ cs) : rows (cs ++ ['\n']) = [cs] := by
  rw [rows, splitOnChar_append, splitOnChar_of_not_mem h]
  rfl

def trimmed (row : List Char) : List Char := row.dropWhile (· == ' ')

theorem trimmed_blanks_append (n : Nat) {cs : List Char} (h : cs.head? ≠ some ' ') :
    trimmed (List.replicate n ' ' ++ cs) = cs := by
  induction n with
  | zero =>
    cases cs with
    | nil => rfl
    | cons c cs =>
      have hc : c ≠ ' ' := fun hc => h (by rw [hc]; rfl)
      simp [trimmed, hc]
  | succ n ih => simpa [trimmed, List.replicate_succ] using ih

theorem not_mem_intercalate {c : Char} {sep : String} {parts : List String}
    (hsep : c ∉ sep.toList) (h : ∀ p ∈ parts, c ∉ p.toList) :
    c ∉ (sep.intercalate parts).toList := by
  induction parts with
  | nil => simp
  | cons p ps ih =>
    obtain ⟨hp, hps⟩ := List.forall_mem_cons.mp h
    cases ps with
    | nil => simpa using hp
    | cons q qs =>
      rw [String.intercalate_cons_cons, String.toList_append, String.toList_append,
        List.mem_append, List.mem_append]
      exact fun hmem => hmem.elim (fun hmem => hmem.elim hp hsep) (ih hps)

theorem isPrefixOf?_append (xs ys : List Char) : xs.isPrefixOf? (xs ++ ys) = some ys := by
  induction xs with
  | nil => rfl
  | cons x xs ih =>
    change (if (x == x) = true then xs.isPrefixOf? (xs ++ ys) else none) = some ys
    rw [if_pos (beq_self_eq_true x), ih]

def afterLast? {α : Type} [DecidableEq α] (x : α) : List α → Option (List α)
  | [] => none
  | y :: ys => afterLast? x ys <|> if y = x then some ys else none

theorem afterLast?_of_not_mem {α : Type} [DecidableEq α] {x : α} {ys : List α} (h : x ∉ ys) :
    afterLast? x ys = none := by
  induction ys with
  | nil => rfl
  | cons y ys ih =>
    obtain ⟨hy, hys⟩ := List.ne_and_not_mem_of_not_mem_cons h
    simp [afterLast?, ih hys, Ne.symm hy]

theorem afterLast?_append {α : Type} [DecidableEq α] {x : α} {ys : List α} (h : x ∉ ys)
    (xs : List α) : afterLast? x (xs ++ x :: ys) = some ys := by
  induction xs with
  | nil => simp [afterLast?, afterLast?_of_not_mem h]
  | cons z xs ih => simp [afterLast?, ih]

end FirmwareKit.Text
