import FirmwareKit.Proofs.Embed.Reading
set_option autoImplicit false

namespace FirmwareKit.Embed

def rowsOf : List UInt8 → List (List UInt8)
  | [] => []
  | b :: rest => (b :: rest.take (valuesPerLine - 1)) :: rowsOf (rest.drop (valuesPerLine - 1))
termination_by data => data.length

theorem flatten_rowsOf (data : List UInt8) : (rowsOf data).flatten = data := by
  fun_induction rowsOf data with
  | case1 => rfl
  | case2 b rest ih => rw [List.flatten_cons, ih, List.cons_append, List.take_append_drop]

theorem length_rowsOf (data : List UInt8) : (rowsOf data).length = (data.length + 11) / 12 := by
  fun_induction rowsOf data with
  | case1 => rfl
  | case2 b rest ih =>
    rw [List.length_cons, ih, List.length_drop, List.length_cons, valuesPerLine]
    omega

theorem isEmpty_rowsOf (data : List UInt8) : (rowsOf data).isEmpty = data.isEmpty := by
  cases data with
  | nil => rw [rowsOf]; rfl
  | cons => rw [rowsOf]; rfl

/-- Rows of which all but the last are full, and the last has something in it. -/
structure Filled (rows : List (List UInt8)) : Prop where
  full : ∀ row ∈ rows.dropLast, row.length = 12
  last : ∀ row ∈ rows.getLast?, 1 ≤ row.length ∧ row.length ≤ 12

theorem filled_rowsOf (data : List UInt8) : Filled (rowsOf data) := by
  fun_induction rowsOf data with
  | case1 => exact ⟨nofun, nofun⟩
  | case2 b rest ih =>
    cases hmore : rowsOf (rest.drop (valuesPerLine - 1)) with
    | nil =>
      refine ⟨nofun, fun row hrow => ?_⟩
      rw [List.getLast?_singleton, Option.mem_some_iff] at hrow
      rw [← hrow, List.length_cons, List.length_take, valuesPerLine]
      omega
    | cons next more =>
      rw [hmore] at ih
      -- Where a row follows, this one could not hold all that was left.
      have hleft : 11 < rest.length := by
        have hlength := length_rowsOf (rest.drop (valuesPerLine - 1))
        rw [hmore, List.length_cons, List.length_drop, valuesPerLine] at hlength
        omega
      refine ⟨List.forall_mem_cons.mpr ⟨?_, ih.full⟩, ?_⟩
      · simp only [List.length_cons, List.length_take, valuesPerLine]
        omega
      · rw [List.getLast?_cons_cons]
        exact ih.last

def rowText (row : List UInt8) : List Char := [',', ' '].intercalate (row.map literal)

/-- The lines of some rows. Each begins with a tab, and all but the last end with a comma. -/
def linesOf : List (List UInt8) → List (List Char)
  | [] => []
  | row :: rest => ('\t' :: (rowText row ++ if rest.isEmpty then [] else [','])) :: linesOf rest

theorem rowText_cons (b : UInt8) (row : List UInt8) :
    rowText (b :: row) = literal b ++ row.flatMap fun b => ',' :: ' ' :: literal b := by
  induction row generalizing b with
  | nil => rfl
  | cons b' row ih =>
    have hnext := ih b'
    rw [rowText, List.map_cons] at hnext ⊢
    rw [List.map_cons, List.intercalate_cons_cons, hnext, List.flatMap_cons, List.append_assoc]
    rfl

/-- How a line goes on from a column behind its first byte, up to the column where a line ends or to
the end of the data. -/
theorem bodyFrom_row (column : Nat) (row rest : List UInt8) (hcolumn : 0 < column)
    (hend : column + row.length = 12 ∨ column + row.length ≤ 12 ∧ rest = []) :
    (if (row ++ rest).isEmpty then [] else [',']) ++
        bodyFrom (column % valuesPerLine) (row ++ rest) =
      (row.flatMap fun b => ',' :: ' ' :: literal b) ++
        ((if rest.isEmpty then [] else [',']) ++ bodyFrom 0 rest) := by
  induction row generalizing column with
  | nil =>
    rcases hend with hend | ⟨_, rfl⟩
    · rw [List.length_nil, Nat.add_zero] at hend
      rw [hend]
      rfl
    · rfl
  | cons b row ih =>
    rw [List.length_cons] at hend
    have hinside : column % valuesPerLine = column := Nat.mod_eq_of_lt (by rw [valuesPerLine]; omega)
    have hnext := ih (column + 1) (Nat.succ_pos column)
      (hend.imp (fun h => by omega) fun h => ⟨by omega, h.2⟩)
    rw [hinside, List.cons_append, bodyFrom, if_neg (Nat.ne_of_gt hcolumn), List.flatMap_cons,
      List.append_assoc (',' :: ' ' :: literal b), ← hnext]
    simp only [List.isEmpty_cons, Bool.false_eq_true, if_false, List.cons_append, List.nil_append,
      List.append_assoc]

theorem bodyFrom_eq (data : List UInt8) :
    bodyFrom 0 data = (linesOf (rowsOf data)).flatMap fun line => '\n' :: line := by
  fun_induction rowsOf data with
  | case1 => rfl
  | case2 b rest ih =>
    have hrow := bodyFrom_row 1 (rest.take 11) (rest.drop 11) Nat.one_pos (by
      rw [List.length_take, List.drop_eq_nil_iff]
      omega)
    rw [List.take_append_drop] at hrow
    rw [bodyFrom, if_pos rfl, linesOf, List.flatMap_cons, ← ih, rowText_cons, isEmpty_rowsOf,
      valuesPerLine]
    simp only [List.cons_append, List.nil_append, List.append_assoc]
    exact congrArg (fun cs => '\n' :: '\t' :: (literal b ++ cs)) hrow

def hexDigits : List Char := "0123456789ABCDEF".toList

def IsLiteral (cs : List Char) : Prop :=
  ∃ high ∈ hexDigits, ∃ low ∈ hexDigits, cs = ['0', 'x', high, low]

theorem isLiteral_literal (b : UInt8) : IsLiteral (literal b) := by
  have hall : ∀ n < 256, Text.upperHex 2 n =
      [hexDigits.getD (n / 16) ' ', hexDigits.getD (n % 16) ' '] := by decide +kernel
  have hdigit (d : Nat) (hd : d < 16) : hexDigits.getD d ' ' ∈ hexDigits := by
    revert d
    decide
  have hlt : b.toNat < 256 := UInt8.toNat_lt b
  refine ⟨_, hdigit (b.toNat / 16) (by omega), _, hdigit (b.toNat % 16) (by omega), ?_⟩
  rw [literal, hall b.toNat hlt]

theorem IsLiteral.lineEnd_not_mem {cs : List Char} (h : IsLiteral cs) : '\n' ∉ cs := by
  have hdigits : '\n' ∉ hexDigits := by decide
  obtain ⟨high, hhigh, low, hlow, rfl⟩ := h
  have hne {d : Char} (hd : d ∈ hexDigits) : '\n' ≠ d := fun heq => hdigits (heq ▸ hd)
  simp [hne hhigh, hne hlow]

theorem lineEnd_not_mem_rowText (row : List UInt8) : '\n' ∉ rowText row := by
  cases row with
  | nil => exact List.not_mem_nil
  | cons b row =>
    rw [rowText_cons, List.mem_append, List.mem_flatMap]
    rintro (hfirst | ⟨b', -, hmem⟩)
    · exact (isLiteral_literal b).lineEnd_not_mem hfirst
    · rcases List.mem_cons.mp hmem with hcomma | hmem
      · exact absurd hcomma (by decide)
      rcases List.mem_cons.mp hmem with hblank | hmem
      · exact absurd hblank (by decide)
      · exact (isLiteral_literal b').lineEnd_not_mem hmem

theorem lineEnd_not_mem_linesOf (rows : List (List UInt8)) : ∀ line ∈ linesOf rows, '\n' ∉ line := by
  induction rows with
  | nil => exact nofun
  | cons row rest ih =>
    refine List.forall_mem_cons.mpr ⟨?_, ih⟩
    rw [List.mem_cons, List.mem_append]
    rintro (htab | hrow | hcomma)
    · exact absurd htab (by decide)
    · exact lineEnd_not_mem_rowText row hrow
    · split at hcomma
      · cases hcomma
      · exact absurd (List.mem_singleton.mp hcomma) (by decide)

def readLiterals? (text : List Char) : Option (List UInt8) :=
  ((tokens text).filterMap Token.word?).mapM readByte?

theorem words_byteTokens (data : List UInt8) :
    (byteTokens data).filterMap Token.word? = data.map fun b => String.ofList (literal b) := by
  fun_induction byteTokens data with
  | case1 => rfl
  | case2 b => rfl
  | case3 b rest _ ih => exact congrArg (String.ofList (literal b) :: ·) ih

theorem readLiterals?_body (data : List UInt8) : readLiterals? (bodyFrom 0 data) = some data := by
  have htokens : tokens (bodyFrom 0 data) = byteTokens data := by
    have hbody := tokens_body 0 data []
    rw [tokens_lineEnd] at hbody
    exact hbody.trans (List.append_nil _)
  have hread : (data.map fun b => String.ofList (literal b)).mapM readByte? = some data := by
    clear htokens
    induction data with
    | nil => rfl
    | cons b rest ih =>
      rw [List.map_cons, List.mapM_cons, (readByte?_literal b).2, ih]
      rfl
  rw [readLiterals?, htokens, words_byteTokens, hread]

/-- A text that holds data in rows: it is made of the lines of the rows, each behind a line end, and
its literals are those of the data. -/
structure InRows (data : List UInt8) (rows : List (List UInt8)) (text : List Char) : Prop where
  flatten : rows.flatten = data
  count : rows.length = (data.length + 11) / 12
  full : ∀ row ∈ rows.dropLast, row.length = 12
  last : ∀ row ∈ rows.getLast?, 1 ≤ row.length ∧ row.length ≤ 12
  text_eq : text = (linesOf rows).flatMap fun line => '\n' :: line
  lines : Text.splitOnChar '\n' text = [] :: linesOf rows
  literal : ∀ b, IsLiteral (literal b)
  read : readLiterals? text = some data

/-- The body of an initializer holds its data in rows of twelve. It is empty for no data only. -/
theorem body_inRows (data : List UInt8) :
    InRows data (rowsOf data) (body data).toList ∧ (body data = "" ↔ data = []) := by
  have hlines := lineEnd_not_mem_linesOf (rowsOf data)
  obtain ⟨hfull, hlast⟩ := filled_rowsOf data
  have hbody : (body data).toList = bodyFrom 0 data := String.toList_ofList
  have hread := readLiterals?_body data
  rw [hbody]
  refine ⟨⟨flatten_rowsOf data, length_rowsOf data, hfull, hlast, bodyFrom_eq data, ?_,
    isLiteral_literal, hread⟩, ?_, ?_⟩
  · rw [bodyFrom_eq, Text.splitOnChar_flatMap hlines]
  · intro hempty
    rw [← hbody, hempty] at hread
    exact (Option.some.inj hread).symm
  · rintro rfl
    rfl

end FirmwareKit.Embed
