import FirmwareKit.Proofs.Build.Reading
import FirmwareKit.Proofs.Build.Step
import FirmwareKit.Proofs.Text.Rows
set_option autoImplicit false

namespace FirmwareKit.Build

/-! ## Pieces of a rule -/

section RulePieces
variable {targets dependencies : List String}

def lineBreak : List Char := [' ', '\\', '\n', ' ', ' ']

def tailText (dependencies : List String) : List Char :=
  dependencies.flatMap (fun d => lineBreak ++ d.toList) ++ ['\n']

theorem toList_ruleText (targets dependencies : List String) :
    (BuildContext.ruleText targets dependencies).toList =
      [' '].intercalate (targets.map String.toList) ++ ':' :: tailText dependencies := by
  rw [BuildContext.ruleText, String.toList_append, String.toList_append, String.toList_append,
    String.toList_intercalate, String.toList_join, List.flatMap_map, tailText, List.append_assoc,
    List.append_assoc]
  simp only [String.toList_append]
  rfl

/-- The pieces of a tail in which every backslash of a path stands for itself. -/
def tailPieces (dependencies : List String) : List Piece :=
  dependencies.flatMap fun d => List.replicate 4 .gap ++ d.toList.map pieceOf

theorem tailPieces_cons (d : String) (ds : List String) :
    tailPieces (d :: ds) = List.replicate 4 Piece.gap ++ (d.toList.map pieceOf ++ tailPieces ds) := by
  rw [tailPieces, List.flatMap_cons, List.append_assoc, tailPieces]

theorem exists_tailText (dependencies : List String) :
    ∃ m rest, tailText dependencies = m :: rest ∧ pieceOf m ≠ .char m := by
  cases dependencies with
  | nil => exact ⟨'\n', [], rfl, by decide⟩
  | cons d ds => exact ⟨' ', _, rfl, by decide⟩

theorem pieces_lineBreak (rest : List Char) :
    pieces 0 (lineBreak ++ rest) = List.replicate 4 Piece.gap ++ pieces 0 rest := rfl

theorem tailText_cons (d : String) (ds : List String) :
    tailText (d :: ds) = lineBreak ++ (d.toList ++ tailText ds) := by
  rw [tailText, List.flatMap_cons, List.append_assoc, List.append_assoc, tailText]

theorem pieces_tailText (h : ∀ d ∈ dependencies, Bare d.toList) :
    pieces 0 (tailText dependencies) = tailPieces dependencies ++ [Piece.lineEnd] := by
  induction dependencies with
  | nil => rfl
  | cons d ds ih =>
    obtain ⟨hd, hds⟩ := List.forall_mem_cons.mp h
    obtain ⟨m, rest, htail, hmark⟩ := exists_tailText ds
    rw [tailText_cons, pieces_lineBreak, htail, pieces_of_bare hmark hd, ← htail, ih hds,
      tailPieces_cons, List.append_assoc, List.append_assoc]

/-- No backslash comes from between the paths of a tail, and one of a path that is not bare is lost. -/
theorem kept_tailText (dependencies : List String) :
    kept (pieces 0 (tailText dependencies)) ≤
        backslashes dependencies ∧
      (backslashes dependencies ≤
        kept (pieces 0 (tailText dependencies)) → ∀ d ∈ dependencies, Bare d.toList) := by
  induction dependencies with
  | nil => exact ⟨Nat.le_refl _, fun _ => List.forall_mem_nil _⟩
  | cons d ds ih =>
    obtain ⟨m, rest, htail, hmark⟩ := exists_tailText ds
    obtain ⟨hpath, hbare⟩ := kept_append_mark hmark d.toList rest
    obtain ⟨hle, hall⟩ := ih
    have hgaps : kept (List.replicate 4 .gap) = 0 := rfl
    rw [tailText_cons, pieces_lineBreak, kept_append, hgaps, backslashes_cons]
    rw [htail] at hle hall ⊢
    refine ⟨by omega, fun h => List.forall_mem_cons.mpr ⟨hbare (by omega), hall (by omega)⟩⟩

def rulePieces (targets dependencies : List String) : List Piece :=
  ([' '].intercalate (targets.map String.toList)).map pieceOf ++
    .colon :: (tailPieces dependencies ++ [.lineEnd])

theorem bare_append_blank {cs rest : List Char} :
    Bare (cs ++ ' ' :: rest) ↔ Bare cs ∧ Bare rest := by
  have hblank : Bare (' ' :: rest) ↔ Bare rest := bare_cons (by decide)
  rw [← hblank, Bare, List.append_assoc]
  exact List.isChain_split

theorem bare_intercalate (targets : List String) :
    Bare ([' '].intercalate (targets.map String.toList)) ↔ ∀ t ∈ targets, Bare t.toList := by
  induction targets with
  | nil => exact ⟨fun _ => List.forall_mem_nil _, fun _ => by decide⟩
  | cons t ts ih =>
    cases ts with
    | nil => simp
    | cons u us =>
      rw [List.map_cons, List.map_cons, List.intercalate_cons_cons, List.append_assoc,
        List.singleton_append, bare_append_blank, List.forall_mem_cons, ← ih, List.map_cons]

theorem count_intercalate (targets : List String) :
    ([' '].intercalate (targets.map String.toList)).count '\\' = backslashes targets := by
  induction targets with
  | nil => rfl
  | cons t ts ih =>
    rw [backslashes_cons]
    cases ts with
    | nil => simp [backslashes]
    | cons u us =>
      rw [List.map_cons, List.map_cons, List.intercalate_cons_cons, List.append_assoc,
        List.count_append, List.singleton_append, List.count_cons_of_ne (by decide), ← List.map_cons,
        ih]

theorem pieces_colon (rest : List Char) : pieces 0 (':' :: rest) = .colon :: pieces 0 rest := rfl

theorem pieces_ruleText (htargets : ∀ t ∈ targets, Bare t.toList)
    (hdependencies : ∀ d ∈ dependencies, Bare d.toList) :
    pieces 0 (BuildContext.ruleText targets dependencies).toList =
      rulePieces targets dependencies := by
  rw [toList_ruleText, pieces_of_bare (by decide) ((bare_intercalate targets).mpr htargets),
    pieces_colon, pieces_tailText hdependencies]
  rfl

/-- As many backslashes are left as the paths have only if none of them stands before a mark. -/
theorem bare_of_kept
    (h : backslashes targets + backslashes dependencies ≤
      kept (pieces 0 (BuildContext.ruleText targets dependencies).toList)) :
    (∀ t ∈ targets, Bare t.toList) ∧ ∀ d ∈ dependencies, Bare d.toList := by
  obtain ⟨hfront, hbare⟩ := kept_append_mark (m := ':') (by decide)
    ([' '].intercalate (targets.map String.toList)) (tailText dependencies)
  obtain ⟨htail, hall⟩ := kept_tailText dependencies
  have hcolon : kept (pieces 0 (':' :: tailText dependencies)) =
      kept (pieces 0 (tailText dependencies)) := kept_cons_of_ne (by decide)
  rw [hcolon, count_intercalate] at hfront hbare
  rw [toList_ruleText] at h
  exact ⟨(bare_intercalate targets).mp (hbare (by omega)), hall (by omega)⟩

end RulePieces

/-! ## Words of a rule -/

section RuleWords
variable {targets dependencies : List String}

theorem words_tailPieces (h : ∀ d ∈ dependencies, IsPrerequisite d) :
    wordsFrom [] (tailPieces dependencies) = dependencies.map String.toList := by
  induction dependencies with
  | nil => rfl
  | cons d ds ih =>
    obtain ⟨hd, hds⟩ := List.forall_mem_cons.mp h
    rw [tailPieces_cons]
    change wordsFrom [] (d.toList.map pieceOf ++ tailPieces ds) = _
    rw [wordsFrom_append hd.no_gap, List.nil_append, List.map_cons, ← ih hds]
    cases ds with
    | nil => exact wordsFrom_end hd.not_empty
    | cons => exact wordsFrom_gap hd.not_empty _

theorem words_targets (h : ∀ t ∈ targets, IsTarget t) :
    wordsFrom [] (([' '].intercalate (targets.map String.toList)).map pieceOf) =
      targets.map String.toList := by
  induction targets with
  | nil => rfl
  | cons t ts ih =>
    obtain ⟨ht, hts⟩ := List.forall_mem_cons.mp h
    cases ts with
    | nil =>
      rw [List.map_singleton, List.intercalate_singleton, ← List.append_nil (t.toList.map _),
        wordsFrom_append ht.no_gap, List.nil_append, wordsFrom_end ht.not_empty]
    | cons u us =>
      rw [List.map_cons, List.map_cons, List.intercalate_cons_cons, List.append_assoc,
        List.map_append, wordsFrom_append ht.no_gap, List.nil_append, ← List.map_cons]
      exact (wordsFrom_gap ht.not_empty _).trans (congrArg _ (ih hts))

/-- What the pieces of a rule are characters of is no mark. -/
theorem pieceOf_of_mem_rulePieces {c : Char} (h : .char c ∈ rulePieces targets dependencies) :
    pieceOf c = .char c := by
  have hpath {cs : List Char} (h : .char c ∈ cs.map pieceOf) : pieceOf c = .char c := by
    obtain ⟨x, -, hx⟩ := List.mem_map.mp h
    exact (char_of_pieceOf hx).2
  rw [rulePieces, List.mem_append, List.mem_cons, List.mem_append] at h
  rcases h with h | h | h | h
  · exact hpath h
  · cases h
  · obtain ⟨d, -, h⟩ := List.mem_flatMap.mp h
    rcases List.mem_append.mp h with h | h
    · cases List.eq_of_mem_replicate h
    · exact hpath h
  · cases List.mem_singleton.mp h

/-- A rule is read back as it was meant exactly when its paths can be targets and prerequisites. -/
theorem readRule?_ruleText (targets dependencies : List String) :
    readRule? (BuildContext.ruleText targets dependencies) = some (targets, dependencies) ↔
      (∀ t ∈ targets, IsTarget t) ∧ ∀ d ∈ dependencies, IsPrerequisite d := by
  rw [readRule?_eq_some_iff]
  constructor
  · rintro ⟨front, behind, hpieces, hcolon, -, -, htargets, hdependencies⟩
    have hkept : kept (pieces 0 (BuildContext.ruleText targets dependencies).toList) =
        kept front + kept behind := by
      rw [hpieces, kept_append, kept_cons_of_ne (by decide), kept_append]
      rfl
    obtain ⟨hbare, hbare'⟩ : (∀ t ∈ targets, Bare t.toList) ∧ ∀ d ∈ dependencies, Bare d.toList :=
      bare_of_kept (by rw [backslashes_words htargets, backslashes_words hdependencies, hkept])
    rw [pieces_ruleText hbare hbare'] at hpieces
    have hchar {c : Char} (h : .char c ∈ front ∨ .char c ∈ behind) : pieceOf c = .char c := by
      have hmem : .char c ∈ rulePieces targets dependencies := by
        rw [hpieces, List.mem_append, List.mem_cons, List.mem_append]
        exact h.imp_right fun h => .inr (.inl h)
      exact pieceOf_of_mem_rulePieces hmem
    refine ⟨fun t ht => ?_, fun d hd => ?_⟩
    · obtain ⟨hne, hmem⟩ := mem_words htargets ht
      have hplain (c : Char) (hc : c ∈ t.toList) :
          (c ≠ ' ' ∧ c ≠ '\t' ∧ c ≠ '\n') ∧ c ≠ ':' := by
        rcases hmem c hc with h | ⟨-, h⟩
        · exact pieceOf_eq_char_iff.mp (hchar (.inl h))
        · exact absurd h hcolon
      exact ⟨⟨hne, fun c hc => (hplain c hc).1, hbare t ht⟩, fun hc => (hplain ':' hc).2 rfl⟩
    · obtain ⟨hne, hmem⟩ := mem_words hdependencies hd
      refine ⟨hne, fun c hc => ?_, hbare' d hd⟩
      rcases hmem c hc with h | ⟨rfl, -⟩
      · exact (pieceOf_eq_char_iff.mp (hchar (.inr h))).1
      · decide
  · rintro ⟨htargets, hdependencies⟩
    have habsent {c : Char} (hc : c ≠ ' ') (h : ∀ t ∈ targets, c ∉ t.toList) :
        c ∉ [' '].intercalate (targets.map String.toList) := by
      have habsent : c ∉ (" ".intercalate targets).toList :=
        Text.not_mem_intercalate (by simpa using hc) h
      rwa [String.toList_intercalate] at habsent
    refine ⟨_, tailPieces dependencies, pieces_ruleText (fun t ht => (htargets t ht).bare)
      fun d hd => (hdependencies d hd).bare, ?_, ?_, ?_, ?_, ?_⟩
    · exact fun h => habsent (by decide) (fun t ht => (htargets t ht).no_colon) (mem_of_colon h)
    · exact fun h => habsent (by decide)
        (fun t ht hend => ((htargets t ht).no_gap _ hend).2.2 rfl) (mem_of_lineEnd h)
    · intro h
      obtain ⟨d, hd, h⟩ := List.mem_flatMap.mp h
      rcases List.mem_append.mp h with h | h
      · cases List.eq_of_mem_replicate h
      · exact ((hdependencies d hd).no_gap _ (mem_of_lineEnd h)).2.2 rfl
    · rw [words, words_targets htargets, List.map_map]
      simp
    · rw [words, words_tailPieces hdependencies, List.map_map]
      simp

end RuleWords

/-! ## Rules of steps -/

section Steps
variable {calls : List (String × String)} {s s' : BuildState}

def recordAll (calls : List (String × String)) : Build Unit :=
  calls.forM fun call => access call.1 call.2

def mentioned (kind : String → Bool) (calls : List (String × String)) : List String :=
  ((calls.filter fun call => kind call.2).map fun call => Path.withSlashes call.1).eraseDups

theorem noteOnce_eraseDups (paths : List String) (path : String) :
    BuildContext.noteOnce paths.eraseDups path = (paths ++ [path]).eraseDups := by
  rw [BuildContext.noteOnce, List.eraseDups_append]
  by_cases h : path ∈ paths
  · simp [h, List.removeAll]
  · simp [h, List.removeAll, List.eraseDups_cons]

theorem mentioned_append (kind : String → Bool) (calls : List (String × String))
    (call : String × String) :
    mentioned kind (calls ++ [call]) =
      if kind call.2 then BuildContext.noteOnce (mentioned kind calls) (Path.withSlashes call.1)
      else mentioned kind calls := by
  rw [mentioned, List.filter_append, List.map_append]
  by_cases hkind : kind call.2 = true
  · rw [if_pos hkind, mentioned, noteOnce_eraseDups]
    simp [hkind]
  · rw [if_neg hkind, mentioned]
    simp [hkind]

def recorded (given : Option String) (calls : List (String × String)) : BuildContext :=
  calls.foldl (fun c call => c.access call.1 call.2) (.ofDirectory? given)

theorem recorded_eq (given : Option String) (calls : List (String × String)) :
    (recorded given calls).targets = mentioned BuildContext.writes calls ∧
      (recorded given calls).dependencies =
        mentioned (fun mode => !BuildContext.writes mode) calls := by
  induction calls using List.reverseRecOn with
  | nil => exact ⟨rfl, rfl⟩
  | append_singleton calls call ih =>
    obtain ⟨htargets, hdependencies⟩ := ih
    have hnext : recorded given (calls ++ [call]) =
        (recorded given calls).access call.1 call.2 := List.foldl_concat _ _ _ _
    rw [hnext, mentioned_append, mentioned_append, BuildContext.access, ← htargets, ← hdependencies]
    by_cases hwrites : BuildContext.writes call.2 = true <;> simp [hwrites]

theorem recordAll_apply (given : Option String) (calls : List (String × String)) (w : Workspace) :
    recordAll calls ⟨.ofDirectory? given, w⟩ = .ok () ⟨recorded given calls, w⟩ := by
  rw [recorded]
  generalize BuildContext.ofDirectory? given = c
  induction calls generalizing c with
  | nil => rfl
  | cons call rest ih => exact ih (c.access call.1 call.2)

theorem ok_of_writeRule {path : String} {target : Option String}
    (h : writeRule path target s = .ok () s') :
    s'.context = s.context ∧ s'.workspace.contentAt? (Path.withSlashes path) =
      some (Text.Utf8.encode (BuildContext.ruleText (s.context.ruleTargets target)
        s.context.dependencies).toList) := by
  obtain ⟨c, t, hcontext, h⟩ := ok_of_bind h
  cases hcontext
  obtain ⟨text, t, htext, h⟩ := ok_of_bind h
  obtain ⟨hstore, hcontext⟩ := ok_of_within h
  rw [BuildContext.rule] at htext
  split at htext
  case isTrue => cases htext
  case isFalse =>
    cases htext
    exact ⟨hcontext, Run.contentAt?_of_storeText hstore⟩

/-- The rule that a step writes about the files it has opened is read back, target by target and
prerequisite by prerequisite, exactly when no path is empty, none holds a blank, a tab or a line end,
no target holds a colon, and no backslash stands before a mark. -/
theorem readRule?_writeRule {given target : Option String} {path : String} {w : Workspace}
    (h : (recordAll calls >>= fun _ => writeRule path target) ⟨.ofDirectory? given, w⟩ =
      .ok () s') :
    s'.context.targets = mentioned BuildContext.writes calls ∧
      s'.context.dependencies = mentioned (fun mode => !BuildContext.writes mode) calls ∧
      ∃ text : String, s'.workspace.contentAt? (Path.withSlashes path) =
          some (Text.Utf8.encode text.toList) ∧
        (readRule? text = some (s'.context.ruleTargets target, s'.context.dependencies) ↔
          (∀ t ∈ s'.context.ruleTargets target, IsTarget t) ∧
            ∀ d ∈ s'.context.dependencies, IsPrerequisite d) := by
  rw [bind_of_ok (recordAll_apply given calls w)] at h
  obtain ⟨hcontext, hcontent⟩ := ok_of_writeRule h
  obtain ⟨htargets, hdependencies⟩ := recorded_eq given calls
  rw [hcontext]
  exact ⟨htargets, hdependencies, _, hcontent, readRule?_ruleText _ _⟩

theorem readRule?_writeRule_object :
    ∃ s', (recordAll [("font.h", "r"), ("src\\font.c", "r"), ("font.o", "wb"), ("font.h", "r")] >>=
        fun _ => writeRule "font.d" none) ⟨.ofDirectory? none, freshWorkspace⟩ = .ok () s' ∧
      ∃ text : String, s'.workspace.contentAt? (Path.withSlashes "font.d") =
          some (Text.Utf8.encode text.toList) ∧
        readRule? text = some (["font.o"], ["font.h", "src/font.c"]) := by
  have hends : ends ((recordAll [("font.h", "r"), ("src\\font.c", "r"), ("font.o", "wb"),
      ("font.h", "r")] >>= fun _ => writeRule "font.d" none)
        ⟨.ofDirectory? none, freshWorkspace⟩) = true := by decide +kernel
  have hwritten : mentioned BuildContext.writes [("font.h", "r"), ("src\\font.c", "r"),
      ("font.o", "wb"), ("font.h", "r")] = ["font.o"] := by decide +kernel
  have hread : mentioned (fun mode => !BuildContext.writes mode) [("font.h", "r"),
      ("src\\font.c", "r"), ("font.o", "wb"), ("font.h", "r")] = ["font.h", "src/font.c"] := by
    decide +kernel
  obtain ⟨_, s', h⟩ := exists_of_ends hends
  obtain ⟨htargets, hdependencies, text, hcontent, hiff⟩ := readRule?_writeRule h
  rw [BuildContext.ruleTargets, htargets, hdependencies, hwritten, hread] at hiff
  refine ⟨s', h, text, hcontent, hiff.mpr ⟨?_, ?_⟩⟩
  · rw [List.forall_mem_singleton]
    decide +kernel
  · rw [List.forall_mem_cons, List.forall_mem_singleton]
    decide +kernel

/-- A path with a blank is read as two. -/
theorem writeRule_splits_path :
    ∃ s', (recordAll [("a b.bin", "r")] >>= fun _ => writeRule "out.d" (some "out"))
        ⟨.ofDirectory? none, freshWorkspace⟩ = .ok () s' ∧
      s'.context.dependencies = ["a b.bin"] ∧
      ∃ text : String, s'.workspace.contentAt? (Path.withSlashes "out.d") =
          some (Text.Utf8.encode text.toList) ∧
        readRule? text = some (["out"], ["a", "b.bin"]) := by
  have hends : ends ((recordAll [("a b.bin", "r")] >>= fun _ => writeRule "out.d" (some "out"))
      ⟨.ofDirectory? none, freshWorkspace⟩) = true := by decide +kernel
  have hdependencies : (recorded none [("a b.bin", "r")]).dependencies = ["a b.bin"] := by
    decide +kernel
  obtain ⟨_, s', h⟩ := exists_of_ends hends
  have hwrite := h
  rw [bind_of_ok (recordAll_apply none _ _)] at hwrite
  obtain ⟨hcontext, hcontent⟩ := ok_of_writeRule hwrite
  exact ⟨s', h, hcontext ▸ hdependencies, _, hcontent, by decide +kernel⟩

end Steps

end FirmwareKit.Build
