import FirmwareKit.Command.Program
import FirmwareKit.Proofs.Build.Step
import FirmwareKit.Proofs.Schema.Frame
set_option autoImplicit false

namespace FirmwareKit

namespace Run

theorem reads_loadConfig (path : String) : Reads (loadConfig path) :=
  keeps_get.bind fun _ => (reads_loadEntries _ _).bind fun _ => keeps_pure _

end Run

namespace LinkConfig
open Run

theorem reads_convert (c : Config) (romStart romLength : Option Int) :
    Reads (convert c romStart romLength) :=
  (reads_ofExcept _).bind fun _ => (reads_ofExcept _).bind fun _ => (reads_ofExcept _).bind fun _ =>
    (reads_normalize _ _).bind fun _ => (reads_ofExcept _).bind fun _ =>
      (reads_ofExcept _).bind fun _ => (reads_ofExcept _).bind fun _ =>
        (reads_ofExcept _).bind fun _ => keeps_pure _

theorem reads_load (c : Config) (romStart romLength : Option Int) :
    Reads (load c romStart romLength) :=
  (Validation.reads_run _ _ _ _).bind fun _ => reads_convert c romStart romLength

theorem reads_script (l : LinkConfig) (date : String) : Reads (l.script date) := reads_emit _ _ _ _ _

end LinkConfig

namespace BuildContext

theorem targets_access_ne_nil (c : BuildContext) (path : String) :
    (c.access path "w").targets ≠ [] := by
  have hwrites : writes "w" = true := by decide +kernel
  rw [access, if_pos hwrites]
  change noteOnce c.targets (Path.withSlashes path) ≠ []
  rw [noteOnce]
  split
  case isTrue hmem =>
    intro hnil
    rw [hnil] at hmem
    cases hmem
  case isFalse => exact List.append_ne_nil_of_right_ne_nil _ (List.cons_ne_nil _ _)

theorem exists_rule {c : BuildContext} (h : c.targets ≠ []) : ∃ text, c.rule none = .ok text := by
  have hsome : ¬ c.targets.isEmpty = true := fun hnil => h (List.isEmpty_iff.mp hnil)
  exact ⟨_, if_neg hsome⟩

end BuildContext

namespace Build

/-- A rule has a target when a file has been written, so only its file may fail to be stored. -/
theorem unforeseen_writeRule_of_access (output path : String) :
    Unforeseen (access output "w" >>= fun _ => writeRule path none) := by
  intro s f s' h
  obtain ⟨text, hrule⟩ := BuildContext.exists_rule (s.context.targets_access_ne_nil output)
  rcases error_of_bind h with h | ⟨_, t, haccess, h⟩
  · cases h
  cases haccess
  rcases error_of_bind h with h | ⟨c, t, hcontext, h⟩
  · cases h
  cases hcontext
  rcases error_of_bind h with h | ⟨text', t, -, h⟩
  · rw [hrule] at h
    cases h
  · exact unforeseen_within (Run.unforeseen_storeText text' path) _ _ _ h

end Build

namespace Program

theorem declines_linkscript (date config output : String) (romStart romLength : Option Int)
    (rulePath : Option String) :
    Build.Declines (linkscript date config output romStart romLength rulePath) := by
  have hscript : Run.Reads (do
      let c ← Run.loadConfig config
      let l ← LinkConfig.load c romStart romLength
      l.script date) :=
    (Run.reads_loadConfig config).bind fun c => (LinkConfig.reads_load c _ _).bind fun l =>
      l.reads_script date
  refine Build.declines_bind (Build.reads_access config "r") fun _ =>
    Build.declines_bind (Build.reads_within hscript) fun script => Build.declines_of_unforeseen ?_
  refine (Build.unforeseen_within (Run.unforeseen_storeText script output)).bind fun _ => ?_
  cases rulePath with
  | some path => exact Build.unforeseen_writeRule_of_access output path
  | none => exact Unforeseen.bind (fun _ _ _ h => nomatch h) fun _ => unforeseen_pure ()

theorem reads_array (e : Embedding) (known : List Embed.ByteArray) (input : String) :
    Build.Reads (array e known input) := by
  refine (Build.reads_ofExcept _).bind fun name => ?_
  have hdata : Build.Reads (do
      let data ← Build.toData (.file input)
      pure (⟨name, data, e.alignment, e.addressSpace⟩ : Embed.ByteArray)) :=
    ((Build.reads_access _ _).bind fun _ => Build.reads_within (Run.reads_loadBytes _ _)).bind
      fun _ => keeps_pure _
  split
  · exact (keeps_throw _).bind fun _ => hdata
  · exact hdata

theorem reads_arrays (e : Embedding) (known : List Embed.ByteArray) (inputs : List String) :
    Build.Reads (arrays e known inputs) := by
  induction inputs generalizing known with
  | nil => exact keeps_pure _
  | cons input rest ih => exact (reads_array e known input).bind fun a => ih _

theorem declines_embed (date : String) (e : Embedding) : Build.Declines (embed date e) :=
  Build.declines_bind (reads_arrays e [] e.inputs) fun as =>
    Build.declines_bind (Build.reads_within (Run.reads_embed _ _ as)) fun _ =>
      Build.declines_of_unforeseen <|
        (Build.unforeseen_within (Run.unforeseen_storeText _ _)).bind fun _ =>
          (Build.unforeseen_within (Run.unforeseen_storeText _ _)).bind fun _ => unforeseen_pure _

variable {w w' : Workspace} {f : Fault} {e : Embedding}

theorem tree_of_step {α : Type} {work : Build α} (hwork : Build.Declines work)
    (hrooted : w.tree.Rooted) (h : step work w = .error f w') (hf : Outcome.isExpected f = true) :
    w'.tree = w.tree := by
  have hrun := error_of_map h
  rw [Build.run] at hrun
  cases hwhole : Build.whole work ⟨.ofDirectory? none, w⟩ with
  | ok a s =>
    rw [hwhole] at hrun
    cases hrun
  | error g s =>
    rw [hwhole] at hrun
    cases hrun
    exact Build.tree_of_whole hwork hrooted hwhole hf

theorem eq_of_checkAlignment (h : checkAlignment e w = .ok () w') : w' = w := by
  rw [checkAlignment] at h
  cases halign : e.alignment with
  | none =>
    rw [halign] at h
    cases h
    rfl
  | some n =>
    rw [halign] at h
    by_cases hn : n ≤ 0
    · simp only [if_pos hn] at h
      cases h
    · simp only [if_neg hn] at h
      cases h
      rfl

theorem reads_checkAlignment (e : Embedding) : Run.Reads (checkAlignment e) := by
  rw [checkAlignment]
  split
  · split
    · exact Run.reads_fail _
    · exact keeps_pure _
  · exact keeps_pure _

theorem tree_of_work {date : String} {s : Settings} {name : Catalog.Name}
    (hrooted : w.tree.Rooted) (h : work date s name w = .error f w')
    (hf : Outcome.isExpected f = true) : w'.tree = w.tree := by
  cases name with
  | linkscript =>
    rcases error_of_bind h with h | ⟨_, _, _, h⟩
    · exact tree_of_step (declines_linkscript _ _ _ _ _ _) hrooted h hf
    · cases h
  | bin2c =>
    rcases error_of_bind h with h | ⟨_, u, hchecked, h⟩
    · exact ((reads_checkAlignment _).of_error h).tree
    rw [eq_of_checkAlignment hchecked] at h
    rcases error_of_bind h with h | ⟨_, _, _, h⟩
    · exact tree_of_step (declines_embed _ _) hrooted h hf
    · cases h
  | layout =>
    have hreads : Run.Reads (runLayout s) :=
      (Run.reads_loadConfig _).bind fun c => (LinkConfig.reads_load c _ _).bind fun _ =>
        keeps_pure _
    exact (hreads.of_error h).tree

/-- The run ends with an error that the tool knows: its code is neither that of a success nor that
of an error nobody expected, or the work of its command fails with a fault of the library. -/
inductive Declined (x : Surroundings) (arguments : List String) (w : Workspace) : Prop
  | exits (hdone : (run x arguments w).1.exit ≠ .int 0)
      (hexpected : (run x arguments w).1.exit ≠ .int Outcome.unexpectedCode)
  | fails {s : Settings} {name : Catalog.Name} {f : Fault}
      (hwork : work x.date s name w = .error f (run x arguments w).2) (hown : f.kind.isOwn = true)

theorem isExpected_of_exit (h : (ofFault f).exit ≠ .int Outcome.unexpectedCode) :
    Outcome.isExpected f = true := by
  by_contra hunexpected
  have happ : f.kind ≠ .app := by
    intro hkind
    rw [Outcome.isExpected, hkind] at hunexpected
    exact hunexpected rfl
  apply h
  rw [ofFault, Outcome.ofFault, if_neg happ, if_neg hunexpected]

/-- A run leaves the workspace alone or ends with the work of a command. -/
theorem run_cases (x : Surroundings) (arguments : List String) (w : Workspace) :
    (run x arguments w).2 = w ∨
      (∃ s name text, work x.date s name w = .ok text (run x arguments w).2 ∧
        (run x arguments w).1.exit = .int 0) ∨
      ∃ s name f, work x.date s name w = .error f (run x arguments w).2 ∧
        (run x arguments w).1.exit = (ofFault f).exit := by
  rw [run]
  split
  · exact .inl rfl
  split
  · exact .inl rfl
  split
  · exact .inl rfl
  split
  · exact .inl rfl
  rename_i name rest _ command _
  dsimp only
  rw [runCommand]
  split
  · exact .inl rfl
  split
  · exact .inl rfl
  rename_i s _
  split
  case h_1 text w' hwork => exact .inr (.inl ⟨s, command, text, hwork, rfl⟩)
  case h_2 f w' hwork => exact .inr (.inr ⟨s, command, f, hwork, rfl⟩)

/-- A run that ends with an error that the tool knows leaves every file and directory as it was. -/
theorem run_tree_of_declined {x : Surroundings} {arguments : List String}
    (hrooted : w.tree.Rooted) (h : Declined x arguments w) :
    (run x arguments w).2.tree = w.tree := by
  cases h with
  | exits hdone hexpected =>
    rcases run_cases x arguments w with hsame | ⟨s, name, text, -, hexit⟩ | ⟨s, name, f, hwork, hexit⟩
    · rw [hsame]
    · exact absurd hexit hdone
    · rw [hexit] at hexpected
      exact tree_of_work hrooted hwork (isExpected_of_exit hexpected)
  | fails hwork hown =>
    have hexpected : Outcome.isExpected _ = true := Bool.or_eq_true_iff.mpr (.inl hown)
    exact tree_of_work hrooted hwork hexpected

def builtWorkspace : Workspace :=
  ⟨⟨[(["tmp"], .directory), (["work"], .directory), (["work", "a.c"], .file [0x2F, 0x2F]),
    (["work", "old"], .directory), (["work", "old", "x.bin"], .file [1, 2]),
    (["work", "x.bin"], .file [3])]⟩, ["work"], [], "/tmp/wswantool", 0, .usual⟩

def isCode (n : Int) : Value → Bool
  | .int m => m == n
  | _ => false

theorem eq_of_isCode {n : Int} {v : Value} (h : isCode n v = true) : v = .int n := by
  cases v with
  | int m => exact congrArg Value.int (beq_iff_eq.mp h)
  | _ => cases h

theorem run_tree_of_declined_duplicate :
    builtWorkspace.tree.Rooted ∧
      (run ⟨"today", ""⟩ ["bin2c", "-o", "a.c", "x.bin", "old/x.bin"] builtWorkspace).1.exit =
        .int 1 ∧
      (run ⟨"today", ""⟩ ["bin2c", "-o", "a.c", "x.bin", "old/x.bin"] builtWorkspace).2.tree =
        builtWorkspace.tree := by
  have hrooted : builtWorkspace.tree.Rooted := by decide +kernel
  have hexit : (run ⟨"today", ""⟩ ["bin2c", "-o", "a.c", "x.bin", "old/x.bin"]
      builtWorkspace).1.exit = .int 1 := eq_of_isCode (by decide +kernel)
  have hdeclined : Declined ⟨"today", ""⟩ ["bin2c", "-o", "a.c", "x.bin", "old/x.bin"]
      builtWorkspace := by
    refine .exits ?_ ?_ <;> rw [hexit] <;> exact nofun
  exact ⟨hrooted, hexit, run_tree_of_declined hrooted hdeclined⟩

end Program
end FirmwareKit
