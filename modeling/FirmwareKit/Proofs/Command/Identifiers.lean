import FirmwareKit.Proofs.Command.Declined
import FirmwareKit.Proofs.Embed.Lossless
import Mathlib.Data.List.Nodup
import Mathlib.Data.List.Perm.Basic
set_option autoImplicit false

namespace FirmwareKit

namespace Embed

def Declaration.identifiers (d : Declaration) : List String := [d.macroName, d.name]

def identifiers (arrays : List ByteArray) : List String :=
  (arrays.map ByteArray.declared).flatMap Declaration.identifiers

theorem append_injective (suffix : String) : Function.Injective fun s : String => s ++ suffix := by
  intro s t h
  have hchars : (s ++ suffix).toList = (t ++ suffix).toList := congrArg String.toList h
  rw [String.toList_append, String.toList_append] at hchars
  exact String.toList_inj.mp (List.append_cancel_right hchars)

theorem identifiers_perm (arrays : List ByteArray) :
    (identifiers arrays).Perm
      ((arrays.map (·.name)).map (· ++ "_size") ++ arrays.map (·.name)) := by
  have hflat : identifiers arrays = arrays.flatMap fun a => (a.name ++ "_size") :: [a.name] := by
    rw [identifiers, List.flatMap_map]
    rfl
  have hsplit := List.map_append_flatMap_perm arrays (fun a => a.name ++ "_size") fun a => [a.name]
  rw [← List.map_eq_flatMap] at hsplit
  rw [hflat, List.map_map]
  exact hsplit.symm

/-- The identifiers of arrays with distinct names are distinct unless a name is that of a macro. -/
theorem nodup_identifiers_iff {arrays : List ByteArray} (h : (arrays.map (·.name)).Nodup) :
    (identifiers arrays).Nodup ↔
      ∀ a ∈ arrays, ∀ b ∈ arrays, b.name ≠ a.name ++ "_size" := by
  have hmacros : ((arrays.map (·.name)).map (· ++ "_size")).Nodup :=
    List.Nodup.map (append_injective "_size") h
  rw [(identifiers_perm arrays).nodup_iff, List.nodup_append]
  constructor
  · rintro ⟨-, -, hapart⟩ a ha b hb heq
    exact hapart _ (List.mem_map_of_mem (List.mem_map_of_mem ha)) _ (List.mem_map_of_mem hb) heq.symm
  · intro hapart
    refine ⟨hmacros, h, ?_⟩
    intro x hx y hy
    obtain ⟨n, hn, rfl⟩ := List.mem_map.mp hx
    obtain ⟨a, ha, rfl⟩ := List.mem_map.mp hn
    obtain ⟨b, hb, rfl⟩ := List.mem_map.mp hy
    exact (hapart a ha b hb).symm

end Embed

namespace Program
variable {e : Embedding} {known as : List Embed.ByteArray} {s s' : BuildState}

def arrayName (lead input : String) : String :=
  lead ++ Embed.toIdentifier (Path.splitExtension (Path.fileName input)).1

theorem ok_of_array {input : String} {a : Embed.ByteArray} (h : array e known input s = .ok a s') :
    a.name = arrayName e.lead input ∧ a.name ∉ known.map (·.name) := by
  obtain ⟨name, t, hname, h⟩ := ok_of_bind h
  cases hname
  split at h
  case isTrue =>
    obtain ⟨_, _, hthrown, -⟩ := ok_of_bind h
    cases hthrown
  case isFalse hnew =>
    obtain ⟨data, t, -, h⟩ := ok_of_bind h
    cases h
    refine ⟨rfl, fun hmem => hnew ?_⟩
    obtain ⟨b, hb, heq⟩ := List.mem_map.mp hmem
    exact List.any_eq_true.mpr ⟨b, hb, beq_iff_eq.mpr heq⟩

theorem ok_of_arrays {inputs : List String} (h : arrays e known inputs s = .ok as s')
    (hknown : (known.map (·.name)).Nodup) :
    as.map (·.name) = known.map (·.name) ++ inputs.map (arrayName e.lead) ∧
      (as.map (·.name)).Nodup := by
  induction inputs generalizing known s with
  | nil =>
    cases h
    exact ⟨(List.append_nil _).symm, hknown⟩
  | cons input rest ih =>
    obtain ⟨a, t, ha, h⟩ := ok_of_bind h
    obtain ⟨hname, hnew⟩ := ok_of_array ha
    have hnames : (known ++ [a]).map (·.name) = known.map (·.name) ++ [arrayName e.lead input] := by
      rw [List.map_append, List.map_singleton, hname]
    have hgrown : ((known ++ [a]).map (·.name)).Nodup := by
      rw [hnames, ← hname]
      refine List.nodup_append.mpr ⟨hknown, List.nodup_singleton _, ?_⟩
      rintro name hmem _ hlast rfl
      exact hnew (List.mem_singleton.mp hlast ▸ hmem)
    obtain ⟨has, hnodup⟩ := ih h hgrown
    rw [hnames, List.append_assoc] at has
    exact ⟨has, hnodup⟩

theorem ok_of_write {program date source header : String} {w w' : Workspace}
    (h : Run.embed program date as w = .ok (source, header) w') :
    source = Embed.sourceText program date as ∧ header = Embed.headerText program date as := by
  obtain ⟨_, u, -, hwrite⟩ := ok_of_bind h
  rw [Embed.write] at hwrite
  split at hwrite <;> cases hwrite
  exact ⟨rfl, rfl⟩

theorem ok_of_embed {date : String} {count : Nat} (h : embed date e s = .ok count s') :
    ∃ as : List Embed.ByteArray, count = as.length ∧
      as.map (·.name) = e.inputs.map (arrayName e.lead) ∧ (as.map (·.name)).Nodup ∧
      s'.workspace.contentAt? (Path.withSlashes e.header) =
        some (Text.Utf8.encode (Embed.headerText Identity.name date as).toList) := by
  obtain ⟨as, t, harrays, h⟩ := ok_of_bind h
  obtain ⟨hnames, hnodup⟩ := ok_of_arrays harrays List.nodup_nil
  obtain ⟨⟨source, header⟩, t, hembed, h⟩ := ok_of_bind h
  obtain ⟨-, hheader⟩ := ok_of_write (Build.ok_of_within hembed).1
  obtain ⟨_, t, -, h⟩ := ok_of_bind h
  obtain ⟨_, t, hstored, h⟩ := ok_of_bind h
  cases h
  have hcontent := Run.contentAt?_of_storeText (Build.ok_of_within hstored).1
  exact ⟨as, rfl, hnames, hnodup, hheader ▸ hcontent⟩

theorem ok_of_step {α : Type} {work : Build α} {a : α} {w w' : Workspace}
    (h : step work w = .ok a w') : ∃ t u v, Build.enter ⟨.ofDirectory? none, w⟩ = .ok () t ∧
      work t = .ok a u ∧ Build.leave u = .ok () v ∧ v.workspace = w' := by
  obtain ⟨⟨b, c⟩, hrun, rfl⟩ := ok_of_map h
  rw [Build.run] at hrun
  cases hwhole : Build.whole work ⟨.ofDirectory? none, w⟩ with
  | ok b' v =>
    rw [hwhole] at hrun
    cases hrun
    obtain ⟨t, u, henter, hwork, hleave⟩ := Build.ok_of_whole hwhole
    exact ⟨t, u, v, henter, hwork, hleave, rfl⟩
  | error f u =>
    rw [hwhole] at hrun
    cases hrun

theorem ok_of_runBin2c {date text : String} {s : Settings} {w w' : Workspace}
    (h : runBin2c date s w = .ok text w') :
    ∃ count, step (embed date (embedding s)) w = .ok count w' := by
  obtain ⟨_, u, hchecked, h⟩ := ok_of_bind h
  rw [eq_of_checkAlignment hchecked] at h
  obtain ⟨count, u, hstep, h⟩ := ok_of_bind h
  cases h
  exact ⟨count, hstep⟩

/-- A run of the command that ends well stores the header of arrays with distinct names, one for
each input. -/
theorem arrays_of_runBin2c {date text : String} {s : Settings} {w w' : Workspace}
    (h : runBin2c date s w = .ok text w') :
    ∃ (as : List Embed.ByteArray) (t : BuildState),
      embed date (embedding s) (left Build.enter ⟨.ofDirectory? none, w⟩) =
        .ok as.length t ∧
      (left Build.leave t).workspace = w' ∧
      t.workspace.contentAt? (Path.withSlashes (embedding s).header) =
        some (Text.Utf8.encode (Embed.headerText Identity.name date as).toList) ∧
      as.map (·.name) = s.operands.map (arrayName (embedding s).lead) ∧
      (as.map (·.name)).Nodup := by
  obtain ⟨count, hstep⟩ := ok_of_runBin2c h
  obtain ⟨t, u, v, henter, hembed, hleave, rfl⟩ := ok_of_step hstep
  obtain ⟨as, rfl, hnames, hnodup, hcontent⟩ := ok_of_embed hembed
  refine ⟨as, u, ?_, ?_, hcontent, hnames, hnodup⟩
  · rw [left, henter]
    exact hembed
  · rw [left, hleave]

/-- What the header that a run has stored introduces is distinct exactly when no array has the name
of a macro. -/
theorem runBin2c_identifiers {date text : String} {s : Settings} {w w' : Workspace}
    (h : runBin2c date s w = .ok text w') :
    ∃ (as : List Embed.ByteArray) (t : BuildState),
      embed date (embedding s) (left Build.enter ⟨.ofDirectory? none, w⟩) =
        .ok as.length t ∧
      (left Build.leave t).workspace = w' ∧
      t.workspace.contentAt? (Path.withSlashes (embedding s).header) =
        some (Text.Utf8.encode (Embed.headerText Identity.name date as).toList) ∧
      ((∀ a ∈ as, a.Named) → Embed.readHeader? (Embed.headerText Identity.name date as) =
        some (as.map Embed.ByteArray.declared)) ∧
      as.map (·.name) = s.operands.map (arrayName (embedding s).lead) ∧
      (as.map (·.name)).Nodup ∧
      ((Embed.identifiers as).Nodup ↔ ∀ a ∈ as, ∀ b ∈ as, b.name ≠ a.name ++ "_size") := by
  obtain ⟨as, t, hembed, hleft, hcontent, hnames, hnodup⟩ := arrays_of_runBin2c h
  exact ⟨as, t, hembed, hleft, hcontent, Embed.readHeader?_headerText _ _, hnames, hnodup,
    Embed.nodup_identifiers_iff hnodup⟩

def pairWorkspace (first second : String) : Workspace :=
  ⟨⟨[(["tmp"], .directory), (["work"], .directory), (["work", first], .file [1, 2]),
    (["work", second], .file [3])]⟩, ["work"], [], "/tmp/wswantool", 0, .usual⟩

def pairSettings (lead first second : String) : Settings :=
  ⟨[(Catalog.outputOption "", .text "/work/a.c"), (Catalog.optional "--prefix" .text "", .text lead)],
    [first, second]⟩

theorem runBin2c_identifiers_tiles :
    ∃ text w', runBin2c "today" (pairSettings "gfx_" "map.bin" "tiles.bin")
        (pairWorkspace "map.bin" "tiles.bin") = .ok text w' ∧
      ∃ as : List Embed.ByteArray, as.map (·.name) = ["gfx_map", "gfx_tiles"] ∧
        (Embed.identifiers as).Nodup := by
  have hends : ends (runBin2c "today" (pairSettings "gfx_" "map.bin" "tiles.bin")
      (pairWorkspace "map.bin" "tiles.bin")) = true := by decide +kernel
  have hnames : ["map.bin", "tiles.bin"].map
      (arrayName (embedding (pairSettings "gfx_" "map.bin" "tiles.bin")).lead) =
        ["gfx_map", "gfx_tiles"] := by decide +kernel
  have hapart : ∀ m ∈ ["gfx_map", "gfx_tiles"], ∀ n ∈ ["gfx_map", "gfx_tiles"],
      n ≠ m ++ "_size" := by decide +kernel
  obtain ⟨text, w', h⟩ := exists_of_ends hends
  obtain ⟨as, t, -, -, -, -, has, -, hiff⟩ := runBin2c_identifiers h
  have hlisted : as.map (·.name) = ["gfx_map", "gfx_tiles"] := has.trans hnames
  have hmem {a : Embed.ByteArray} (ha : a ∈ as) : a.name ∈ ["gfx_map", "gfx_tiles"] :=
    hlisted ▸ List.mem_map_of_mem ha
  exact ⟨text, w', h, as, hlisted,
    hiff.mpr fun a ha b hb => hapart _ (hmem ha) _ (hmem hb)⟩

/-- The array of one file may have the name of the macro of another: then the macro stands in the
place of the array, although the run ends well. -/
theorem runBin2c_sharedIdentifier :
    ∃ text w', runBin2c "today" (pairSettings "" "foo.bin" "foo_size.bin")
        (pairWorkspace "foo.bin" "foo_size.bin") = .ok text w' ∧
      ∃ (as : List Embed.ByteArray) (t : BuildState),
        embed "today" (embedding (pairSettings "" "foo.bin" "foo_size.bin"))
          (left Build.enter
            ⟨.ofDirectory? none, pairWorkspace "foo.bin" "foo_size.bin"⟩) = .ok as.length t ∧
        (left Build.leave t).workspace = w' ∧
        t.workspace.contentAt?
            (Path.withSlashes (embedding (pairSettings "" "foo.bin" "foo_size.bin")).header) =
          some (Text.Utf8.encode (Embed.headerText Identity.name "today" as).toList) ∧
        as.map (·.name) = ["foo", "foo_size"] ∧ ¬ (Embed.identifiers as).Nodup := by
  have hends : ends (runBin2c "today" (pairSettings "" "foo.bin" "foo_size.bin")
      (pairWorkspace "foo.bin" "foo_size.bin")) = true := by decide +kernel
  have hnames : ["foo.bin", "foo_size.bin"].map
      (arrayName (embedding (pairSettings "" "foo.bin" "foo_size.bin")).lead) =
        ["foo", "foo_size"] := by decide +kernel
  have hsame : "foo_size" = "foo" ++ "_size" := by decide +kernel
  obtain ⟨text, w', h⟩ := exists_of_ends hends
  obtain ⟨as, t, hembed, hleft, hcontent, has, hnodup⟩ := arrays_of_runBin2c h
  have hlisted : as.map (·.name) = ["foo", "foo_size"] := has.trans hnames
  refine ⟨text, w', h, as, t, hembed, hleft, hcontent, hlisted, fun hdistinct => ?_⟩
  obtain ⟨a, ha, hfoo⟩ := List.mem_map.mp (hlisted ▸ List.mem_cons_self : "foo" ∈ as.map (·.name))
  obtain ⟨b, hb, hsize⟩ := List.mem_map.mp
    (hlisted ▸ List.mem_cons_of_mem _ List.mem_cons_self : "foo_size" ∈ as.map (·.name))
  refine (Embed.nodup_identifiers_iff hnodup).mp hdistinct a ha b hb ?_
  rw [hfoo, hsize]
  exact hsame

end Program
end FirmwareKit
