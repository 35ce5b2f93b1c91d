import FirmwareKit.Proofs.Command.Identifiers
import FirmwareKit.Proofs.Files.Loading
set_option autoImplicit false

namespace FirmwareKit

namespace Build
open Workspace (Stored)

/-- The directory of a step as the step is left: it is gone with all that is in it. -/
theorem Entered.leave {w : Workspace} {s t v : BuildState} {path : String} {place : Place}
    (h : Entered w s path place) (hscratch : t.context.scratch = s.context.scratch)
    (hdirectory : t.workspace.directory = s.workspace.directory)
    (hkept : ∀ q, s.workspace.tree.entry? q = some .directory →
      t.workspace.tree.entry? q = some .directory) (hleave : leave t = .ok () v) :
    v.workspace.directory = t.workspace.directory ∧
      v.workspace.tree = t.workspace.tree.remove place := by
  obtain ⟨v', hleave', hsame, htree⟩ := exists_leave t
  rw [hleave] at hleave'
  cases hleave'
  refine ⟨hsame, htree path place .directory (hscratch.trans h.scratch) ?_⟩
  obtain ⟨hpath, hway⟩ := FileTree.way_of_locate (FileTree.lookup?_eq_some_iff.mp h.found)
  rw [hdirectory, FileTree.lookup?_eq_some_iff]
  exact FileTree.locate_of_way hpath (hway.directory_of_directories hkept)

end Build

namespace Embed

theorem encode_append (xs ys : List Char) :
    Text.Utf8.encode (xs ++ ys) = Text.Utf8.encode xs ++ Text.Utf8.encode ys := List.flatMap_append

/-- The two files differ in the first word behind their banner. -/
theorem headerText_ne_sourceText (program date : String) (arrays others : List ByteArray) :
    Text.Utf8.encode (headerText program date arrays).toList ≠
      Text.Utf8.encode (sourceText program date others).toList := by
  have hfirst {lead : List UInt8} {bytes : List UInt8} (rest : List UInt8)
      (hlead : bytes.take 2 = lead) (hlength : lead.length = 2) : (bytes ++ rest).take 2 = lead := by
    rw [← hlead, List.length_take] at hlength
    rw [List.take_append_of_le_length (by omega), hlead]
  have hheader : (Text.Utf8.encode
      "#pragma once\n#include <stdint.h>\n#include <wonderful.h>\n\n".toList).take 2 =
        [0x23, 0x70] := by decide +kernel
  have hsource : (Text.Utf8.encode
      "#include <stdint.h>\n#include <wonderful.h>\n\n".toList).take 2 = [0x23, 0x69] := by
    decide +kernel
  intro h
  simp only [headerText, sourceText, String.toList_append, encode_append, List.append_assoc] at h
  have htwo := congrArg (List.take 2) (List.append_cancel_left h)
  rw [hfirst _ hheader rfl, hfirst _ hsource rfl] at htwo
  exact absurd htwo (by decide)

end Embed

namespace Program
variable {e : Embedding} {known as : List Embed.ByteArray} {s s' : BuildState}

structure Embeds (e : Embedding) (w : Workspace) (input : String) (a : Embed.ByteArray) : Prop where
  name : a.name = arrayName e.lead input
  data : w.Loads input a.data
  alignment : a.alignment = e.alignment
  addressSpace : a.addressSpace = e.addressSpace

theorem embeds_of_array {input : String} {a : Embed.ByteArray}
    (h : array e known input s = .ok a s') : Embeds e s.workspace input a := by
  obtain ⟨name, t, hname, h⟩ := ok_of_bind h
  cases hname
  split at h
  case isTrue =>
    obtain ⟨_, _, hthrown, -⟩ := ok_of_bind h
    cases hthrown
  case isFalse =>
    obtain ⟨data, t, hdata, h⟩ := ok_of_bind h
    cases h
    obtain ⟨_, t, haccess, hload⟩ := ok_of_bind hdata
    cases haccess
    exact ⟨rfl, ⟨_, (Build.ok_of_within hload).1⟩, rfl, rfl⟩

theorem embeds_of_arrays {inputs : List String} (h : arrays e known inputs s = .ok as s') :
    ∃ added, as = known ++ added ∧ List.Forall₂ (Embeds e s.workspace) inputs added := by
  induction inputs generalizing known s with
  | nil =>
    cases h
    exact ⟨[], (List.append_nil _).symm, .nil⟩
  | cons input rest ih =>
    obtain ⟨a, t, ha, h⟩ := ok_of_bind h
    obtain ⟨added, rfl, hadded⟩ := ih h
    have hsame := ((reads_array e known input).of_ok ha).workspace
    refine ⟨a :: added, List.append_assoc _ _ _, .cons (embeds_of_array ha) ?_⟩
    exact hadded.imp fun input a h => { h with data := (Workspace.loads_congr hsame).mp h.data }

/-- The work of the command stores the source and then the header. -/
theorem stored_of_embed {date : String} {count : Nat} (h : embed date e s = .ok count s') :
    ∃ (as : List Embed.ByteArray) (t : Workspace), List.Forall₂ (Embeds e s.workspace) e.inputs as ∧
      s'.context.scratch = s.context.scratch ∧
      s.workspace.Stored (Path.withSlashes e.output) t ∧
      t.contentAt? (Path.withSlashes e.output) =
        some (Text.Utf8.encode (Embed.sourceText Identity.name date as).toList) ∧
      t.Stored (Path.withSlashes e.header) s'.workspace ∧
      s'.workspace.contentAt? (Path.withSlashes e.header) =
        some (Text.Utf8.encode (Embed.headerText Identity.name date as).toList) := by
  obtain ⟨as, t, harrays, h⟩ := ok_of_bind h
  obtain ⟨as, rfl, hembeds⟩ := embeds_of_arrays harrays
  have hread := (reads_arrays e [] e.inputs).of_ok harrays
  obtain ⟨⟨source, header⟩, u, hembed, h⟩ := ok_of_bind h
  have hwritten := (Build.reads_within (Run.reads_embed Identity.name date _)).of_ok hembed
  obtain ⟨rfl, rfl⟩ := ok_of_write (Build.ok_of_within hembed).1
  obtain ⟨_, v, hsource, h⟩ := ok_of_bind h
  obtain ⟨hsource, hcontext⟩ := Build.ok_of_within hsource
  obtain ⟨_, v', hheader, h⟩ := ok_of_bind h
  obtain ⟨hheader, hcontext'⟩ := Build.ok_of_within hheader
  cases h
  refine ⟨as, v.workspace, hembeds, ?_, ?_, Run.contentAt?_of_storeText hsource,
    (Run.stored_storeText _ _).of_ok hheader, Run.contentAt?_of_storeText hheader⟩
  · rw [hcontext', hcontext]
    exact hwritten.scratch.trans hread.scratch
  · exact .trans (.same (Trans.trans hread.workspace hwritten.workspace))
      ((Run.stored_storeText _ _).of_ok hsource)

/-- What a run of the command leaves is what its work has left, but for the directory that the run has
made for itself. -/
theorem left_of_runBin2c {date text : String} {s : Settings} {w w' : Workspace}
    (h : runBin2c date s w = .ok text w') :
    ∃ (t : BuildState) (path : String) (place : Place) (as : List Embed.ByteArray) (m u : Workspace),
      Build.enter ⟨.ofDirectory? none, w⟩ = .ok () t ∧ Build.Entered w t path place ∧
      List.Forall₂ (Embeds (embedding s) t.workspace) s.operands as ∧
      m.directory = w.directory ∧
      m.contentAt? (Path.withSlashes (embedding s).output) =
        some (Text.Utf8.encode (Embed.sourceText Identity.name date as).toList) ∧
      m.Stored (Path.withSlashes (embedding s).header) u ∧
      u.contentAt? (Path.withSlashes (embedding s).header) =
        some (Text.Utf8.encode (Embed.headerText Identity.name date as).toList) ∧
      ∀ (path : String) (content : List UInt8), w'.contentAt? path = some content ↔
        u.contentAt? path = some content ∧ w.Avoids place path := by
  obtain ⟨count, hstep⟩ := ok_of_runBin2c h
  obtain ⟨t, u, v, henter, hembed, hleave, rfl⟩ := ok_of_step hstep
  obtain ⟨path, place, hentered⟩ := Build.entered rfl henter
  obtain ⟨as, m, hembeds, hscratch, hfirst, hsource, hsecond, hheader⟩ := stored_of_embed hembed
  have hm : m.directory = t.workspace.directory := hfirst.directory_eq
  have hu : u.workspace.directory = m.directory := hsecond.directory_eq
  have hmw : m.directory = w.directory := hm.trans hentered.directory
  obtain ⟨hv, htree⟩ := hentered.leave hscratch (hu.trans hm)
    (fun q hq => hsecond.directories q (hfirst.directories q hq)) hleave
  refine ⟨t, path, place, as, m, u.workspace, henter, hentered, hembeds, hmw, hsource, hsecond,
    hheader, fun path content => ?_⟩
  rw [Workspace.contentAt?_remove (FileTree.ne_of_entry?_eq_none hentered.free).1 hv htree,
    Workspace.avoids_iff_of_directory (hu.trans hmw)]

/-- After a run of the command that ends well, what it has loaded is embedded in the header at its
path and in the source at its path, as far as the paths avoid the directory that the run has made for
itself; for the source, the paths must also lead to different places. -/
theorem runBin2c_files {date text : String} {s : Settings} {w w' : Workspace}
    (h : runBin2c date s w = .ok text w') :
    ∃ (t : BuildState) (path : String) (place : Place) (as : List Embed.ByteArray),
      Build.enter ⟨.ofDirectory? none, w⟩ = .ok () t ∧ Build.Entered w t path place ∧
      List.Forall₂ (Embeds (embedding s) t.workspace) s.operands as ∧
      (w'.contentAt? (Path.withSlashes (embedding s).header) =
          some (Text.Utf8.encode (Embed.headerText Identity.name date as).toList) ↔
        w.Avoids place (Path.withSlashes (embedding s).header)) ∧
      (w'.contentAt? (Path.withSlashes (embedding s).output) =
          some (Text.Utf8.encode (Embed.sourceText Identity.name date as).toList) ↔
        w.Avoids place (Path.withSlashes (embedding s).output) ∧
          w.destination (Path.withSlashes (embedding s).output) ≠
            w.destination (Path.withSlashes (embedding s).header)) := by
  obtain ⟨t, path, place, as, m, u, henter, hentered, hembeds, hmw, hsource, hstored, hheader, hleft⟩ :=
    left_of_runBin2c h
  have hboth : u.contentAt? (Path.withSlashes (embedding s).output) =
        some (Text.Utf8.encode (Embed.sourceText Identity.name date as).toList) ↔
      w.destination (Path.withSlashes (embedding s).output) ≠
        w.destination (Path.withSlashes (embedding s).header) := by
    simp only [← Workspace.destination_eq_of_directory hmw]
    constructor
    · -- The header would lie in the place of the source.
      intro hkept hsame
      have hlost := hstored.contentAt?_of_eq hsource hsame hheader
      rw [hkept] at hlost
      exact Embed.headerText_ne_sourceText _ _ _ _ (Option.some.inj hlost).symm
    · exact hstored.contentAt? hsource
  refine ⟨t, path, place, as, henter, hentered, hembeds, ?_, ?_⟩
  · rw [hleft, hheader, eq_self_iff_true, true_and]
  · rw [hleft, hboth, and_comm]

/-- Where a run over the two files makes its directory. -/
theorem place_of_entered {t : BuildState} {path : String} {place : Place}
    (henter : Build.enter ⟨.ofDirectory? none, pairWorkspace "map.bin" "tiles.bin"⟩ = .ok () t)
    (hentered : Build.Entered (pairWorkspace "map.bin" "tiles.bin") t path place) :
    place = ["tmp", "wswantool-0"] := by
  have hscratch : (left Build.enter ⟨.ofDirectory? none,
      pairWorkspace "map.bin" "tiles.bin"⟩).context.scratch = .owned "/tmp/wswantool-0" := by
    decide +kernel
  have hfound : (left Build.enter
      ⟨.ofDirectory? none, pairWorkspace "map.bin" "tiles.bin"⟩).workspace.tree.lookup? ["work"]
        "/tmp/wswantool-0" = some (["tmp", "wswantool-0"], .directory) := by decide +kernel
  rw [left, henter] at hscratch hfound
  cases hentered.scratch.symm.trans hscratch
  have hplace := hentered.found
  rw [hentered.directory] at hplace
  cases hplace.symm.trans hfound
  rfl

theorem runBin2c_files_tiles :
    ∃ text w', runBin2c "today" (pairSettings "gfx_" "map.bin" "tiles.bin")
        (pairWorkspace "map.bin" "tiles.bin") = .ok text w' ∧
      ∃ as : List Embed.ByteArray, as.length = 2 ∧
        w'.contentAt? "/work/a.h" =
          some (Text.Utf8.encode (Embed.headerText Identity.name "today" as).toList) ∧
        w'.contentAt? "/work/a.c" =
          some (Text.Utf8.encode (Embed.sourceText Identity.name "today" as).toList) := by
  have hends : ends (runBin2c "today" (pairSettings "gfx_" "map.bin" "tiles.bin")
      (pairWorkspace "map.bin" "tiles.bin")) = true := by decide +kernel
  have houtput : Path.withSlashes (embedding (pairSettings "gfx_" "map.bin" "tiles.bin")).output =
      "/work/a.c" := by decide +kernel
  have hheader : Path.withSlashes (embedding (pairSettings "gfx_" "map.bin" "tiles.bin")).header =
      "/work/a.h" := by decide +kernel
  obtain ⟨text, w', h⟩ := exists_of_ends hends
  obtain ⟨t, path, place, as, henter, hentered, hembeds, hh, hs⟩ := runBin2c_files h
  cases place_of_entered henter hentered
  rw [hheader] at hh hs
  rw [houtput] at hs
  refine ⟨text, w', h, as, hembeds.length_eq.symm, hh.mpr ?_, hs.mpr ⟨?_, ?_⟩⟩ <;> decide +kernel

/-- A header that is not named stands beside the source. If that is where the source stands, no
source is left, although the run ends well. -/
theorem runBin2c_header_replaces_source :
    ∃ text w', runBin2c "today" ⟨[(Catalog.outputOption "", .text "/work/a.h")], ["map.bin"]⟩
        (pairWorkspace "map.bin" "tiles.bin") = .ok text w' ∧
      ∀ as : List Embed.ByteArray, w'.contentAt? "/work/a.h" ≠
        some (Text.Utf8.encode (Embed.sourceText Identity.name "today" as).toList) := by
  have hends : ends (runBin2c "today" ⟨[(Catalog.outputOption "", .text "/work/a.h")], ["map.bin"]⟩
      (pairWorkspace "map.bin" "tiles.bin")) = true := by decide +kernel
  have hpath : Path.withSlashes (embedding
      ⟨[(Catalog.outputOption "", .text "/work/a.h")], ["map.bin"]⟩).header = "/work/a.h" := by
    decide +kernel
  obtain ⟨text, w', h⟩ := exists_of_ends hends
  obtain ⟨t, path, place, as, m, u, henter, hentered, -, -, -, -, hheader, hleft⟩ :=
    left_of_runBin2c h
  cases place_of_entered henter hentered
  rw [hpath] at hheader
  have hlast := (hleft _ _).mpr ⟨hheader, by decide +kernel⟩
  refine ⟨text, w', h, fun others hsource => ?_⟩
  exact Embed.headerText_ne_sourceText _ _ _ _ (Option.some.inj (hlast.symm.trans hsource))

end Program
end FirmwareKit
