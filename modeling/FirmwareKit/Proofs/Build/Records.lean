import Mathlib.Data.List.Nodup
import FirmwareKit.Proofs.Build.Conversion
import FirmwareKit.Proofs.Build.Lifecycle
set_option autoImplicit false

namespace FirmwareKit

/-! ## Each mention once -/

/-- What is mentioned in a list, each once, in the order in which it is mentioned first. -/
structure FirstMentions (mentions once : List String) : Prop where
  nodup : once.Nodup
  mem_iff : ∀ x, x ∈ once ↔ x ∈ mentions
  order : once.Pairwise fun x y => mentions.idxOf x < mentions.idxOf y

namespace FirstMentions
variable {mentions once : List String}

theorem nil : FirstMentions [] [] := ⟨List.nodup_nil, fun _ => Iff.rfl, .nil⟩

theorem idxOf_lt (h : FirstMentions mentions once) {x : String} (hx : x ∈ once) :
    mentions.idxOf x < mentions.length :=
  List.idxOf_lt_length_of_mem ((h.mem_iff x).mp hx)

/-- Mentions behind those that have been made do not change which of them came first. -/
theorem order_append (h : FirstMentions mentions once) (more : List String) :
    once.Pairwise fun x y => (mentions ++ more).idxOf x < (mentions ++ more).idxOf y := by
  refine h.order.imp_of_mem fun {x y} hx hy hxy => ?_
  rwa [List.idxOf_append_of_mem ((h.mem_iff x).mp hx), List.idxOf_append_of_mem ((h.mem_iff y).mp hy)]

/-- One more mention counts if it is the first of its kind. -/
theorem note (h : FirstMentions mentions once) (x : String) :
    FirstMentions (mentions ++ [x]) (BuildContext.noteOnce once x) := by
  rw [BuildContext.noteOnce]
  by_cases hx : x ∈ once
  · rw [if_pos (List.contains_iff_mem.mpr hx)]
    refine ⟨h.nodup, fun y => ?_, h.order_append [x]⟩
    rw [h.mem_iff, List.mem_append, List.mem_singleton]
    refine ⟨.inl, fun hy => hy.elim id ?_⟩
    rintro rfl
    exact (h.mem_iff _).mp hx
  · rw [if_neg fun hc => hx (List.contains_iff_mem.mp hc)]
    have hnew : x ∉ mentions := fun hm => hx ((h.mem_iff x).mpr hm)
    refine ⟨?_, fun y => ?_, ?_⟩
    · exact List.nodup_append.mpr ⟨h.nodup, List.nodup_singleton x, fun y hy z hz => by
        rintro rfl
        exact hx (List.mem_singleton.mp hz ▸ hy)⟩
    · rw [List.mem_append, List.mem_append, h.mem_iff]
    · refine List.pairwise_append.mpr
        ⟨h.order_append [x], List.pairwise_singleton _ _, fun y hy z hz => ?_⟩
      -- What is new is found behind all mentions before it.
      rw [List.mem_singleton.mp hz, List.idxOf_append_of_mem ((h.mem_iff y).mp hy),
        List.idxOf_append_of_notMem hnew]
      exact Nat.lt_add_right _ (h.idxOf_lt hy)

end FirstMentions

/-! ## Accesses -/

namespace Build

structure Access where
  path : String
  mode : String
deriving DecidableEq, Repr

namespace Access

def Writes (a : Access) : Prop := 'w' ∈ a.mode.toList ∨ 'a' ∈ a.mode.toList ∨ 'x' ∈ a.mode.toList

instance : DecidablePred Writes := fun a =>
  inferInstanceAs (Decidable ('w' ∈ a.mode.toList ∨ 'a' ∈ a.mode.toList ∨ 'x' ∈ a.mode.toList))

theorem writes_iff (a : Access) : BuildContext.writes a.mode = true ↔ a.Writes := by
  rw [BuildContext.writes, List.any_eq_true]
  constructor
  · rintro ⟨c, hc, hmark⟩
    obtain rfl | rfl | rfl := of_decide_eq_true hmark
    · exact .inl hc
    · exact .inr (.inl hc)
    · exact .inr (.inr hc)
  · rintro (hc | hc | hc)
    · exact ⟨_, hc, by decide⟩
    · exact ⟨_, hc, by decide⟩
    · exact ⟨_, hc, by decide⟩

def readPaths (as : List Access) : List String :=
  (as.filter fun a => ¬ a.Writes).map fun a => Path.withSlashes a.path

def writtenPaths (as : List Access) : List String :=
  (as.filter fun a => a.Writes).map fun a => Path.withSlashes a.path

theorem mem_readPaths {as : List Access} {path : String} :
    path ∈ readPaths as ↔ ∃ a ∈ as, ¬ a.Writes ∧ Path.withSlashes a.path = path := by
  simp [readPaths, and_assoc]

theorem mem_writtenPaths {as : List Access} {path : String} :
    path ∈ writtenPaths as ↔ ∃ a ∈ as, a.Writes ∧ Path.withSlashes a.path = path := by
  simp [writtenPaths, and_assoc]

end Access

def noteAll (c : BuildContext) (as : List Access) : BuildContext :=
  as.foldl (fun c a => c.access a.path a.mode) c

structure Recorded (as : List Access) (c : BuildContext) : Prop where
  dependencies : FirstMentions (Access.readPaths as) c.dependencies
  targets : FirstMentions (Access.writtenPaths as) c.targets

structure Extends (s s' : BuildState) : Prop where
  dependencies : s.context.dependencies <+: s'.context.dependencies
  targets : s.context.targets <+: s'.context.targets

instance : Std.Refl Extends := ⟨fun _ => ⟨List.prefix_rfl, List.prefix_rfl⟩⟩

instance : Trans Extends Extends Extends :=
  ⟨fun h h' => ⟨h.dependencies.trans h'.dependencies, h.targets.trans h'.targets⟩⟩

theorem prefix_noteOnce (paths : List String) (path : String) :
    paths <+: BuildContext.noteOnce paths path := by
  rw [BuildContext.noteOnce]
  split
  · exact List.prefix_rfl
  · exact List.prefix_append paths [path]

section Accesses
variable {as : List Access} {c : BuildContext}

theorem Recorded.access (h : Recorded as c) (a : Access) :
    Recorded (as ++ [a]) (c.access a.path a.mode) := by
  by_cases ha : a.Writes
  · rw [BuildContext.access_of_write (a.writes_iff.mpr ha)]
    have hread : Access.readPaths (as ++ [a]) = Access.readPaths as := by
      simp [Access.readPaths, ha]
    have hwritten : Access.writtenPaths (as ++ [a]) =
        Access.writtenPaths as ++ [Path.withSlashes a.path] := by
      simp [Access.writtenPaths, ha]
    exact ⟨hread ▸ h.dependencies, hwritten ▸ h.targets.note _⟩
  · rw [BuildContext.access_of_read (Bool.eq_false_iff.mpr fun hw => ha (a.writes_iff.mp hw))]
    have hread : Access.readPaths (as ++ [a]) =
        Access.readPaths as ++ [Path.withSlashes a.path] := by
      simp [Access.readPaths, ha]
    have hwritten : Access.writtenPaths (as ++ [a]) = Access.writtenPaths as := by
      simp [Access.writtenPaths, ha]
    exact ⟨hread ▸ h.dependencies.note _, hwritten ▸ h.targets⟩

theorem Recorded.congr {c' : BuildContext} (h : Recorded as c)
    (hdependencies : c'.dependencies = c.dependencies) (htargets : c'.targets = c.targets) :
    Recorded as c' := ⟨hdependencies ▸ h.dependencies, htargets ▸ h.targets⟩

end Accesses

/-! ## What is done through a step -/

inductive Deed where
  | enter
  | leave
  | use (use : Use)
  | writeRule (path : String) (target : Option String)
deriving DecidableEq, Repr

namespace Deed

def perform : Deed → Build (Option Unit)
  | .enter => (fun _ => none) <$> Build.enter
  | .leave => (fun _ => none) <$> Build.leave
  | .use u => (fun _ => none) <$> u.perform
  | .writeRule path target => (fun _ => none) <$> Build.writeRule path target

def accesses : Deed → List Access
  | .use (.access path mode) => [⟨path, mode⟩]
  | .use (.toData (.file path)) => [⟨path, "rb"⟩]
  | _ => []

end Deed

/-- What a new step has come to when some things have been done through it. -/
def worked (given : Option String) (w : Workspace) (deeds : List Deed) : BuildState :=
  after Deed.perform ⟨.ofDirectory? given, w⟩ deeds

variable {s : BuildState}

theorem context_within {α : Type} (r : Run α) (s : BuildState) :
    (left (within r) s).context = s.context := by
  rw [left, within]
  cases r s.workspace <;> rfl

theorem context_writeRule (path : String) (target : Option String) (s : BuildState) :
    (left (writeRule path target) s).context = s.context := by
  have hrun : writeRule path target s = (ofExcept (s.context.rule target) >>= fun text =>
      within (Run.storeText text path)) s := rfl
  cases hrule : s.context.rule target with
  | error f =>
    have hfails : ofExcept (s.context.rule target) s = .error f s := by
      rw [hrule]
      rfl
    rw [left, hrun.trans (bind_of_error hfails)]
  | ok text =>
    have hgoes : ofExcept (s.context.rule target) s = .ok text s := by
      rw [hrule]
      rfl
    rw [left_congr (hrun.trans (bind_of_ok hgoes)), context_within]

/-- What is put on record, and that nothing else is. -/
theorem context_perform (d : Deed) (s : BuildState) : ∃ scratch allocated,
    (left d.perform s).context = noteAll { s.context with scratch, allocated } d.accesses := by
  cases d with
  | enter =>
    obtain ⟨scratch, hcontext⟩ := context_enter s
    exact ⟨scratch, s.context.allocated, (congrArg _ (left_map _ _ s)).trans hcontext⟩
  | leave =>
    obtain ⟨scratch, hcontext⟩ := context_leave s
    exact ⟨scratch, s.context.allocated, (congrArg _ (left_map _ _ s)).trans hcontext⟩
  | writeRule path target =>
    exact ⟨s.context.scratch, s.context.allocated,
      (congrArg _ (left_map _ _ s)).trans (context_writeRule path target s)⟩
  | use u =>
    rw [Deed.perform, left_map]
    cases u with
    | allocate extension =>
      rw [Use.perform, left_map]
      cases hpath : s.context.scratch.path? with
      | none => exact ⟨_, _, by rw [left, allocate_of_none extension hpath]; rfl⟩
      | some directory => exact ⟨_, _, by rw [left, allocate_of_some extension hpath]; rfl⟩
    | toFile data =>
      rw [Use.perform, left_map]
      cases hpath : s.context.scratch.path? with
      | none => exact ⟨_, _, by rw [left_toFile_of_inactive data hpath]; rfl⟩
      | some directory => exact ⟨_, _, context_toFile_of_active data hpath⟩
    | toData source =>
      rw [Use.perform, left_map]
      cases source with
      | data bytes => exact ⟨_, _, by rw [left_toData_data]; rfl⟩
      | file path =>
        have hread : BuildContext.writes "rb" = false := by decide
        refine ⟨s.context.scratch, s.context.allocated, ?_⟩
        rw [context_toData_file, ← BuildContext.access_of_read hread, Deed.accesses, noteAll,
          List.foldl_cons, List.foldl_nil]
    | access path mode =>
      rw [Use.perform, left_map]
      exact ⟨s.context.scratch, s.context.allocated, rfl⟩

section Deeds
variable {as : List Access}

theorem Recorded.accesses {c : BuildContext} (h : Recorded as c) (more : List Access) :
    Recorded (as ++ more) (noteAll c more) := by
  induction more generalizing as c with
  | nil => rwa [List.append_nil]
  | cons a rest ih =>
    rw [← List.singleton_append, ← List.append_assoc]
    exact ih (h.access a)

/-- One deed puts its own accesses on record. -/
theorem Recorded.deed (h : Recorded as s.context) (d : Deed) :
    Recorded (as ++ d.accesses) (left d.perform s).context := by
  obtain ⟨scratch, allocated, hcontext⟩ := context_perform d s
  have hsame : Recorded as { s.context with scratch, allocated } := h.congr rfl rfl
  exact hcontext ▸ hsame.accesses d.accesses

theorem Recorded.after (h : Recorded as s.context) (deeds : List Deed) :
    Recorded (as ++ deeds.flatMap Deed.accesses) (after Deed.perform s deeds).context := by
  induction deeds generalizing s as with
  | nil => rwa [List.flatMap_nil, List.append_nil]
  | cons d rest ih =>
    rw [List.flatMap_cons, ← List.append_assoc]
    exact ih (h.deed d)

theorem prefix_access (c : BuildContext) (path mode : String) :
    c.dependencies <+: (c.access path mode).dependencies ∧
      c.targets <+: (c.access path mode).targets := by
  cases hmode : BuildContext.writes mode with
  | true =>
    rw [BuildContext.access_of_write hmode]
    exact ⟨List.prefix_rfl, prefix_noteOnce _ _⟩
  | false =>
    rw [BuildContext.access_of_read hmode]
    exact ⟨prefix_noteOnce _ _, List.prefix_rfl⟩

theorem prefix_accesses (as : List Access) (c : BuildContext) :
    c.dependencies <+: (noteAll c as).dependencies ∧ c.targets <+: (noteAll c as).targets := by
  induction as generalizing c with
  | nil => exact ⟨List.prefix_rfl, List.prefix_rfl⟩
  | cons a rest ih =>
    obtain ⟨hdependencies, htargets⟩ := prefix_access c a.path a.mode
    obtain ⟨hmore, hwritten⟩ := ih (c.access a.path a.mode)
    exact ⟨hdependencies.trans hmore, htargets.trans hwritten⟩

theorem extends_perform (d : Deed) : Keeps Extends d.perform := by
  intro s
  obtain ⟨scratch, allocated, hcontext⟩ := context_perform d s
  obtain ⟨hdependencies, htargets⟩ := prefix_accesses d.accesses { s.context with scratch, allocated }
  exact ⟨hcontext ▸ hdependencies, hcontext ▸ htargets⟩

end Deeds

/-- Whatever is done through a new step, in whatever order and whether it fails or not: the
dependencies are the paths that have been read, the targets those that have been written, each once
and in the order in which they were first accessed in that way. What is done then only adds to the
end of either list. A path is on both lists exactly when it has been both read and written. -/
theorem record_of_accesses (given : Option String) (w : Workspace) (deeds : List Deed) :
    FirstMentions (Access.readPaths (deeds.flatMap Deed.accesses))
        (worked given w deeds).context.dependencies ∧
      FirstMentions (Access.writtenPaths (deeds.flatMap Deed.accesses))
        (worked given w deeds).context.targets ∧
      (∀ more : List Deed, Extends (worked given w deeds) (worked given w (deeds ++ more))) ∧
      ∀ path, (path ∈ (worked given w deeds).context.dependencies ∧
          path ∈ (worked given w deeds).context.targets) ↔
        (∃ a ∈ deeds.flatMap Deed.accesses, ¬ a.Writes ∧ Path.withSlashes a.path = path) ∧
          ∃ a ∈ deeds.flatMap Deed.accesses, a.Writes ∧ Path.withSlashes a.path = path := by
  have hstart : Recorded [] (BuildContext.ofDirectory? given) := by
    cases given <;> exact ⟨.nil, .nil⟩
  obtain ⟨hread, hwritten⟩ := hstart.after (s := ⟨.ofDirectory? given, w⟩) deeds
  rw [List.nil_append] at hread hwritten
  refine ⟨hread, hwritten, fun more => ?_, fun path => ?_⟩
  · rw [worked, worked, after_append]
    exact related_after (fun d _ => extends_perform d) _
  · rw [worked, hread.mem_iff, hwritten.mem_iff, Access.mem_readPaths, Access.mem_writtenPaths]

end Build
end FirmwareKit
