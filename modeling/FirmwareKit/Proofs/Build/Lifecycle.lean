import FirmwareKit.Proofs.Build.Step
set_option autoImplicit false

namespace FirmwareKit.Build

inductive Call where
  | enter
  | leave
  | allocate (extension : String)
deriving DecidableEq, Repr

def Call.perform : Call → Build (Option String)
  | .enter => (fun _ => none) <$> Build.enter
  | .leave => (fun _ => none) <$> Build.leave
  | .allocate extension => some <$> Build.allocate extension

/-- What has become of the directory of a step: it was given, there is none, or it is the only thing
that the step has added to the files. -/
inductive Phase (given : Option String) (w : Workspace) (s : BuildState) : Prop
  | lent {path : String} (hgiven : given = some path) (hscratch : s.context.scratch = .given path)
      (htree : s.workspace.tree = w.tree) : Phase given w s
  | idle (hgiven : given = none) (hscratch : s.context.scratch = .none)
      (htree : s.workspace.tree = w.tree) : Phase given w s
  | owning {path : String} {place : Place} (hgiven : given = none)
      (hscratch : s.context.scratch = .owned path) (hfree : w.tree.entry? place = none)
      (htree : s.workspace.tree = w.tree.put place .directory)
      (hfound : s.workspace.tree.lookup? s.workspace.directory path = some (place, .directory)) :
      Phase given w s

section Steps
variable {given : Option String} {w : Workspace} {s : BuildState}

theorem Phase.enter (h : Phase given w s) : Phase given w (left Build.enter s) := by
  cases h with
  | lent hgiven hscratch htree =>
    rw [left, enter_of_started (by simp [hscratch])]
    exact .lent hgiven hscratch htree
  | owning hgiven hscratch hfree htree hfound =>
    rw [left, enter_of_started (by simp [hscratch])]
    exact .owning hgiven hscratch hfree htree hfound
  | idle hgiven hscratch htree =>
    rcases enter_cases hscratch with ⟨path, place, t, henter, hentered, -⟩ | ⟨f, t, henter, hcontext, hsame⟩
    · rw [left, henter]
      exact .owning hgiven hentered.scratch (htree ▸ hentered.free) (htree ▸ hentered.tree)
        hentered.found
    · rw [left, henter]
      exact .idle hgiven (hcontext ▸ hscratch) (hsame.tree.trans htree)

/-- When a step has been ended, it has no directory of its own. -/
theorem Phase.leave (hrooted : w.tree.Rooted) (h : Phase given w s) :
    Phase given w (left Build.leave s) ∧
      ∀ path, (left Build.leave s).context.scratch ≠ .owned path := by
  have hkept (hscratch : ∀ path, s.context.scratch ≠ .owned path) :
      Phase given w (left Build.leave s) ∧
        ∀ path, (left Build.leave s).context.scratch ≠ .owned path := by
    rw [left, leave_of_not_owned hscratch]
    exact ⟨h, hscratch⟩
  cases h with
  | lent hgiven hscratch => exact hkept fun path => by simp [hscratch]
  | idle hgiven hscratch => exact hkept fun path => by simp [hscratch]
  | owning hgiven hscratch hfree htree hfound =>
    obtain ⟨t, hleave, hcontext, -, hremoved⟩ := leave_of_owned hscratch
    -- Nothing lay at the place when the directory was made, so taking it away restores the tree.
    have hgone : t.workspace.tree = w.tree := by
      rw [hremoved _ _ hfound, htree, FileTree.remove_put hrooted hfree]
    have hnone : t.context.scratch = .none := by rw [hcontext]
    rw [left, hleave]
    exact ⟨.idle hgiven hnone hgone, fun path => by simp [hnone]⟩

theorem Phase.tree_eq (h : Phase given w s) (hnot : ∀ path, s.context.scratch ≠ .owned path) :
    s.workspace.tree = w.tree ∧ (given = none → s.context.scratch = .none) := by
  cases h with
  | lent hgiven _ htree => exact ⟨htree, fun hnone => by rw [hnone] at hgiven; cases hgiven⟩
  | idle _ hscratch htree => exact ⟨htree, fun _ => hscratch⟩
  | owning _ hscratch => exact absurd hscratch (hnot _)

theorem Phase.allocate (h : Phase given w s) (extension : String) :
    Phase given w (left (Build.allocate extension) s) := by
  have hsame : (left (Build.allocate extension) s).context.scratch = s.context.scratch ∧
      (left (Build.allocate extension) s).workspace = s.workspace := by
    cases hpath : s.context.scratch.path? with
    | none => rw [left, allocate_of_none extension hpath]; exact ⟨rfl, rfl⟩
    | some path => rw [left, allocate_of_some extension hpath]; exact ⟨rfl, rfl⟩
  obtain ⟨hcontext, hworkspace⟩ := hsame
  cases h with
  | lent hgiven hscratch htree =>
    exact .lent hgiven (hcontext.trans hscratch) (hworkspace ▸ htree)
  | idle hgiven hscratch htree =>
    exact .idle hgiven (hcontext.trans hscratch) (hworkspace ▸ htree)
  | owning hgiven hscratch hfree htree hfound =>
    exact .owning hgiven (hcontext.trans hscratch) hfree (hworkspace ▸ htree) (hworkspace ▸ hfound)

theorem Phase.call (hrooted : w.tree.Rooted) (h : Phase given w s) (call : Call) :
    Phase given w (left call.perform s) := by
  cases call with
  | enter => exact (left_map _ _ s).symm ▸ h.enter
  | leave => exact (left_map _ _ s).symm ▸ (h.leave hrooted).1
  | allocate extension => exact (left_map _ _ s).symm ▸ h.allocate extension

theorem Phase.after (hrooted : w.tree.Rooted) (h : Phase given w s) (calls : List Call) :
    Phase given w (after Call.perform s calls) := by
  induction calls generalizing s with
  | nil => exact h
  | cons call rest ih => exact ih (h.call hrooted call)

theorem phase_start (given : Option String) (w : Workspace) :
    Phase given w ⟨.ofDirectory? given, w⟩ := by
  cases given with
  | none => exact .idle rfl rfl rfl
  | some path => exact .lent rfl rfl rfl

theorem allocated_enter (s : BuildState) :
    (left Build.enter s).context.allocated = s.context.allocated := by
  obtain ⟨scratch, hcontext⟩ := context_enter s
  rw [hcontext]

theorem allocated_leave (s : BuildState) :
    (left Build.leave s).context.allocated = s.context.allocated := by
  obtain ⟨scratch, hcontext⟩ := context_leave s
  rw [hcontext]

theorem handed?_map_none {work : Build Unit} (s : BuildState) :
    handed? ((fun _ => (none : Option String)) <$> work) s = none := by
  rw [handed?]
  split
  case h_1 a t h =>
    obtain ⟨_, -, rfl⟩ := ok_of_map h
    rfl
  case h_2 => rfl

/-- A name that is handed out is counted. -/
theorem allocated_call (call : Call) (s : BuildState) :
    (left call.perform s).context.allocated =
      s.context.allocated + (handed? call.perform s).toList.length := by
  cases call with
  | enter =>
    rw [Call.perform, left_map, allocated_enter, handed?_map_none]
    rfl
  | leave =>
    rw [Call.perform, left_map, allocated_leave, handed?_map_none]
    rfl
  | allocate extension =>
    rw [Call.perform, left_map]
    cases hpath : s.context.scratch.path? with
    | none =>
      have hfails := allocate_of_none extension hpath
      rw [left, hfails, handed?, map_of_error hfails]
      rfl
    | some path =>
      have hgrants := allocate_of_some extension hpath
      rw [left, hgrants, handed?, map_of_ok hgrants]
      rfl

/-- As many names have been counted as have been handed out. -/
theorem allocated_after (s : BuildState) (calls : List Call) :
    (after Call.perform s calls).context.allocated =
      s.context.allocated + (handed Call.perform s calls).length := by
  induction calls generalizing s with
  | nil => rfl
  | cons call rest ih =>
    rw [handed, List.length_append, ← Nat.add_assoc, ← allocated_call]
    exact ih _

end Steps

/-- Whatever calls are made in whatever order: a directory that was given stays the one of the step
and the files stay as they were; without it, the step either has no directory and the files are as
they were, or its directory is the one that it has added to them. A call that has ended the step
leaves none. A name is refused without any effect when there is no directory, and else it is handed
out with the number that comes next after those of all names so far. -/
theorem lifecycle (given : Option String) {w : Workspace} (hrooted : w.tree.Rooted)
    (calls : List Call) {s : BuildState}
    (hs : s = after Call.perform ⟨.ofDirectory? given, w⟩ calls) :
    (∀ path, given = some path →
        s.context.scratch.path? = some path ∧ s.workspace.tree = w.tree) ∧
      (given = none →
        (s.context.scratch.path? = none ∧ s.workspace.tree = w.tree) ∨
          ∃ path place, s.context.scratch.path? = some path ∧ w.tree.entry? place = none ∧
            s.workspace.tree = w.tree.put place .directory ∧
            s.workspace.tree.lookup? s.workspace.directory path = some (place, .directory)) ∧
      (calls.getLast? = some .leave →
        s.workspace.tree = w.tree ∧ (given = none → s.context.scratch.path? = none)) ∧
      ∀ extension : String,
        (s.context.scratch.path? = none →
          allocate extension s = .error .contextInactive s) ∧
        ∀ path, s.context.scratch.path? = some path → ∃ t, allocate extension s = .ok
          (Path.join path (BuildContext.temporaryName
            ((handed Call.perform ⟨.ofDirectory? given, w⟩ calls).length + 1) extension)) t := by
  subst hs
  have hphase := (phase_start given w).after hrooted calls
  have hcount := allocated_after ⟨.ofDirectory? given, w⟩ calls
  have hstart : (BuildContext.ofDirectory? given).allocated = 0 := rfl
  rw [hstart, Nat.zero_add] at hcount
  refine ⟨?_, ?_, fun hlast => ?_, fun extension => ⟨allocate_of_none extension, fun path hpath => ?_⟩⟩
  · rintro path rfl
    cases hphase with
    | lent hgiven hscratch htree =>
      cases hgiven
      exact ⟨by rw [hscratch]; rfl, htree⟩
    | idle hgiven => cases hgiven
    | owning hgiven => cases hgiven
  · rintro rfl
    cases hphase with
    | lent hgiven => cases hgiven
    | idle _ hscratch htree => exact .inl ⟨by rw [hscratch]; rfl, htree⟩
    | owning _ hscratch hfree htree hfound =>
      exact .inr ⟨_, _, by rw [hscratch]; rfl, hfree, htree, hfound⟩
  · obtain ⟨before, rfl⟩ := List.getLast?_eq_some_iff.mp hlast
    have hended := ((phase_start given w).after hrooted before).leave hrooted
    have hstate : after Call.perform ⟨.ofDirectory? given, w⟩ (before ++ [.leave]) =
        left Build.leave (after Call.perform ⟨.ofDirectory? given, w⟩ before) := by
      rw [after_append]
      exact left_map _ _ _
    rw [← hstate] at hended
    obtain ⟨htree, hnone⟩ := hended.1.tree_eq hended.2
    exact ⟨htree, fun hgiven => by rw [hnone hgiven]; rfl⟩
  · rw [← hcount]
    exact ⟨_, allocate_of_some extension hpath⟩

/-- A step that is started anew goes on counting. -/
theorem lifecycle_restarted :
    ∃ t, allocate ".bin" (after Call.perform ⟨.ofDirectory? none, freshWorkspace⟩
        [.allocate "", .enter, .allocate ".o", .leave, .leave, .enter, .enter]) =
      .ok "/tmp/wswantool-1/wf00002.bin" t := by
  have hrooted : freshWorkspace.tree.Rooted := by decide
  have hpath : (after Call.perform ⟨.ofDirectory? none, freshWorkspace⟩
      [.allocate "", .enter, .allocate ".o", .leave, .leave, .enter, .enter]).context.scratch.path? =
        some "/tmp/wswantool-1" := by decide +kernel
  have hname : Path.join "/tmp/wswantool-1" (BuildContext.temporaryName
      ((handed Call.perform ⟨.ofDirectory? none, freshWorkspace⟩
        [.allocate "", .enter, .allocate ".o", .leave, .leave, .enter, .enter]).length + 1) ".bin") =
        "/tmp/wswantool-1/wf00002.bin" := by decide +kernel
  obtain ⟨-, -, -, hallocate⟩ := lifecycle none hrooted
    [.allocate "", .enter, .allocate ".o", .leave, .leave, .enter, .enter] rfl
  obtain ⟨t, ht⟩ := (hallocate ".bin").2 _ hpath
  exact ⟨t, by rw [ht, hname]⟩

end FirmwareKit.Build
