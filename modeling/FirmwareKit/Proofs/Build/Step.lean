import FirmwareKit.Build.Step
import FirmwareKit.Proofs.Files.Store
set_option autoImplicit false

namespace FirmwareKit.Build
variable {α β : Type}

structure SameFiles (s s' : BuildState) : Prop where
  workspace : s.workspace.SameFiles s'.workspace
  scratch : s'.context.scratch = s.context.scratch

instance : Std.Refl SameFiles := ⟨fun _ => ⟨Std.Refl.refl _, rfl⟩⟩

instance : Trans SameFiles SameFiles SameFiles :=
  ⟨fun h h' => ⟨Trans.trans h.workspace h'.workspace, h'.scratch.trans h.scratch⟩⟩

def Reads (work : Build α) : Prop := Keeps SameFiles work

/-- Work that has only read when it fails for a reason that the library knows. -/
def Declines (work : Build α) : Prop :=
  ∀ s f s', work s = .error f s' → Outcome.isExpected f = true → SameFiles s s'

theorem reads_ofExcept (e : Except Fault α) : Reads (ofExcept e) := by
  cases e with
  | error f => exact keeps_throw f
  | ok a => exact keeps_pure a

theorem reads_access (path mode : String) : Reads (access path mode) := by
  intro s
  refine ⟨Std.Refl.refl _, ?_⟩
  change (s.context.access path mode).scratch = _
  rw [BuildContext.access]
  split <;> rfl

theorem reads_within {r : Run α} (hr : Run.Reads r) : Reads (within r) := by
  intro s
  have hleft := hr s.workspace
  rw [left] at hleft
  rw [left, within]
  generalize r s.workspace = result at hleft
  cases result with
  | ok a w => exact ⟨hleft, rfl⟩
  | error f w => exact ⟨hleft, rfl⟩

theorem declines_bind {work : Build α} {k : α → Build β} (h : Reads work)
    (hk : ∀ a, Declines (k a)) : Declines (work >>= k) := by
  intro s f s' hs hf
  rcases error_of_bind hs with hs | ⟨a, t, ht, hs⟩
  · exact h.of_error hs
  · exact Trans.trans (h.of_ok ht) (hk a t f s' hs hf)

theorem declines_of_unforeseen {work : Build α} (h : Unforeseen work) :
    Declines work := by
  intro s f s' hs hf
  rw [h s f s' hs] at hf
  cases hf

/-! The directory of a step -/

theorem unforeseen_within {r : Run α} (hr : Unforeseen r) : Unforeseen (within r) := by
  intro s f s' h
  rw [within] at h
  cases hresult : r s.workspace with
  | ok a w =>
    rw [hresult] at h
    cases h
  | error g w =>
    rw [hresult] at h
    cases h
    exact hr _ _ _ hresult

theorem within_of_ok {r : Run α} {a : α} {s : BuildState} {w : Workspace}
    (h : r s.workspace = .ok a w) : within r s = .ok a { s with workspace := w } := by
  rw [within, h]

theorem within_of_error {r : Run α} {f : Fault} {s : BuildState} {w : Workspace}
    (h : r s.workspace = .error f w) : within r s = .error f { s with workspace := w } := by
  rw [within, h]

theorem ok_of_within {r : Run α} {a : α} {s s' : BuildState} (h : within r s = .ok a s') :
    r s.workspace = .ok a s'.workspace ∧ s'.context = s.context := by
  rw [within] at h
  cases hresult : r s.workspace with
  | ok b w =>
    rw [hresult] at h
    cases h
    exact ⟨rfl, rfl⟩
  | error g w =>
    rw [hresult] at h
    cases h

theorem ok_of_makeTemporary {path : String} {w w' : Workspace}
    (h : Run.makeTemporary w = .ok path w') :
    ∃ place asDirectory, w.tree.locate w.directory path = .ok (.free place asDirectory) ∧
      w'.tree = w.tree.put place .directory ∧ w'.directory = w.directory := by
  obtain ⟨v, u, hget, h⟩ := ok_of_bind h
  cases hget
  obtain ⟨_, v, hset, h⟩ := ok_of_bind h
  cases hset
  obtain ⟨_, v, hmake, h⟩ := ok_of_bind h
  cases h
  obtain ⟨target, u, hlocate, hmake⟩ := ok_of_bind hmake
  obtain ⟨hsame, hfree⟩ := Run.ok_of_locate hlocate
  subst hsame
  cases target with
  | present place entry => cases hmake
  | free place asDirectory =>
    cases hmake
    exact ⟨place, asDirectory, hfree, rfl, rfl⟩

theorem sameFiles_of_makeTemporary {f : Fault} {w w' : Workspace}
    (h : Run.makeTemporary w = .error f w') : w.SameFiles w' := by
  rcases error_of_bind h with h | ⟨v, u, hget, h⟩
  · cases h
  cases hget
  rcases error_of_bind h with h | ⟨_, u, hset, h⟩
  · cases h
  cases hset
  rcases error_of_bind h with h | ⟨_, u, -, h⟩
  · rcases error_of_bind h with h | ⟨target, v, hlocate, h⟩
    · have hsame := (Run.reads_locate _).of_error h
      exact ⟨hsame.tree, hsame.directory⟩
    · obtain ⟨rfl, -⟩ := Run.ok_of_locate hlocate
      cases target with
      | present => cases h; exact ⟨rfl, rfl⟩
      | free => cases h
  · cases h

theorem unforeseen_makeTemporary : Unforeseen Run.makeTemporary :=
  Run.unforeseen_get.bind fun _ => Unforeseen.bind (fun _ _ _ h => nomatch h) fun _ =>
    (Run.unforeseen_makeDirectory _).bind fun _ => unforeseen_pure _

/-- The state in which a step of its own does its work: its directory is at a free place. -/
structure Entered (w : Workspace) (s : BuildState) (path : String) (place : Place) : Prop where
  scratch : s.context.scratch = .owned path
  directory : s.workspace.directory = w.directory
  free : w.tree.entry? place = none
  tree : s.workspace.tree = w.tree.put place .directory
  found : s.workspace.tree.lookup? s.workspace.directory path = some (place, .directory)

/-- A step without a directory makes itself one, or it changes nothing. -/
theorem enter_cases {s : BuildState} (hscratch : s.context.scratch = .none) :
    (∃ path place t, enter s = .ok () t ∧ Entered s.workspace t path place ∧
        t.context = { s.context with scratch := .owned path }) ∨
      ∃ f t, enter s = .error f t ∧ t.context = s.context ∧
        s.workspace.SameFiles t.workspace := by
  obtain ⟨⟨scratch, dependencies, targets, allocated⟩, w⟩ := s
  obtain rfl : scratch = .none := hscratch
  have henter : enter ⟨⟨.none, dependencies, targets, allocated⟩, w⟩ =
      (within Run.makeTemporary >>= fun path => do
        setContext ⟨.owned path, dependencies, targets, allocated⟩
        within (Run.note (.debug source s!"Created temporary directory {path}")))
        ⟨⟨.none, dependencies, targets, allocated⟩, w⟩ := rfl
  rw [henter]
  cases hmade : Run.makeTemporary w with
  | error f w' =>
    exact .inr ⟨f, _, bind_of_error (within_of_error hmade), rfl, sameFiles_of_makeTemporary hmade⟩
  | ok path w' =>
    obtain ⟨place, asDirectory, hlocate, htree, hdirectory⟩ := ok_of_makeTemporary hmade
    have hput := FileTree.locate_put (x := .directory) hlocate fun _ => rfl
    rw [FileTree.Target.place, ← htree, ← hdirectory] at hput
    rw [bind_of_ok (within_of_ok hmade)]
    exact .inl ⟨path, place, _, rfl, ⟨rfl, hdirectory, (FileTree.way_of_locate hlocate).2.found, htree,
      FileTree.lookup?_eq_some_iff.mpr hput⟩, rfl⟩

/-- A step that has a directory is given no other. -/
theorem enter_of_started {s : BuildState} (h : s.context.scratch ≠ .none) : enter s = .ok () s := by
  obtain ⟨⟨scratch, dependencies, targets, allocated⟩, w⟩ := s
  cases scratch with
  | none => exact absurd rfl h
  | given | owned => rfl

theorem context_enter (s : BuildState) :
    ∃ scratch, (left enter s).context = { s.context with scratch } := by
  by_cases hscratch : s.context.scratch = .none
  · rcases enter_cases hscratch with ⟨path, place, t, henter, -, hcontext⟩ | ⟨f, t, henter, hcontext, -⟩
    · exact ⟨.owned path, by rw [left, henter, hcontext]⟩
    · exact ⟨s.context.scratch, by rw [left, henter, hcontext]⟩
  · exact ⟨s.context.scratch, by rw [left, enter_of_started hscratch]⟩

theorem entered {s t : BuildState} (hscratch : s.context.scratch = .none)
    (h : enter s = .ok () t) : ∃ path place, Entered s.workspace t path place := by
  rcases enter_cases hscratch with ⟨path, place, t', ht', hentered, -⟩ | ⟨f, t', ht', -⟩
  · rw [h] at ht'
    cases ht'
    exact ⟨path, place, hentered⟩
  · rw [h] at ht'
    cases ht'

theorem unforeseen_enter : Unforeseen enter := by
  refine Unforeseen.bind (fun _ _ _ h => nomatch h) fun c => ?_
  split
  · refine (unforeseen_within unforeseen_makeTemporary).bind fun path => ?_
    exact Unforeseen.bind (fun _ _ _ h => nomatch h) fun _ => unforeseen_within (Run.unforeseen_note _)
  · exact unforeseen_pure ()

theorem removeAll_apply (path : String) (w : Workspace) :
    Run.removeAll path w = .ok () (match w.tree.lookup? w.directory path with
      | some (place, _) => w.withTree (w.tree.remove place)
      | none => w) := by
  change (match w.tree.lookup? w.directory path with
    | some (place, _) => set (w.withTree (w.tree.remove place))
    | none => pure () : Run Unit) w = _
  cases w.tree.lookup? w.directory path <;> rfl

/-- A step that has made itself a directory is ended without it. -/
theorem leave_of_owned {s : BuildState} {path : String} (hscratch : s.context.scratch = .owned path) :
    ∃ s', leave s = .ok () s' ∧ s'.context = { s.context with scratch := .none } ∧
      s'.workspace.directory = s.workspace.directory ∧
      ∀ place e, s.workspace.tree.lookup? s.workspace.directory path = some (place, e) →
        s'.workspace.tree = s.workspace.tree.remove place := by
  obtain ⟨⟨scratch, dependencies, targets, allocated⟩, w⟩ := s
  obtain rfl : scratch = .owned path := hscratch
  have hleave : leave ⟨⟨.owned path, dependencies, targets, allocated⟩, w⟩ =
      (within (Run.removeAll path) >>= fun _ =>
        setContext ⟨.none, dependencies, targets, allocated⟩)
        ⟨⟨.owned path, dependencies, targets, allocated⟩, { w with notes := w.notes ++
          [.debug source s!"Removing temporary directory {path}"] }⟩ := rfl
  rw [hleave, bind_of_ok (within_of_ok (removeAll_apply path _))]
  refine ⟨_, rfl, rfl, ?_, ?_⟩
  · change (match w.tree.lookup? w.directory path with
      | some (place, _) => _
      | none => _ : Workspace).directory = w.directory
    cases w.tree.lookup? w.directory path <;> rfl
  · intro place e hfound
    change FileTree.lookup? w.tree w.directory path = _ at hfound
    change (match w.tree.lookup? w.directory path with
      | some (place, _) => _
      | none => _ : Workspace).tree = _
    rw [hfound]
    rfl

theorem leave_of_not_owned {s : BuildState} (h : ∀ path, s.context.scratch ≠ .owned path) :
    leave s = .ok () s := by
  obtain ⟨⟨scratch, dependencies, targets, allocated⟩, w⟩ := s
  cases scratch with
  | none | given => rfl
  | owned path => exact absurd rfl (h path)

theorem context_leave (s : BuildState) :
    ∃ scratch, (left leave s).context = { s.context with scratch } := by
  by_cases howned : ∃ path, s.context.scratch = .owned path
  · obtain ⟨path, hscratch⟩ := howned
    obtain ⟨t, hleave, hcontext, -⟩ := leave_of_owned hscratch
    exact ⟨.none, by rw [left, hleave, hcontext]⟩
  · exact ⟨s.context.scratch, by rw [left, leave_of_not_owned fun path h => howned ⟨path, h⟩]⟩

/-- A step can always be ended. -/
theorem exists_leave (s : BuildState) : ∃ s', leave s = .ok () s' ∧
    s'.workspace.directory = s.workspace.directory ∧ ∀ path place e, s.context.scratch = .owned path →
      s.workspace.tree.lookup? s.workspace.directory path = some (place, e) →
        s'.workspace.tree = s.workspace.tree.remove place := by
  by_cases howned : ∃ path, s.context.scratch = .owned path
  · obtain ⟨path, hscratch⟩ := howned
    obtain ⟨s', hleave, -, hdirectory, htree⟩ := leave_of_owned hscratch
    refine ⟨s', hleave, hdirectory, fun path' place e hscratch' => ?_⟩
    cases hscratch.symm.trans hscratch'
    exact htree place e
  · exact ⟨s, leave_of_not_owned fun path h => howned ⟨path, h⟩, rfl,
      fun path _ _ h => absurd ⟨path, h⟩ howned⟩

/-! The names of a step -/

theorem allocate_apply (extension : String) (s : BuildState) :
    allocate extension s = match s.context.allocate extension with
      | .ok (path, c) => .ok path { s with context := c }
      | .error f => .error f s := by
  change (ofExcept (s.context.allocate extension) >>= fun granted => do
    setContext granted.2
    pure granted.1 : Build String) s = _
  cases s.context.allocate extension <;> rfl

theorem allocate_of_none (extension : String) {s : BuildState}
    (h : s.context.scratch.path? = none) :
    allocate extension s = .error .contextInactive s := by
  rw [allocate_apply, BuildContext.allocate, h]

/-- A name is handed out and counted, and nothing else happens. -/
theorem allocate_of_some (extension : String) {path : String} {s : BuildState}
    (h : s.context.scratch.path? = some path) :
    allocate extension s =
      .ok (Path.join path (BuildContext.temporaryName (s.context.allocated + 1) extension))
        { s with context := { s.context with allocated := s.context.allocated + 1 } } := by
  rw [allocate_apply, BuildContext.allocate, h]

def freshWorkspace : Workspace :=
  ⟨⟨[(["tmp"], .directory), (["work"], .directory)]⟩, ["work"], [], "/tmp/wswantool", 0, .usual⟩

/-! Whole steps -/

/-- A step that ends with a result was entered, has done its work and was left. -/
theorem ok_of_whole {work : Build α} {s s' : BuildState} {a : α} (h : whole work s = .ok a s') :
    ∃ t u, enter s = .ok () t ∧ work t = .ok a u ∧ leave u = .ok () s' := by
  rw [whole] at h
  obtain ⟨_, t, henter, h⟩ := ok_of_bind h
  rcases ok_of_tryCatch h with h | ⟨f, u, -, h⟩
  · obtain ⟨b, u, hwork, h⟩ := ok_of_bind h
    obtain ⟨_, v, hleave, h⟩ := ok_of_bind h
    cases h
    exact ⟨t, u, henter, hwork, hleave⟩
  · obtain ⟨_, v, -, h⟩ := ok_of_bind h
    cases h

/-- A step that declines has left no trace, its own directory being removed again. -/
theorem tree_of_whole {work : Build α} (hwork : Declines work) {w : Workspace}
    (hrooted : w.tree.Rooted) {f : Fault} {s' : BuildState}
    (h : whole work ⟨.ofDirectory? none, w⟩ = .error f s') (hf : Outcome.isExpected f = true) :
    s'.workspace.tree = w.tree := by
  rw [whole] at h
  rcases error_of_bind h with h | ⟨_, s, henter, h⟩
  · rw [unforeseen_enter _ _ _ h] at hf
    cases hf
  obtain ⟨path, place, hentered⟩ := entered rfl henter
  obtain ⟨g, t, hwhole, h⟩ := error_of_tryCatch h
  obtain ⟨u, hleave, -, htree⟩ := exists_leave t
  rw [bind_of_ok hleave] at h
  cases h
  rcases error_of_bind hwhole with hfailed | ⟨a, v, -, hended⟩
  · have hsame := hwork s f t hfailed hf
    have hfound := hentered.found
    rw [← hsame.workspace.tree, ← hsame.workspace.directory] at hfound
    rw [htree path place _ (hsame.scratch.trans hentered.scratch) hfound, hsame.workspace.tree,
      hentered.tree, FileTree.remove_put hrooted hentered.free]
  · -- Work that is done is only left, which cannot fail.
    obtain ⟨v', hleft, -⟩ := exists_leave v
    rw [bind_of_ok hleft] at hended
    cases hended

end FirmwareKit.Build
