import FirmwareKit.Proofs.Build.Temporary
set_option autoImplicit false

namespace FirmwareKit

namespace BuildContext

theorem access_of_read {mode : String} (h : writes mode = false) (c : BuildContext) (path : String) :
    c.access path mode =
      { c with dependencies := noteOnce c.dependencies (Path.withSlashes path) } := by
  rw [access, h]
  rfl

theorem access_of_write {mode : String} (h : writes mode = true) (c : BuildContext) (path : String) :
    c.access path mode = { c with targets := noteOnce c.targets (Path.withSlashes path) } := by
  rw [access, h]
  rfl

end BuildContext

namespace Build
variable {s t : BuildState} {f : Fault} {v : Value}

/-- The read is on record whatever becomes of it. -/
theorem context_toData_file (path : String) (s : BuildState) :
    (left (toData (.file path)) s).context = { s.context with
      dependencies := BuildContext.noteOnce s.context.dependencies (Path.withSlashes path) } := by
  have hrun : toData (.file path) s = within (Run.loadBytes Search.here path)
      ⟨s.context.access path "rb", s.workspace⟩ := rfl
  have hread : BuildContext.writes "rb" = false := by decide
  rw [left, hrun, within, ← BuildContext.access_of_read hread s.context path]
  cases Run.loadBytes Search.here path s.workspace <;> rfl

theorem left_toData_data (bytes : List UInt8) (s : BuildState) :
    left (toData (.data bytes)) s = s := rfl

/-- Without a directory there is no name to take. -/
theorem left_toFile_of_inactive (data : List UInt8) (h : s.context.scratch.path? = none) :
    left (toFile (.data data)) s = s := by
  have hfails : toFile (.data data) s = .error .contextInactive s :=
    bind_of_error (allocate_of_none ".tmp" h)
  rw [left, hfails]

/-- The name is taken whatever becomes of the data. -/
theorem context_toFile_of_active {directory : String} (data : List UInt8)
    (h : s.context.scratch.path? = some directory) : (left (toFile (.data data)) s).context =
      { s.context with allocated := s.context.allocated + 1 } := by
  rw [left]
  cases hstored : Run.storeBytes data (BuildContext.grantedPath directory (s.context.allocated + 1) ".tmp")
      s.workspace with
  | ok _ w => rw [toFile_of_ok h hstored]
  | error f w => rw [toFile_of_error h hstored]

theorem dataOf_eq {r : Reference} (h : Reference.ofValue v = .ok r) (s : BuildState) :
    dataOf v s = toData r s := by
  have hrun : dataOf v s = (ofExcept (Reference.ofValue v) >>= toData) s := rfl
  rw [hrun, h]
  rfl

theorem fileOf_eq {r : Reference} (h : Reference.ofValue v = .ok r) (s : BuildState) :
    fileOf v s = toFile r s := by
  have hrun : fileOf v s = (ofExcept (Reference.ofValue v) >>= toFile) s := rfl
  rw [hrun, h]
  rfl

/-- A value of another kind is refused before anything is done. -/
theorem refused_of_error (h : Reference.ofValue v = .error f) (s : BuildState) :
    dataOf v s = .error f s ∧ fileOf v s = .error f s := by
  have hdata : dataOf v s = (ofExcept (Reference.ofValue v) >>= toData) s := rfl
  have hfile : fileOf v s = (ofExcept (Reference.ofValue v) >>= toFile) s := rfl
  rw [hdata, hfile, h]
  exact ⟨rfl, rfl⟩

theorem left_of_error {α : Type} {r : Build α} (h : r s = .error f t) : left r s = t := by
  rw [left, h]

theorem context_of_dataOf_error (h : dataOf v s = .error f t) :
    (∃ path, Reference.ofValue v = .ok (.file path) ∧ t.context = { s.context with
        dependencies := BuildContext.noteOnce s.context.dependencies (Path.withSlashes path) }) ∨
      ((∀ path, Reference.ofValue v ≠ .ok (.file path)) ∧ t.context = s.context) := by
  cases href : Reference.ofValue v with
  | error g =>
    rw [(refused_of_error href s).1] at h
    cases h
    exact .inr ⟨fun path => by simp, rfl⟩
  | ok r =>
    rw [dataOf_eq href] at h
    rw [← left_of_error h]
    cases r with
    | file path => exact .inl ⟨path, rfl, context_toData_file path s⟩
    | data bytes => exact .inr ⟨fun path => by simp, by rw [left_toData_data]⟩

theorem context_of_fileOf_error (h : fileOf v s = .error f t) :
    ((∃ data, Reference.ofValue v = .ok (.data data)) ∧ s.context.isActive = true ∧
        t.context = { s.context with allocated := s.context.allocated + 1 }) ∨
      (((∀ data, Reference.ofValue v ≠ .ok (.data data)) ∨ s.context.isActive = false) ∧
        t.context = s.context) := by
  cases href : Reference.ofValue v with
  | error g =>
    rw [(refused_of_error href s).2] at h
    cases h
    exact .inr ⟨.inl fun data => by simp, rfl⟩
  | ok r =>
    rw [fileOf_eq href] at h
    rw [← left_of_error h]
    cases r with
    | file path => exact .inr ⟨.inl fun data => by simp, rfl⟩
    | data data =>
      rw [BuildContext.isActive]
      cases hpath : s.context.scratch.path? with
      | none => exact .inr ⟨.inr rfl, by rw [left_toFile_of_inactive data hpath]⟩
      | some directory => exact .inl ⟨⟨data, rfl⟩, rfl, context_toFile_of_active data hpath⟩

def blockedWorkspace : Workspace :=
  { freshWorkspace with tree := ⟨[(["work"], .directory), (["work", "t"], .file [])]⟩ }

/-- A file that is not there is on record, and a name is taken for data that cannot be written. -/
theorem failure_recorded :
    (∃ f t, dataOf (.text "missing.bin") ⟨.ofDirectory? none, freshWorkspace⟩ = .error f t ∧
        (BuildContext.ofDirectory? none).dependencies = [] ∧
        t.context.dependencies = ["missing.bin"]) ∧
      ∃ f t, fileOf (.bytes [1]) ⟨.ofDirectory? (some "t"), blockedWorkspace⟩ = .error f t ∧
        (BuildContext.ofDirectory? (some "t")).allocated = 0 ∧ t.context.allocated = 1 := by
  constructor
  · obtain ⟨f, t, h⟩ := exists_of_not_ends (r := dataOf (.text "missing.bin")
      ⟨.ofDirectory? none, freshWorkspace⟩) (by decide +kernel)
    refine ⟨f, t, h, rfl, ?_⟩
    rw [← left_of_error h]
    decide +kernel
  · obtain ⟨f, t, h⟩ := exists_of_not_ends (r := fileOf (.bytes [1])
      ⟨.ofDirectory? (some "t"), blockedWorkspace⟩) (by decide +kernel)
    refine ⟨f, t, h, rfl, ?_⟩
    rw [← left_of_error h]
    decide +kernel

/-- What a failed conversion leaves, from every state and for values of every kind. A failed
conversion to data has put the file that it was to read on record, once, and has changed nothing
else; if no file was to be read, the context is as it was. A failed conversion to a file has taken the
next name if there was data to write and a directory to write it to, and has changed nothing else;
else the context is as it was. -/
theorem trace_of_failure (v : Value) (s t : BuildState) (f : Fault) :
    (dataOf v s = .error f t →
        t.context.scratch = s.context.scratch ∧ t.context.targets = s.context.targets ∧
          t.context.allocated = s.context.allocated ∧
          ((∃ path, Reference.ofValue v = .ok (.file path) ∧ t.context.dependencies =
              BuildContext.noteOnce s.context.dependencies (Path.withSlashes path)) ∨
            (∀ path, Reference.ofValue v ≠ .ok (.file path)) ∧
              t.context.dependencies = s.context.dependencies)) ∧
      (fileOf v s = .error f t →
        t.context.scratch = s.context.scratch ∧ t.context.targets = s.context.targets ∧
          t.context.dependencies = s.context.dependencies ∧
          ((∃ data, Reference.ofValue v = .ok (.data data)) ∧ s.context.isActive = true ∧
              t.context.allocated = s.context.allocated + 1 ∨
            ((∀ data, Reference.ofValue v ≠ .ok (.data data)) ∨ s.context.isActive = false) ∧
              t.context.allocated = s.context.allocated)) := by
  refine ⟨fun h => ?_, fun h => ?_⟩
  · rcases context_of_dataOf_error h with ⟨path, href, hcontext⟩ | ⟨hnone, hcontext⟩
    · rw [hcontext]
      exact ⟨rfl, rfl, rfl, .inl ⟨path, href, rfl⟩⟩
    · rw [hcontext]
      exact ⟨rfl, rfl, rfl, .inr ⟨hnone, rfl⟩⟩
  · rcases context_of_fileOf_error h with ⟨hdata, hactive, hcontext⟩ | ⟨hnone, hcontext⟩
    · rw [hcontext]
      exact ⟨rfl, rfl, rfl, .inl ⟨hdata, hactive, rfl⟩⟩
    · rw [hcontext]
      exact ⟨rfl, rfl, rfl, .inr ⟨hnone, rfl⟩⟩

/-- A file that is already on record, and data in a step without a directory. -/
theorem trace_of_failure_known :
    (∃ f t, dataOf (.path "a\\b") ⟨⟨.none, ["a/b"], [], 0⟩, freshWorkspace⟩ = .error f t ∧
        t.context.targets = [] ∧ t.context.dependencies = ["a/b"]) ∧
      ∃ f t, fileOf (.buffer [1]) ⟨.ofDirectory? none, freshWorkspace⟩ = .error f t ∧
        t.context.allocated = 0 := by
  constructor
  · obtain ⟨f, t, h⟩ := exists_of_not_ends (r := dataOf (.path "a\\b")
      ⟨⟨.none, ["a/b"], [], 0⟩, freshWorkspace⟩) (by decide +kernel)
    obtain ⟨-, htargets, -, ⟨path, href, hrecorded⟩ | ⟨hnone, -⟩⟩ := (trace_of_failure _ _ t f).1 h
    · cases href
      exact ⟨f, t, h, htargets, hrecorded.trans (by decide +kernel)⟩
    · exact absurd rfl (hnone _)
  · obtain ⟨f, t, h⟩ := exists_of_not_ends (r := fileOf (.buffer [1])
      ⟨.ofDirectory? none, freshWorkspace⟩) (by decide +kernel)
    obtain ⟨-, -, -, ⟨-, hactive, -⟩ | ⟨-, hcount⟩⟩ := (trace_of_failure _ _ t f).2 h
    · cases hactive
    · exact ⟨f, t, h, hcount⟩

end Build
end FirmwareKit
