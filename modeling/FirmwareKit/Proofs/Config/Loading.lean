import FirmwareKit.Config.Loading
import FirmwareKit.Proofs.Ending
import FirmwareKit.Proofs.Yaml.Faults
import FirmwareKit.Proofs.Yaml.Making
import FirmwareKit.Proofs.Yaml.Reading
set_option autoImplicit false

/-!
# What loading a configuration may end with

A file that can be read gives a mapping that is not empty, or is refused with a fault of the general
kind. Only while a number, a character, a truth value or a time is made from its text, or where the text is
nested too deeply, does a fault of another kind come up, and such a fault is passed on.
-/
namespace FirmwareKit

namespace Json

def brackets (depth : Nat) : List Char := List.replicate depth '['

theorem skipBlanks_brackets (depth : Nat) (rest : List Char) :
    skipBlanks (brackets (depth + 1) ++ rest) = brackets (depth + 1) ++ rest := rfl

theorem readItems_of_error {fuel room : Nat} {cs : List Char} {r : Refusal}
    (h : readValue fuel room cs = .error r) : readItems (fuel + 1) room cs = .error r := by
  rw [readItems, h]
  rfl

theorem readValue_brackets (room fuel : Nat) (rest : List Char) (hfuel : 2 * room < fuel) :
    readValue fuel room (brackets (room + 1) ++ rest) = .error (.tooDeep "array") := by
  induction room generalizing fuel with
  | zero =>
    obtain ⟨fuel, rfl⟩ := Nat.exists_eq_add_of_lt hfuel
    simp [brackets, readValue, inside]
  | succ room ih =>
    obtain ⟨fuel, rfl⟩ : ∃ k, fuel = k + 2 := ⟨fuel - 2, by omega⟩
    have hitems := readItems_of_error (ih fuel (by omega))
    have hlist : readValue (fuel + 2) (room + 1) ('[' :: (brackets (room + 1) ++ rest)) =
        (readItems (fuel + 1) room (brackets (room + 1) ++ rest)).map fun r => (.list r.1, r.2) := by
      simp [readValue, inside, brackets, List.replicate_succ, skipBlanks, isBlank]
    exact hlist.trans (by rw [hitems]; rfl)

/-- One list more than there is room for is too many, whatever follows. -/
theorem load_brackets (room : Nat) (rest : List Char) :
    load room (String.ofList (brackets (room + 1) ++ rest)) = .error (.tooDeep "array") := by
  have hlength : room < (brackets (room + 1) ++ rest).length := by
    simp [brackets]
    omega
  rw [load, String.toList_ofList, skipBlanks_brackets, readValue_brackets _ _ _ (by omega)]
  rfl

end Json

namespace Config

variable {stack : Stack} {text : String} {f : SystemFault}

/-- The faults that reading a text passes on, with all that has to come before them. -/
inductive Stops (stack : Stack) (text : String) : SystemFault → Prop
  | number {count : Nat} (h : Json.load stack.json text = .error (.tooManyDigits count)) :
    Stops stack text (.tooManyDigits count)
  | nested {container : String} (h : Json.load stack.json text = .error (.tooDeep container)) :
    Stops stack text (tooDeep container)
  | exhausted {said : String} (hjson : Json.load stack.json text = .error .malformed)
    (hstack : stack.yaml text = some said) : Stops stack text (.recursion said)
  /-- The tokens end for the fault, and nothing is wrong with their order. -/
  | token {f : SystemFault} (hjson : Json.load stack.json text = .error .malformed)
    (hstack : stack.yaml text = none)
    (hstop : (Yaml.tokens text.toList).2 = some (.system f))
    (hend : ∀ stop, Yaml.Node.document (Yaml.tokens text.toList).1 stop = .error stop) :
    Stops stack text f
  /-- A node cannot be made, and all that is visited before it goes well. -/
  | node {f : SystemFault} {document : Yaml.Document} {n : Yaml.Node}
    (hjson : Json.load stack.json text = .error .malformed) (hstack : stack.yaml text = none)
    (hdocument : Yaml.Node.ofText text.toList = .ok (some document))
    (hfirst : First Yaml.Visit.Fails (Yaml.visitsOf text document) (.node n))
    (hmake : n.make = .error (.system f)) : Stops stack text f

/-- Beside what making a node may bring, a text may be nested too deeply. -/
def passedClasses : List String := "RecursionError" :: Yaml.nodeClasses

theorem Stops.className_mem (h : Stops stack text f) : f.className ∈ passedClasses := by
  cases h with
  | number => simp [passedClasses, Yaml.nodeClasses, SystemFault.className]
  | nested | exhausted => exact List.mem_cons_self
  | token _ _ hstop _ =>
    have hsub : Yaml.tokenClasses ⊆ passedClasses := by decide
    exact hsub (Yaml.className_of_tokens hstop)
  | node _ _ _ _ hmake => exact List.mem_cons_of_mem _ (Yaml.brings_make _ f hmake)

/-- Whatever room there is, some texts need more. -/
theorem stops_of_brackets (stack : Stack) (rest : List Char) :
    Stops stack (String.ofList (Json.brackets (stack.json + 1) ++ rest)) (tooDeep "array") :=
  .nested (Json.load_brackets stack.json rest)

theorem stops_iff_of_malformed (hjson : Json.load stack.json text = .error .malformed)
    (hstack : stack.yaml text = none) (f : SystemFault) :
    Stops stack text f ↔ Yaml.load text = .error (.system f) := by
  rw [Yaml.load_eq_system_iff, Yaml.Node.ofText_eq_system_iff]
  constructor
  · intro h
    cases h with
    | number h => cases hjson.symm.trans h
    | nested h => cases hjson.symm.trans h
    | exhausted _ h => cases hstack.symm.trans h
    | token _ _ hstop hend => exact .inl ⟨hstop, hend⟩
    | node _ _ hdocument hfirst hmake => exact .inr ⟨_, _, hdocument, hfirst, hmake⟩
  · rintro (⟨hstop, hend⟩ | ⟨document, n, hdocument, hfirst, hmake⟩)
    · exact .token hjson hstack hstop hend
    · exact .node hjson hstack hdocument hfirst hmake

/-- Where the text is no JSON, YAML decides, or the stack does while it is read. -/
theorem valueOf?_of_malformed (hjson : Json.load stack.json text = .error .malformed) (f : Fault) :
    valueOf? stack text = .error f ↔ ∃ cause, f = .system cause ∧ Stops stack text cause := by
  rw [valueOf?, hjson]
  cases hstack : stack.yaml text with
  | some said =>
    constructor
    · rintro ⟨⟩
      exact ⟨_, rfl, .exhausted hjson hstack⟩
    · rintro ⟨cause, rfl, h⟩
      cases h with
      | number h => cases hjson.symm.trans h
      | nested h => cases hjson.symm.trans h
      | exhausted _ h =>
        obtain rfl := Option.some.inj (hstack.symm.trans h)
        rfl
      | token _ h => cases hstack.symm.trans h
      | node _ h => cases hstack.symm.trans h
  | none =>
    simp only [stops_iff_of_malformed hjson hstack]
    cases hyaml : Yaml.load text with
    | ok v => simp
    | error r =>
      cases r with
      | malformed => simp
      | system cause => simp [eq_comm]

theorem valueOf?_eq_error_iff (stack : Stack) (text : String) (f : Fault) :
    valueOf? stack text = .error f ↔ ∃ cause, f = .system cause ∧ Stops stack text cause := by
  cases hjson : Json.load stack.json text with
  | ok v =>
    rw [valueOf?, hjson]
    constructor
    · rintro ⟨⟩
    · rintro ⟨cause, -, h⟩
      cases h with
      | number h | nested h | exhausted h | token h | node h => cases hjson.symm.trans h
  | error r =>
    cases r with
    | malformed => exact valueOf?_of_malformed hjson f
    | tooManyDigits count =>
      rw [valueOf?, hjson]
      constructor
      · rintro ⟨⟩
        exact ⟨_, rfl, .number hjson⟩
      · rintro ⟨cause, rfl, h⟩
        cases h with
        | number h =>
          cases hjson.symm.trans h
          rfl
        | nested h | exhausted h | token h | node h => cases hjson.symm.trans h
    | tooDeep container =>
      rw [valueOf?, hjson]
      constructor
      · rintro ⟨⟩
        exact ⟨_, rfl, .nested hjson⟩
      · rintro ⟨cause, rfl, h⟩
        cases h with
        | nested h =>
          cases hjson.symm.trans h
          rfl
        | number h | exhausted h | token h | node h => cases hjson.symm.trans h

theorem ofText_of_stops (h : Stops stack text f) (path : String) :
    ofText stack path text = .error (.system f) := by
  rw [ofText, (valueOf?_eq_error_iff stack text _).mpr ⟨f, rfl, h⟩]
  rfl

/-- Behind the two readers a text is judged by its value alone. -/
theorem ofText_cases (h : ∀ f, ¬ Stops stack text f) (path : String) :
    (∃ es, es ≠ [] ∧ ofText stack path text = .ok es) ∨
      ∃ f, ofText stack path text = .error f ∧ f.kind = .general := by
  rw [ofText]
  cases hvalue : valueOf? stack text with
  | error f =>
    obtain ⟨cause, -, hstops⟩ := (valueOf?_eq_error_iff stack text f).mp hvalue
    exact absurd hstops (h cause)
  | ok value =>
    cases value with
    | none => exact .inr ⟨_, rfl, rfl⟩
    | some v =>
      simp only [Outcome.ok_bind]
      split
      · exact .inr ⟨_, rfl, rfl⟩
      · rename_i htruthy
        split
        · rename_i es
          refine .inl ⟨es, ?_, rfl⟩
          rintro rfl
          exact htruthy rfl
        · exact .inr ⟨_, rfl, rfl⟩

end Config

namespace Run
variable {s : Search} {path : String} {w : Workspace}

theorem ending_loadEntries (s : Search) (path : String) (w : Workspace) :
    (loadEntries s path).ending w =
      ((loadText s path).ending w).mapError (fun f => .unloadable f.message) >>=
        Config.ofText w.stack path := by
  have hload : (loadEntries s path).ending w =
      ((do
        let text ← try loadText s path catch f => throw (.unloadable f.message)
        ofExcept (Config.ofText w.stack path text)) : Run Value.Entries).ending w := rfl
  rw [hload, ending_bind fun _ => ends_ofExcept _, ending_rethrow]

theorem ending_loadEntries_of_text {text : String}
    (h : (loadText s path).ending w = .ok text) :
    (loadEntries s path).ending w = Config.ofText w.stack path text := by
  rw [ending_loadEntries, h]
  rfl

/-- A load gives a mapping that is not empty or ends with a fault of the general kind, exactly when
the file cannot be read or its text has no fault that is passed on. Otherwise the load ends with that
fault, which is of one of a few classes. -/
theorem loadEntries_verdict (s : Search) (path : String) (w : Workspace) :
    (((∃ es, es ≠ [] ∧ (loadEntries s path).ending w = .ok es) ∨
        ∃ f, (loadEntries s path).ending w = .error f ∧ f.kind = .general) ↔
      ∀ text, (loadText s path).ending w = .ok text → ∀ f, ¬ Config.Stops w.stack text f) ∧
    ∀ text f, (loadText s path).ending w = .ok text → Config.Stops w.stack text f →
      (loadEntries s path).ending w = .error (.system f) ∧ f.className ∈ Config.passedClasses := by
  have hstops : ∀ text f, (loadText s path).ending w = .ok text → Config.Stops w.stack text f →
      (loadEntries s path).ending w = .error (.system f) := by
    intro text f htext h
    rw [ending_loadEntries_of_text htext, Config.ofText_of_stops h]
  refine ⟨⟨?_, ?_⟩, fun text f htext h => ⟨hstops text f htext h, h.className_mem⟩⟩
  · intro h text htext f hf
    rw [hstops text f htext hf] at h
    rcases h with ⟨_, _, ⟨⟩⟩ | ⟨_, ⟨⟩, hkind⟩
    cases hkind
  · intro h
    cases htext : (loadText s path).ending w with
    | error f =>
      refine .inr ⟨.unloadable f.message, ?_, rfl⟩
      rw [ending_loadEntries, htext]
      rfl
    | ok text =>
      rw [ending_loadEntries_of_text htext]
      exact Config.ofText_cases (h text htext) path

def bareMark : Workspace :=
  ⟨⟨[(["c.yaml"], .file (Text.Utf8.encode "a: 0b_\n".toList))]⟩, [], [], "/tmp", 0, .usual⟩

def hasBareMark : Except Fault Value.Entries → Bool
  | .error (.system (.malformedInteger 2 "")) => true
  | _ => false

theorem eq_of_hasBareMark {read : Except Fault Value.Entries} (h : hasBareMark read = true) :
    read = .error (.system (.malformedInteger 2 "")) := by
  unfold hasBareMark at h
  split at h
  · rfl
  · cases h

theorem loadEntries_bareMark :
    (loadText .here "c.yaml").ending bareMark = .ok "a: 0b_\n" ∧
      (loadEntries .here "c.yaml").ending bareMark = .error (.system (.malformedInteger 2 "")) ∧
      (Fault.system (.malformedInteger 2 "")).kind = .system "ValueError" := by
  have htext : ((loadText .here "c.yaml").ending bareMark).toOption = some "a: 0b_\n" := by
    decide +kernel
  have hread : hasBareMark (Config.ofText bareMark.stack "c.yaml" "a: 0b_\n") = true := by
    decide +kernel
  generalize hload : (loadText .here "c.yaml").ending bareMark = result at htext
  cases result with
  | error f => cases htext
  | ok text =>
    obtain rfl : text = "a: 0b_\n" := by simpa [Except.toOption] using htext
    refine ⟨rfl, ?_, rfl⟩
    rw [ending_loadEntries_of_text hload, eq_of_hasBareMark hread]

end Run
end FirmwareKit
