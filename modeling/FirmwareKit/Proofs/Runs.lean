import FirmwareKit.Command.Outcome
set_option autoImplicit false

namespace FirmwareKit

/-! ## Parts of a run -/

section Inversion
variable {σ α β : Type} {r : EStateM Fault σ α} {k : α → EStateM Fault σ β} {s s' : σ}

theorem bind_of_ok {a : α} {u : σ} (h : r s = .ok a u) : (r >>= k) s = k a u := by
  change EStateM.bind r k s = _
  rw [EStateM.bind, h]

theorem bind_of_error {f : Fault} (h : r s = .error f s') : (r >>= k) s = .error f s' := by
  change EStateM.bind r k s = _
  rw [EStateM.bind, h]

theorem get_bind (k : σ → EStateM Fault σ β) (s : σ) : (get >>= k) s = k s s := rfl

theorem ok_of_bind {b : β} (h : (r >>= k) s = .ok b s') :
    ∃ a u, r s = .ok a u ∧ k a u = .ok b s' := by
  change EStateM.bind r k s = _ at h
  rw [EStateM.bind] at h
  cases hr : r s with
  | ok a u =>
    rw [hr] at h
    exact ⟨a, u, rfl, h⟩
  | error f u =>
    rw [hr] at h
    cases h

theorem error_of_bind {f : Fault} (h : (r >>= k) s = .error f s') :
    r s = .error f s' ∨ ∃ a u, r s = .ok a u ∧ k a u = .error f s' := by
  change EStateM.bind r k s = _ at h
  rw [EStateM.bind] at h
  cases hr : r s with
  | ok a u =>
    rw [hr] at h
    exact .inr ⟨a, u, rfl, h⟩
  | error g u =>
    rw [hr] at h
    cases h
    exact .inl rfl

theorem ok_of_map {g : α → β} {b : β} (h : (g <$> r) s = .ok b s') :
    ∃ a, r s = .ok a s' ∧ g a = b := by
  change EStateM.map g r s = _ at h
  rw [EStateM.map] at h
  cases hr : r s with
  | ok a u =>
    rw [hr] at h
    cases h
    exact ⟨a, rfl, rfl⟩
  | error f u =>
    rw [hr] at h
    cases h

theorem map_of_ok {g : α → β} {a : α} (h : r s = .ok a s') : (g <$> r) s = .ok (g a) s' := by
  change EStateM.map g r s = _
  rw [EStateM.map, h]

theorem map_of_error {g : α → β} {f : Fault} (h : r s = .error f s') :
    (g <$> r) s = .error f s' := by
  change EStateM.map g r s = _
  rw [EStateM.map, h]

theorem error_of_map {g : α → β} {f : Fault} (h : (g <$> r) s = .error f s') :
    r s = .error f s' := by
  change EStateM.map g r s = _ at h
  rw [EStateM.map] at h
  cases hr : r s with
  | ok a u =>
    rw [hr] at h
    cases h
  | error f u =>
    rw [hr] at h
    cases h
    rfl

/-- Also where something goes before a run, the run itself goes through. -/
theorem ok_of_after {r : EStateM Fault σ Unit} {k : EStateM Fault σ β} {p : Prop} [Decidable p]
    {b : β} (h : (if p then r >>= fun _ => k else k) s = .ok b s') : ∃ u, k u = .ok b s' := by
  split at h
  · obtain ⟨-, u, -, h⟩ := ok_of_bind h
    exact ⟨u, h⟩
  · exact ⟨s, h⟩

theorem tryCatch_of_ok {k : Fault → EStateM Fault σ α} {a : α} (h : r s = .ok a s') :
    tryCatch r k s = .ok a s' := by
  change EStateM.tryCatch r k s = _
  delta EStateM.tryCatch
  dsimp only
  rw [h]

theorem tryCatch_of_error {k : Fault → EStateM Fault σ α} {f : Fault} (h : r s = .error f s') :
    tryCatch r k s = k f s' := by
  change EStateM.tryCatch r k s = _
  delta EStateM.tryCatch
  dsimp only
  rw [h]
  rfl

theorem ok_of_tryCatch {k : Fault → EStateM Fault σ α} {a : α} (h : tryCatch r k s = .ok a s') :
    r s = .ok a s' ∨ ∃ f u, r s = .error f u ∧ k f u = .ok a s' := by
  change EStateM.tryCatch r k s = _ at h
  delta EStateM.tryCatch at h
  dsimp only at h
  cases hr : r s with
  | ok b u =>
    rw [hr] at h
    exact .inl h
  | error f u =>
    rw [hr] at h
    exact .inr ⟨f, u, rfl, h⟩

theorem error_of_tryCatch {k : Fault → EStateM Fault σ α} {f : Fault}
    (h : tryCatch r k s = .error f s') : ∃ g u, r s = .error g u ∧ k g u = .error f s' := by
  change EStateM.tryCatch r k s = _ at h
  delta EStateM.tryCatch at h
  dsimp only at h
  cases hr : r s with
  | ok a u =>
    rw [hr] at h
    cases h
  | error g u =>
    rw [hr] at h
    exact ⟨g, u, rfl, h⟩

end Inversion

def ends {σ α : Type} : EStateM.Result Fault σ α → Bool
  | .ok _ _ => true
  | .error _ _ => false

theorem exists_of_ends {σ α : Type} {r : EStateM.Result Fault σ α} (h : ends r = true) :
    ∃ a s, r = .ok a s := by
  cases r with
  | ok a s => exact ⟨a, s, rfl⟩
  | error => cases h

theorem exists_of_not_ends {σ α : Type} {r : EStateM.Result Fault σ α} (h : ends r = false) :
    ∃ f s, r = .error f s := by
  cases r with
  | ok => cases h
  | error f s => exact ⟨f, s, rfl⟩

/-! ## Runs that end well -/

section Reaches
variable {σ α β : Type} {s : σ} {Q : α → σ → Prop}

/-- A run ends well, with a result and in a state that are as said. -/
def Reaches (r : EStateM Fault σ α) (s : σ) (Q : α → σ → Prop) : Prop :=
  ∃ a s', r s = .ok a s' ∧ Q a s'

theorem reaches_pure {a : α} (h : Q a s) : Reaches (pure a) s Q := ⟨a, s, rfl, h⟩

theorem Reaches.bind {r : EStateM Fault σ α} {k : α → EStateM Fault σ β} {Q' : β → σ → Prop}
    (hr : Reaches r s Q) (hk : ∀ a s', Q a s' → Reaches (k a) s' Q') : Reaches (r >>= k) s Q' := by
  obtain ⟨a, s', hrun, ha⟩ := hr
  obtain ⟨b, s'', hlater, hb⟩ := hk a s' ha
  exact ⟨b, s'', (bind_of_ok hrun).trans hlater, hb⟩

theorem Reaches.mono {r : EStateM Fault σ α} {Q' : α → σ → Prop} (hr : Reaches r s Q)
    (himp : ∀ a s', Q a s' → Q' a s') : Reaches r s Q' := by
  obtain ⟨a, s', hrun, ha⟩ := hr
  exact ⟨a, s', hrun, himp a s' ha⟩

end Reaches

/-! ## What runs leave -/

section Keeps
variable {σ α β : Type} {R : σ → σ → Prop}

def left (r : EStateM Fault σ α) (s : σ) : σ :=
  match r s with
  | .ok _ s' => s'
  | .error _ s' => s'

/-- A run that leaves a related state, however it ends. -/
def Keeps (R : σ → σ → Prop) (r : EStateM Fault σ α) : Prop := ∀ s, R s (left r s)

theorem Keeps.of_ok {r : EStateM Fault σ α} (hr : Keeps R r) {s s' : σ} {a : α}
    (h : r s = .ok a s') : R s s' := by
  have hleft := hr s
  rwa [left, h] at hleft

theorem Keeps.of_error {r : EStateM Fault σ α} (hr : Keeps R r) {s s' : σ} {f : Fault}
    (h : r s = .error f s') : R s s' := by
  have hleft := hr s
  rwa [left, h] at hleft

theorem keeps_of_ends {r : EStateM Fault σ α} (hok : ∀ s a s', r s = .ok a s' → R s s')
    (herror : ∀ s f s', r s = .error f s' → R s s') : Keeps R r := by
  intro s
  rw [left]
  split
  case h_1 a s' h => exact hok s a s' h
  case h_2 f s' h => exact herror s f s' h

section
variable [Std.Refl R]

theorem keeps_pure (a : α) : Keeps R (pure a : EStateM Fault σ α) := fun s => Std.Refl.refl s

theorem keeps_throw (f : Fault) : Keeps R (throw f : EStateM Fault σ α) := fun s => Std.Refl.refl s

theorem keeps_get : Keeps R (get : EStateM Fault σ σ) := fun s => Std.Refl.refl s

end

section
variable [Trans R R R]

/-- What follows a run may count on how the run has ended. -/
theorem Keeps.bind_of_ok {r : EStateM Fault σ α} {k : α → EStateM Fault σ β} (hr : Keeps R r)
    (hk : ∀ s a u, r s = .ok a u → R u (left (k a) u)) : Keeps R (r >>= k) := by
  refine keeps_of_ends ?_ ?_
  · intro s b s' h
    obtain ⟨a, u, ha, hb⟩ := ok_of_bind h
    have hleft := hk s a u ha
    rw [left, hb] at hleft
    exact Trans.trans (hr.of_ok ha) hleft
  · intro s f s' h
    rcases error_of_bind h with h | ⟨a, u, ha, hb⟩
    · exact hr.of_error h
    · have hleft := hk s a u ha
      rw [left, hb] at hleft
      exact Trans.trans (hr.of_ok ha) hleft

theorem Keeps.bind {r : EStateM Fault σ α} {k : α → EStateM Fault σ β} (hr : Keeps R r)
    (hk : ∀ a, Keeps R (k a)) : Keeps R (r >>= k) := hr.bind_of_ok fun _ a u _ => hk a u

/-- What may go before a run. -/
theorem Keeps.after {r : EStateM Fault σ Unit} {k : EStateM Fault σ β} (hr : Keeps R r)
    (hk : Keeps R k) (p : Prop) [Decidable p] : Keeps R (if p then r >>= fun _ => k else k) := by
  split
  · exact hr.bind fun _ => hk
  · exact hk

theorem Keeps.tryCatch {r : EStateM Fault σ α} {k : Fault → EStateM Fault σ α} (hr : Keeps R r)
    (hk : ∀ f, Keeps R (k f)) : Keeps R (tryCatch r k) := by
  refine keeps_of_ends ?_ ?_
  · intro s a s' h
    rcases ok_of_tryCatch h with h | ⟨f, u, hf, h⟩
    · exact hr.of_ok h
    · exact Trans.trans (hr.of_error hf) ((hk f).of_ok h)
  · intro s f s' h
    obtain ⟨g, u, hg, h⟩ := error_of_tryCatch h
    exact Trans.trans (hr.of_error hg) ((hk g).of_error h)

end

theorem left_congr {r t : EStateM Fault σ α} {s s' : σ} (h : r s = t s') : left r s = left t s' := by
  rw [left, left, h]

theorem left_map (g : α → β) (r : EStateM Fault σ α) (s : σ) : left (g <$> r) s = left r s := by
  rw [left, left]
  cases hr : r s with
  | ok a t => rw [map_of_ok hr]
  | error f t => rw [map_of_error hr]

theorem Keeps.mono {R' : σ → σ → Prop} {r : EStateM Fault σ α} (hr : Keeps R r)
    (himp : ∀ s s', R s s' → R' s s') : Keeps R' r := fun s => himp _ _ (hr s)

theorem Keeps.map {r : EStateM Fault σ α} (hr : Keeps R r) (g : α → β) : Keeps R (g <$> r) :=
  fun s => (left_map g r s).symm ▸ hr s

/-- A run that may be skipped, also because of what goes before it. -/
theorem Keeps.unless [Std.Refl R] [Trans R R R] {r k : EStateM Fault σ Unit} (hr : Keeps R r)
    (hk : Keeps R k) (p q : Prop) [Decidable p] [Decidable q] :
    Keeps R (if p then r >>= fun _ => if q then pure () else k else k) := by
  have hskipped : Keeps R (if q then pure () else k) := by
    split
    · exact keeps_pure ()
    · exact hk
  split
  · exact hr.bind fun _ => hskipped
  · exact hk

theorem Keeps.forM [Std.Refl R] [Trans R R R] {k : α → EStateM Fault σ Unit}
    (hk : ∀ a, Keeps R (k a)) (xs : List α) : Keeps R (xs.forM k) := by
  induction xs with
  | nil => exact keeps_pure _
  | cons x xs ih => exact (hk x).bind fun _ => ih

end Keeps

/-! ## Runs in a row -/

section Series
variable {σ ι α : Type} {R : σ → σ → Prop} {perform : ι → EStateM Fault σ (Option α)} {s : σ} {a : α}

def handed? (r : EStateM Fault σ (Option α)) (s : σ) : Option α :=
  match r s with
  | .ok a _ => a
  | .error _ _ => none

/-- The state after runs in a row; one that fails does not stop those behind it. -/
def after (perform : ι → EStateM Fault σ (Option α)) (s : σ) (is : List ι) : σ :=
  is.foldl (fun s i => left (perform i) s) s

def handed (perform : ι → EStateM Fault σ (Option α)) (s : σ) : List ι → List α
  | [] => []
  | i :: rest => (handed? (perform i) s).toList ++ handed perform (left (perform i) s) rest

theorem after_append (is js : List ι) :
    after perform s (is ++ js) = after perform (after perform s is) js := List.foldl_append

theorem exists_of_mem_handed {is : List ι} (h : a ∈ handed perform s is) :
    ∃ before i behind, is = before ++ i :: behind ∧
      handed? (perform i) (after perform s before) = some a := by
  induction is generalizing s with
  | nil => cases h
  | cons i rest ih =>
    rcases List.mem_append.mp h with h | h
    · exact ⟨[], i, rest, rfl, Option.mem_toList.mp h⟩
    · obtain ⟨before, j, behind, rfl, hj⟩ := ih h
      exact ⟨i :: before, j, behind, rfl, hj⟩

theorem ok_of_handed? {r : EStateM Fault σ (Option α)} (h : handed? r s = some a) :
    ∃ s', r s = .ok (some a) s' := by
  rw [handed?] at h
  split at h
  case h_1 b s' hr => exact ⟨s', h ▸ hr⟩
  case h_2 => cases h

theorem related_after [Std.Refl R] [Trans R R R] {is : List ι} (h : ∀ i ∈ is, Keeps R (perform i))
    (s : σ) : R s (after perform s is) := by
  induction is generalizing s with
  | nil => exact Std.Refl.refl s
  | cons i rest ih =>
    obtain ⟨hi, hrest⟩ := List.forall_mem_cons.mp h
    exact Trans.trans (hi s) (ih hrest _)

end Series

/-! ## Faults of runs -/

section Fails
variable {σ α β : Type} {P : Fault → Prop}

/-- A run whose faults have a property, if it has any. -/
def Fails (P : Fault → Prop) (r : EStateM Fault σ α) : Prop := ∀ s f s', r s = .error f s' → P f

theorem fails_pure (a : α) : Fails P (pure a : EStateM Fault σ α) := fun _ _ _ h => nomatch h

theorem fails_throw {f : Fault} (h : P f) : Fails P (throw f : EStateM Fault σ α) := by
  intro s g s' hg
  cases hg
  exact h

theorem fails_get : Fails P (get : EStateM Fault σ σ) := fun _ _ _ h => nomatch h

theorem Fails.bind {r : EStateM Fault σ α} {k : α → EStateM Fault σ β} (hr : Fails P r)
    (hk : ∀ a, Fails P (k a)) : Fails P (r >>= k) := by
  intro s f s' h
  rcases error_of_bind h with h | ⟨a, u, -, h⟩
  · exact hr s f s' h
  · exact hk a u f s' h

theorem Fails.map {r : EStateM Fault σ α} (hr : Fails P r) (g : α → β) : Fails P (g <$> r) :=
  fun s f s' h => hr s f s' (error_of_map h)

theorem Fails.after {r : EStateM Fault σ Unit} {k : EStateM Fault σ β} (hr : Fails P r)
    (hk : Fails P k) (p : Prop) [Decidable p] : Fails P (if p then r >>= fun _ => k else k) := by
  split
  · exact hr.bind fun _ => hk
  · exact hk

/-- A run that may be skipped, also because of what goes before it. -/
theorem Fails.unless {r k : EStateM Fault σ Unit} (hr : Fails P r) (hk : Fails P k)
    (p q : Prop) [Decidable p] [Decidable q] :
    Fails P (if p then r >>= fun _ => if q then pure () else k else k) := by
  have hskipped : Fails P (if q then pure () else k) := by
    split
    · exact fails_pure ()
    · exact hk
  split
  · exact hr.bind fun _ => hskipped
  · exact hk

/-- Whoever catches such a fault may throw it again. -/
theorem Fails.tryCatch {r : EStateM Fault σ α} {k : Fault → EStateM Fault σ α} (hr : Fails P r)
    (hk : ∀ f, P f → Fails P (k f)) : Fails P (tryCatch r k) := by
  intro s f s' h
  obtain ⟨g, u, hg, h⟩ := error_of_tryCatch h
  exact hk g (hr s g u hg) u f s' h

end Fails

/-- A run of which the library does not expect that it fails. -/
def Unforeseen {σ α : Type} (r : EStateM Fault σ α) : Prop :=
  ∀ s f s', r s = .error f s' → Outcome.isExpected f = false

section Unforeseen
variable {σ α β : Type}

theorem unforeseen_pure (a : α) : Unforeseen (pure a : EStateM Fault σ α) := fails_pure a

theorem unforeseen_throw {f : Fault} (h : Outcome.isExpected f = false) :
    Unforeseen (throw f : EStateM Fault σ α) := fails_throw h

theorem Unforeseen.bind {r : EStateM Fault σ α} {k : α → EStateM Fault σ β} (hr : Unforeseen r)
    (hk : ∀ a, Unforeseen (k a)) : Unforeseen (r >>= k) := Fails.bind hr hk

theorem Unforeseen.map {r : EStateM Fault σ α} (hr : Unforeseen r) (g : α → β) :
    Unforeseen (g <$> r) := Fails.map hr g

theorem Unforeseen.after {r : EStateM Fault σ Unit} {k : EStateM Fault σ β} (hr : Unforeseen r)
    (hk : Unforeseen k) (p : Prop) [Decidable p] :
    Unforeseen (if p then r >>= fun _ => k else k) := Fails.after hr hk p

/-- Whoever catches such a fault may throw it again. -/
theorem Unforeseen.tryCatch {r : EStateM Fault σ α} {k : Fault → EStateM Fault σ α}
    (hr : Unforeseen r) (hk : ∀ f, Outcome.isExpected f = false → Unforeseen (k f)) :
    Unforeseen (tryCatch r k) := Fails.tryCatch hr hk

theorem isExpected_system {f : SystemFault} (h : f.className ≠ "AssertionError") :
    Outcome.isExpected (.system f) = false := by
  have hname : Outcome.isExpected (.system f) = (f.className == "AssertionError") := rfl
  rw [hname, beq_eq_false_iff_ne]
  exact h

end Unforeseen

end FirmwareKit
