import Mathlib.Data.List.Forall2
set_option autoImplicit false

namespace FirmwareKit

def First {α : Type} (p : α → Prop) (xs : List α) (x : α) : Prop :=
  ∃ before after, xs = before ++ x :: after ∧ (∀ y ∈ before, ¬ p y) ∧ p x

namespace First
variable {α : Type} {p : α → Prop}

theorem head {x : α} (h : p x) (xs : List α) : First p (x :: xs) x :=
  ⟨[], xs, rfl, by simp, h⟩

theorem tail {x y : α} {xs : List α} (hy : ¬ p y) (h : First p xs x) : First p (y :: xs) x := by
  obtain ⟨before, after, rfl, hb, hx⟩ := h
  exact ⟨y :: before, after, rfl, by simpa [hy] using hb, hx⟩

theorem mem {xs : List α} {x : α} (h : First p xs x) : x ∈ xs := by
  obtain ⟨before, after, rfl, _, _⟩ := h
  simp

theorem holds {xs : List α} {x : α} (h : First p xs x) : p x := by
  obtain ⟨_, _, _, _, hx⟩ := h
  exact hx

theorem congr {q : α → Prop} {xs : List α} {x : α} (hpq : ∀ y ∈ xs, p y ↔ q y)
    (h : First p xs x) : First q xs x := by
  obtain ⟨before, after, rfl, hb, hx⟩ := h
  refine ⟨before, after, rfl, ?_, (hpq x (by simp)).mp hx⟩
  intro y hy hqy
  exact hb y hy ((hpq y (by simp [hy])).mpr hqy)

theorem cons_iff {x y : α} {xs : List α} :
    First p (y :: xs) x ↔ (p y ∧ x = y) ∨ (¬ p y ∧ First p xs x) := by
  constructor
  · rintro ⟨before, after, he, hb, hx⟩
    cases before with
    | nil =>
      obtain ⟨rfl, rfl⟩ := List.cons.inj he
      exact .inl ⟨hx, rfl⟩
    | cons z before =>
      obtain ⟨rfl, rfl⟩ := List.cons.inj he
      have hz : ¬ p y ∧ ∀ w ∈ before, ¬ p w := by simpa using hb
      exact .inr ⟨hz.1, before, after, rfl, hz.2, hx⟩
  · rintro (⟨hy, rfl⟩ | ⟨hy, h⟩)
    · exact head hy xs
    · exact tail hy h

theorem unique {xs : List α} {x y : α} (hx : First p xs x) (hy : First p xs y) : x = y := by
  induction xs with
  | nil => simpa using hx.mem
  | cons z xs ih =>
    rcases cons_iff.mp hx with ⟨hz, rfl⟩ | ⟨hz, hx⟩ <;>
      rcases cons_iff.mp hy with ⟨hz', rfl⟩ | ⟨hz', hy⟩
    · rfl
    · exact absurd hz hz'
    · exact absurd hz' hz
    · exact ih hx hy

theorem append {xs : List α} {x : α} (h : First p xs x) (ys : List α) : First p (xs ++ ys) x := by
  obtain ⟨before, after, rfl, hb, hx⟩ := h
  exact ⟨before, after ++ ys, by simp, hb, hx⟩

theorem map {β : Type} {q : β → Prop} {g : α → β} {xs : List α} {x : α}
    (h : First (fun y => q (g y)) xs x) : First q (xs.map g) (g x) := by
  obtain ⟨before, after, rfl, hb, hx⟩ := h
  refine ⟨before.map g, after.map g, by simp, ?_, hx⟩
  simpa using hb

theorem forall_not_or_exists (p : α → Prop) (xs : List α) :
    (∀ x ∈ xs, ¬ p x) ∨ ∃ x, First p xs x := by
  induction xs with
  | nil => exact .inl (by simp)
  | cons x xs ih =>
    by_cases hx : p x
    · exact .inr ⟨x, head hx xs⟩
    · rcases ih with h | ⟨y, hy⟩
      · exact .inl (by simpa [hx] using h)
      · exact .inr ⟨y, tail hx hy⟩

theorem find?_eq_some_iff (q : α → Bool) (xs : List α) (x : α) :
    xs.find? q = some x ↔ First (fun y => q y = true) xs x := by
  rw [List.find?_eq_some_iff_append]
  constructor
  · rintro ⟨hx, before, after, rfl, hb⟩
    exact ⟨before, after, rfl, by simpa using hb, hx⟩
  · rintro ⟨before, after, rfl, hb, hx⟩
    exact ⟨hx, before, after, rfl, by simpa using hb⟩

/-- What a filter drops does not count where it keeps all that has the property. -/
theorem of_filter {q : α → Bool} (hpq : ∀ x, p x → q x = true)
    {xs : List α} {x : α} (h : First p (xs.filter q) x) : First p xs x := by
  induction xs with
  | nil => exact h
  | cons y ys ih =>
    by_cases hy : q y = true
    · rw [List.filter_cons_of_pos hy] at h
      rcases cons_iff.mp h with ⟨hp, rfl⟩ | ⟨hp, h⟩
      · exact head hp ys
      · exact tail hp (ih h)
    · rw [List.filter_cons_of_neg hy] at h
      exact tail (fun hp => hy (hpq y hp)) (ih h)

end First

namespace Outcome
variable {ε α β : Type}

@[simp] theorem ok_bind (a : α) (f : α → Except ε β) : (.ok a >>= f) = f a := rfl

@[simp] theorem error_bind (e : ε) (f : α → Except ε β) : (.error e >>= f) = .error e := rfl

theorem bind_eq_ok_iff (x : Except ε α) (f : α → Except ε β) (b : β) :
    (x >>= f) = .ok b ↔ ∃ a, x = .ok a ∧ f a = .ok b := by
  cases x <;> simp [bind, Except.bind]

theorem bind_eq_error_iff (x : Except ε α) (f : α → Except ε β) (e : ε) :
    (x >>= f) = .error e ↔ x = .error e ∨ ∃ a, x = .ok a ∧ f a = .error e := by
  cases x <;> simp [bind, Except.bind]

theorem map_eq_error_iff {f : α → β} {x : Except ε α} {e : ε} :
    x.map f = .error e ↔ x = .error e := by
  cases x <;> simp [Except.map]

theorem mapM_eq_ok_iff (f : α → Except ε β) (xs : List α) (ys : List β) :
    xs.mapM f = .ok ys ↔ List.Forall₂ (fun x y => f x = .ok y) xs ys := by
  induction xs generalizing ys with
  | nil =>
    simp only [List.mapM_nil, pure, Except.pure, Except.ok.injEq]
    constructor
    · rintro rfl
      exact .nil
    · rintro ⟨⟩
      rfl
  | cons x xs ih =>
    rw [List.mapM_cons, bind_eq_ok_iff]
    constructor
    · rintro ⟨y, hy, h⟩
      obtain ⟨zs, hz, h⟩ := (bind_eq_ok_iff _ _ _).mp h
      cases h
      exact .cons hy ((ih zs).mp hz)
    · rintro (_ | ⟨hy, h⟩)
      exact ⟨_, hy, (bind_eq_ok_iff _ _ _).mpr ⟨_, (ih _).mpr h, rfl⟩⟩

theorem mapM_ok_of_forall {f : α → Except ε β} {xs : List α} (h : ∀ x ∈ xs, ∃ y, f x = .ok y) :
    ∃ ys, xs.mapM f = .ok ys := by
  induction xs with
  | nil => exact ⟨[], rfl⟩
  | cons x xs ih =>
    obtain ⟨y, hy⟩ := h x (by simp)
    obtain ⟨ys, hys⟩ := ih fun z hz => h z (by simp [hz])
    exact ⟨y :: ys, by simp [List.mapM_cons, hy, hys, pure, Except.pure]⟩

/-- A run over a list fails as it does on the first element it fails on. -/
theorem mapM_eq_error_of_first {f : α → Except ε β} {xs : List α} {x : α} {e : ε}
    (h : First (fun x => ∃ e, f x = .error e) xs x) (hx : f x = .error e) :
    xs.mapM f = .error e := by
  induction xs with
  | nil => simpa using h.mem
  | cons y xs ih =>
    rw [List.mapM_cons]
    rcases First.cons_iff.mp h with ⟨_, rfl⟩ | ⟨hy, h⟩
    · rw [hx]
      rfl
    · cases hy' : f y with
      | error e' => exact absurd ⟨e', hy'⟩ hy
      | ok b =>
        rw [ih h]
        rfl

theorem exists_of_mapM_eq_ok {f : α → Except ε β} {xs : List α} {ys : List β}
    (h : xs.mapM f = .ok ys) {x : α} (hx : x ∈ xs) : ∃ y, f x = .ok y := by
  have hall := (mapM_eq_ok_iff f xs ys).mp h
  clear h
  induction hall with
  | nil => cases hx
  | cons hxy _ ih =>
    rcases List.mem_cons.mp hx with rfl | hx
    · exact ⟨_, hxy⟩
    · exact ih hx

theorem exists_of_mem_mapM {f : α → Except ε β} {xs : List α} {ys : List β}
    (h : xs.mapM f = .ok ys) {y : β} (hy : y ∈ ys) : ∃ x ∈ xs, f x = .ok y := by
  have hall := (mapM_eq_ok_iff f xs ys).mp h
  clear h
  induction hall with
  | nil => cases hy
  | cons hxy _ ih =>
    rcases List.mem_cons.mp hy with rfl | hy
    · exact ⟨_, List.mem_cons_self, hxy⟩
    · obtain ⟨x, hx, hxy⟩ := ih hy
      exact ⟨x, List.mem_cons_of_mem _ hx, hxy⟩

theorem exists_of_mapM_eq_error {f : α → Except ε β} {xs : List α} {e : ε}
    (h : xs.mapM f = .error e) : ∃ x ∈ xs, f x = .error e := by
  induction xs with
  | nil => cases h
  | cons x xs ih =>
    rw [List.mapM_cons, bind_eq_error_iff] at h
    rcases h with hx | ⟨_, _, h⟩
    · exact ⟨x, List.mem_cons_self, hx⟩
    · rcases (bind_eq_error_iff _ _ _).mp h with hxs | ⟨_, _, h⟩
      · obtain ⟨y, hy, he⟩ := ih hxs
        exact ⟨y, List.mem_cons_of_mem _ hy, he⟩
      · cases h

/-- A run over a list fails exactly where its first failing element is, and as it does there. -/
theorem forM_eq_error_iff (f : α → Except ε Unit) (xs : List α) (e : ε) :
    forM xs f = .error e ↔
      ∃ x, First (fun x => ∃ e, f x = .error e) xs x ∧ f x = .error e := by
  induction xs with
  | nil => exact ⟨nofun, fun ⟨_, h, _⟩ => absurd h.mem (by simp)⟩
  | cons x xs ih =>
    rw [List.forM_cons]
    cases hx : f x with
    | error d =>
      constructor
      · rintro ⟨⟩
        exact ⟨x, First.head ⟨_, hx⟩ xs, hx⟩
      · rintro ⟨y, hy, he⟩
        cases hy.unique (First.head ⟨_, hx⟩ xs)
        exact hx.symm.trans he
    | ok u =>
      have hn : ¬ ∃ e, f x = .error e := by simp [hx]
      rw [ok_bind, ih]
      simp only [First.cons_iff, hn, false_and, not_false_eq_true, true_and, false_or]

theorem forM_eq_ok_iff (f : α → Except ε Unit) (xs : List α) :
    forM xs f = .ok () ↔ ∀ x ∈ xs, ¬ ∃ e, f x = .error e := by
  constructor
  · intro h x hx
    rcases First.forall_not_or_exists (fun x => ∃ e, f x = .error e) xs with hall | ⟨y, hy⟩
    · exact hall x hx
    · obtain ⟨e, he⟩ := hy.holds
      exact nomatch h.symm.trans ((forM_eq_error_iff f xs e).mpr ⟨y, hy, he⟩)
  · intro h
    cases hf : forM xs f with
    | ok u => rfl
    | error e =>
      obtain ⟨y, hy, he⟩ := (forM_eq_error_iff f xs e).mp hf
      exact absurd ⟨e, he⟩ (h y hy.mem)

theorem mapM_congr {f g : α → Except ε β} {xs ys : List α}
    (h : List.Forall₂ (fun x y => f x = g y) xs ys) : xs.mapM f = ys.mapM g := by
  induction h with
  | nil => rfl
  | cons hxy _ ih => rw [List.mapM_cons, List.mapM_cons, hxy, ih]

end Outcome
end FirmwareKit
