import FirmwareKit.Proofs.Text.Integer
set_option autoImplicit false

namespace FirmwareKit.Text

theorem append_cons_inj {c : Char} {xs ys s t : List Char} (hx : c ∉ xs) (hy : c ∉ ys)
    (h : xs ++ c :: s = ys ++ c :: t) : xs = ys ∧ s = t := by
  induction xs generalizing ys with
  | nil =>
    cases ys with
    | nil => exact ⟨rfl, (List.cons.inj h).2⟩
    | cons y ys =>
      have hhead := (List.cons.inj h).1
      exact absurd (List.mem_cons.mpr (.inl hhead)) hy
  | cons x xs ih =>
    cases ys with
    | nil =>
      have hhead := (List.cons.inj h).1
      exact absurd (List.mem_cons.mpr (.inl hhead.symm)) hx
    | cons y ys =>
      obtain ⟨rfl, htail⟩ := List.cons.inj h
      obtain ⟨_, hxs⟩ := List.ne_and_not_mem_of_not_mem_cons hx
      obtain ⟨_, hys⟩ := List.ne_and_not_mem_of_not_mem_cons hy
      obtain ⟨rfl, hrest⟩ := ih hxs hys htail
      exact ⟨rfl, hrest⟩

theorem integer_injective {m n : Int} (h : integer m = integer n) : m = n := by
  have hread := congrArg readInteger? h
  rw [readInteger?_integer, readInteger?_integer] at hread
  exact Option.some.inj hread

/-- Two texts that begin like values of this kind have the same value and the same rest. -/
def Legible {α : Type} (p : α → Prop) (f : α → List Char) : Prop :=
  ∀ x y, p x → p y → ∀ s t, f x ++ s = f y ++ t → x = y ∧ s = t

namespace Legible
variable {α β : Type} {p : α → Prop} {f : α → List Char}

/-- A field up to a character that does not stand in it. -/
theorem field {c : Char} (before after : List Char) (hc : ∀ x, p x → c ∉ f x)
    (hf : ∀ x y, p x → p y → f x = f y → x = y) :
    Legible p fun x => before ++ (f x ++ c :: after) := by
  intro x y hx hy s t h
  simp only [List.append_assoc, List.cons_append, List.append_cancel_left_eq] at h
  obtain ⟨hxy, h⟩ := append_cons_inj (hc x hx) (hc y hy) h
  exact ⟨hf x y hx hy hxy, List.append_cancel_left h⟩

theorem integer {c : Char} (hsign : c ≠ '-') (hdigit : c.isDigit = false)
    (before after : List Char) :
    Legible (fun _ : Int => True) fun n => before ++ (Text.integer n ++ c :: after) :=
  field before after (fun _ _ => not_mem_integer hsign hdigit)
    (fun _ _ _ _ h => integer_injective h)

/-- A second text may depend on the value that the first shows. -/
theorem append {q : β → Prop} {g : α → β → List Char} (hf : Legible p f)
    (hg : ∀ x, p x → Legible q (g x)) :
    Legible (fun z : α × β => p z.1 ∧ q z.2) fun z => f z.1 ++ g z.1 z.2 := by
  rintro ⟨x, a⟩ ⟨y, b⟩ ⟨hx, ha⟩ ⟨hy, hb⟩ s t h
  rw [List.append_assoc, List.append_assoc] at h
  obtain ⟨rfl, htail⟩ := hf x y hx hy _ _ h
  obtain ⟨rfl, hrest⟩ := hg x hx a b ha hb s t htail
  exact ⟨rfl, hrest⟩

/-- A list is read off where what follows it does not begin like an element. -/
theorem flatMap (hf : Legible p f) {xs ys : List α} (hx : ∀ x ∈ xs, p x) (hy : ∀ y ∈ ys, p y)
    {s t : List Char} (hs : ∀ x, p x → ¬ f x <+: s) (ht : ∀ x, p x → ¬ f x <+: t)
    (h : xs.flatMap f ++ s = ys.flatMap f ++ t) : xs = ys ∧ s = t := by
  induction xs generalizing ys with
  | nil =>
    cases ys with
    | nil => exact ⟨rfl, h⟩
    | cons y ys =>
      rw [List.flatMap_nil, List.nil_append, List.flatMap_cons, List.append_assoc] at h
      exact absurd ⟨_, h.symm⟩ (hs y (hy y List.mem_cons_self))
  | cons x xs ih =>
    cases ys with
    | nil =>
      rw [List.flatMap_nil, List.nil_append, List.flatMap_cons, List.append_assoc] at h
      exact absurd ⟨_, h⟩ (ht x (hx x List.mem_cons_self))
    | cons y ys =>
      obtain ⟨hxhead, hxs⟩ := List.forall_mem_cons.mp hx
      obtain ⟨hyhead, hys⟩ := List.forall_mem_cons.mp hy
      rw [List.flatMap_cons, List.flatMap_cons, List.append_assoc, List.append_assoc] at h
      obtain ⟨rfl, htail⟩ := hf x y hxhead hyhead _ _ h
      obtain ⟨rfl, hrest⟩ := ih hxs hys htail
      exact ⟨rfl, hrest⟩

end Legible
end FirmwareKit.Text
