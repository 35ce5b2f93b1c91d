import FirmwareKit.Proofs.Log.Colors
import FirmwareKit.Proofs.Log.Template
set_option autoImplicit false

namespace FirmwareKit.Record

/-- The parts of a plain line have no colours. The source and, but for informative messages, the
origin are part of it for named levels. -/
structure Uncolored (r : Record) : Prop where
  text : ∀ t, r.stripped.text = .ok t → Colorless t.toList
  source : ∀ l, Level.ofNumber? r.level = some l → Colorless r.source.toList
  origin : ∀ l, Level.ofNumber? r.level = some l → l ≠ .info →
    ∀ o, r.origin = some o → Colorless o.toList
  exception : Colorless r.exception.toList
  stack : Colorless r.stack.toList

/-- A record brings no escapes but in the colour sequences of a message that is text. -/
structure BringsOnlyColors (r : Record) : Prop where
  message : match r.message with
    | .text m => EscapesColor m.toList
    | v => escape ∉ v.display.toList
  arguments : ∀ v ∈ (Template.Arguments.ofValues r.arguments).values, ¬ v.Brings escape
  source : Colorless r.source.toList
  origin : ∀ o, r.origin = some o → Colorless o.toList
  exception : Colorless r.exception.toList
  stack : Colorless r.stack.toList

variable {r : Record} {s t : String} {l : Level}

theorem exists_stripped (r : Record) : ∃ m, r.stripped = { r with message := m } := by
  unfold stripped
  split
  · exact ⟨_, rfl⟩
  · exact ⟨r.message, rfl⟩

theorem arguments_stripped (r : Record) : r.stripped.arguments = r.arguments := by
  obtain ⟨m, hm⟩ := r.exists_stripped
  rw [hm]

theorem text_eq_ok_iff : r.text = .ok t ↔ r.message.isOverlong = false ∧
    Template.fill r.message.display r.arguments = .ok t := by
  unfold text
  cases r.message.isOverlong <;> simp

theorem plain_line_eq_ok_iff : r.line false = .ok s ↔ ∃ t, r.stripped.text = .ok t ∧
    s = below (below (r.body false t) r.exception) r.stack := by
  obtain ⟨m, hm⟩ := r.exists_stripped
  refine (Outcome.bind_eq_ok_iff _ _ _).trans (exists_congr fun t => and_congr_right fun _ => ?_)
  simp only [Bool.false_eq_true, if_false, hm]
  exact ⟨fun h => (Except.ok.inj h).symm, fun h => congrArg _ h.symm⟩

theorem colorless_name (l : Level) : Colorless l.name.toList :=
  colorless_of_not_mem (by cases l <;> decide)

theorem colorless_append_suffix_iff : Colorless (t.toList ++ (r.suffix l).toList) ↔
    Colorless t.toList ∧ (l ≠ .info → ∀ o, r.origin = some o → Colorless o.toList) := by
  by_cases hinfo : l = .info
  · subst hinfo
    rw [suffix, String.toList_empty, List.append_nil]
    exact (and_iff_left fun h => absurd rfl h).symm
  · have hsuffix : r.suffix l = r.originSuffix := by
      cases l with
      | info => exact absurd rfl hinfo
      | debug | warning | error | critical => rfl
    rw [hsuffix, originSuffix]
    cases ho : r.origin with
    | none =>
      rw [String.toList_empty, List.append_nil]
      exact (and_iff_left fun _ => nofun).symm
    | some o =>
      have htext : (s!" ({o})").toList = ' ' :: ([] ++ '(' :: (o.toList ++ ')' :: [])) := by
        simp [toString]
      dsimp only
      rw [htext, colorless_append_cons_iff (by decide), colorless_append_cons_iff (by decide),
        colorless_append_cons_iff (by decide)]
      refine and_congr_right fun _ => ⟨fun h _ p hp => Option.some.inj hp ▸ h.2.1,
        fun h => ⟨colorless_nil, h hinfo o rfl, colorless_nil⟩⟩

theorem body_of_named (h : Level.ofNumber? r.level = some l) (t : String) :
    (r.body false t).toList = l.name.toList ++ ':' :: (r.source.toList ++
      ':' :: (t.toList ++ (r.suffix l).toList)) := by
  rw [body, h]
  simp [toString]

theorem colorless_body_iff : Colorless (r.body false t).toList ↔ Colorless t.toList ∧
    ∀ l, Level.ofNumber? r.level = some l → Colorless r.source.toList ∧
      (l ≠ .info → ∀ o, r.origin = some o → Colorless o.toList) := by
  cases hlevel : Level.ofNumber? r.level with
  | none =>
    rw [body, hlevel]
    exact (and_iff_left fun l hl => nomatch hl).symm
  | some l =>
    rw [body_of_named hlevel, colorless_append_cons_iff (by decide),
      colorless_append_cons_iff (by decide), colorless_append_suffix_iff]
    constructor
    · rintro ⟨-, hsource, ht, horigin⟩
      refine ⟨ht, fun k hk => ?_⟩
      cases hk
      exact ⟨hsource, horigin⟩
    · rintro ⟨ht, hnamed⟩
      obtain ⟨hsource, horigin⟩ := hnamed l rfl
      exact ⟨colorless_name l, hsource, ht, horigin⟩

/-- A text below another begins on a line of its own, so no sequence reaches from one to the other. -/
theorem colorless_below_iff (s t : String) :
    Colorless (below s t).toList ↔ Colorless s.toList ∧ Colorless t.toList := by
  rw [below]
  split
  case isTrue hnone =>
    rw [String.isEmpty_iff.mp hnone, String.toList_empty]
    exact (and_iff_left colorless_nil).symm
  case isFalse =>
    split
    case isTrue hlast =>
      obtain ⟨lead, hlead⟩ := List.getLast?_eq_some_iff.mp hlast
      rw [String.toList_append, hlead, List.append_assoc, List.singleton_append,
        colorless_append_cons_iff (by decide), colorless_append_cons_iff (by decide)]
      exact and_congr_left fun _ => (and_iff_left colorless_nil).symm
    case isFalse =>
      have htext : (s ++ "\n" ++ t).toList = s.toList ++ '\n' :: t.toList := by simp
      rw [htext, colorless_append_cons_iff (by decide)]

theorem colorless_line_iff (h : r.line false = .ok s) : Colorless s.toList ↔ r.Uncolored := by
  obtain ⟨t, ht, rfl⟩ := plain_line_eq_ok_iff.mp h
  rw [colorless_below_iff, colorless_below_iff, colorless_body_iff]
  constructor
  · rintro ⟨⟨⟨htext, hnamed⟩, hexception⟩, hstack⟩
    refine ⟨fun u hu => ?_, fun l hl => (hnamed l hl).1, fun l hl => (hnamed l hl).2, hexception,
      hstack⟩
    cases ht.symm.trans hu
    exact htext
  · intro h
    exact ⟨⟨⟨h.text t ht, fun l hl => ⟨h.source l hl, h.origin l hl⟩⟩, h.exception⟩, h.stack⟩

theorem escape_not_mem_text (hr : r.BringsOnlyColors) (h : r.stripped.text = .ok t) :
    escape ∉ t.toList := by
  obtain ⟨-, hfill⟩ := text_eq_ok_iff.mp h
  rw [arguments_stripped] at hfill
  refine Template.not_mem_fill (by decide) ?_ hr.arguments hfill
  have hmessage := hr.message
  unfold stripped
  split
  case h_1 m hm =>
    rw [hm] at hmessage
    exact escape_not_mem_withoutColors hmessage
  case h_2 hother =>
    split at hmessage
    case h_1 m hm => exact absurd hm (hother m)
    case h_2 => exact hmessage

theorem uncolored_of_bringsOnlyColors (hr : r.BringsOnlyColors) : r.Uncolored where
  text _ ht := colorless_of_not_mem (escape_not_mem_text hr ht)
  source _ _ := hr.source
  origin _ _ _ := hr.origin
  exception := hr.exception
  stack := hr.stack

/-- A text without arguments stands for itself, but for the colours that are removed. -/
theorem text_stripped_of_plain {m : String} (hm : r.message = .text m) (ha : r.arguments = []) :
    r.stripped.text = .ok (withoutColors m) := by
  have hstripped : r.stripped.message = .text (withoutColors m) := by rw [stripped, hm]
  rw [text_eq_ok_iff, arguments_stripped, hstripped, ha]
  exact ⟨rfl, rfl⟩

/-- A plain line has no colours exactly if its parts have none. For a text without arguments to have
none means that its colours leave no others when they are removed. If no escapes come but from the
colours of the message, the line has none in any case. -/
theorem line_colorless (r : Record) (s : String) (h : r.line false = .ok s) :
    (Colorless s.toList ↔ r.Uncolored) ∧
      (∀ m, r.message = .text m → r.arguments = [] →
        ((∀ t, r.stripped.text = .ok t → Colorless t.toList) ↔
          withoutColors (withoutColors m) = withoutColors m)) ∧
      (r.BringsOnlyColors → Colorless s.toList) := by
  refine ⟨colorless_line_iff h, fun m hm ha => ?_,
    fun hr => (colorless_line_iff h).mpr (uncolored_of_bringsOnlyColors hr)⟩
  rw [text_stripped_of_plain hm ha, withoutColors_eq_iff]
  exact ⟨fun h => h _ rfl, fun h t ht => Except.ok.inj ht ▸ h⟩

def greeting : Record where
  level := 30
  source := "demo"
  message := .text "\x1b[32mhello\x1b[39m %s"
  arguments := [.text "world"]
  origin := some "7ms since start, b.py:1"
  exception := "ValueError: no"

theorem line_colorless_greeting :
    greeting.line false =
        .ok "WARNING:demo:hello world (7ms since start, b.py:1)\nValueError: no" ∧
      greeting.BringsOnlyColors ∧
      Colorless "WARNING:demo:hello world (7ms since start, b.py:1)\nValueError: no".toList := by
  have hline : greeting.line false =
      .ok "WARNING:demo:hello world (7ms since start, b.py:1)\nValueError: no" := by
    rfl
  have hbrings : greeting.BringsOnlyColors := by
    have hmessage : EscapesColor "\x1b[32mhello\x1b[39m %s".toList := by decide
    refine ⟨hmessage, by decide, colorless_of_not_mem (by decide), fun o ho => ?_,
      colorless_of_not_mem (by decide), colorless_nil⟩
    cases ho
    exact colorless_of_not_mem (by decide)
  exact ⟨hline, hbrings, (line_colorless greeting _ hline).2.2 hbrings⟩

/-- An argument in colour keeps it. -/
theorem line_colored_argument : ∃ s,
    Record.line ⟨20, "demo", .text "%s", [.text "\x1b[31mred"], none, "", ""⟩ false = .ok s ∧
      ¬ Colorless s.toList := by
  have hdigits : ∀ d ∈ ['3', '1'], (Text.decimalDigit? d).isSome = true :=
    List.forall_mem_cons.mpr ⟨by decide, List.forall_mem_singleton.mpr (by decide)⟩
  refine ⟨"INFO:demo:\x1b[31mred", by rfl, fun h => ?_⟩
  exact h (code 31).toList ⟨['3', '1'], by decide, by decide, hdigits, rfl⟩
    ⟨"INFO:demo:".toList, "red".toList, by decide⟩

/-- The halves of a sequence meet where another one was removed. -/
example : withoutColors "\x1b[3\x1b[1m1mred" = "\x1b[31mred" := by decide

end FirmwareKit.Record
