import FirmwareKit.Proofs.Script.Composition
import FirmwareKit.Proofs.Script.Glob
set_option autoImplicit false

namespace FirmwareKit.Script

def Input.patterns : Input → List String
  | .all patterns => patterns.map Name.text
  | .keep pattern | .sorted pattern => [pattern.text]

def Command.patterns : Command → List String
  | .input _ i => i.patterns
  | .outside _ patterns => patterns
  | _ => []

def Command.Collects (name : String) (c : Command) : Prop :=
  ∃ pattern ∈ c.patterns, globMatches pattern name = true

def familyTails (tag : BankTag) (bare : Bool) : List String :=
  match tag with
  | .primary => (if bare then [""] else []) ++ [".*[^&]"]
  | tag => [tag.suffix ++ "*", ".*" ++ tag.suffix]

theorem family_patterns (tag : BankTag) (name : String) (bare : Bool) :
    (family tag name bare).patterns = (familyTails tag bare).map ("." ++ name ++ ·) := by
  cases tag <;> cases bare <;>
    simp [family, Input.patterns, familyPatterns, familyTails, BankTag.suffix, Name.plain,
      Name.inQuotes, ← String.toList_inj]

theorem familyTails_tail (tag : BankTag) (bare : Bool) :
    ∀ tail ∈ familyTails tag bare, Tail tail.toList := by
  cases tag <;> cases bare <;> decide

/-- A section that is marked for an alternate bank, in front or at the end. -/
def Marked (c : Char) (rest : List Char) : Prop :=
  rest.head? = some c ∨ ∃ x, rest = '.' :: x ∧ x.getLast? = some c

def Takes (tag : BankTag) (bare : Bool) (rest : List Char) : Prop :=
  match tag with
  | .primary => (bare ∧ rest = []) ∨ ∃ x c, rest = '.' :: x ∧ x.getLast? = some c ∧ c ≠ '&'
  | .shadow => Marked '!' rest
  | .mirror => Marked '&' rest

theorem accepts_starred_iff (c : Char) (rest : List Char) :
    Glob.accepts [.exactly c, .any] rest ↔ rest.head? = some c := by
  rw [Glob.accepts_exactly_iff]
  simp only [Glob.accepts_any, and_true]
  cases rest <;> simp

theorem accepts_dotted_iff {item : Glob.Item} (hitem : item ≠ .any) (rest : List Char) :
    Glob.accepts [.exactly '.', .any, item] rest ↔
      ∃ x c, rest = '.' :: x ∧ x.getLast? = some c ∧ Glob.accepts [item] [c] := by
  simp only [Glob.accepts_exactly_iff, Glob.accepts_any_one_iff hitem, exists_and_left]

theorem accepts_marked_iff (c : Char) (rest : List Char) :
    (Glob.accepts [.exactly c, .any] rest ∨ Glob.accepts [.exactly '.', .any, .exactly c] rest) ↔
      Marked c rest := by
  rw [accepts_starred_iff, accepts_dotted_iff (by simp)]
  simp [Marked, Glob.accepts]

theorem takes_iff (tag : BankTag) (bare : Bool) (rest : String) :
    (∃ tail ∈ familyTails tag bare, globMatches tail rest = true) ↔
      Takes tag bare rest.toList := by
  cases tag with
  | shadow =>
    rw [Takes, ← accepts_marked_iff]
    simp [familyTails, BankTag.suffix, globMatches, Glob.parse]
  | mirror =>
    rw [Takes, ← accepts_marked_iff]
    simp [familyTails, BankTag.suffix, globMatches, Glob.parse]
  | primary =>
    have hother : Glob.accepts [.exactly '.', .any, .except '&'] rest.toList ↔
        ∃ x c, rest.toList = '.' :: x ∧ x.getLast? = some c ∧ c ≠ '&' := by
      rw [accepts_dotted_iff (by simp)]
      simp [Glob.accepts]
    rw [Takes, ← hother]
    cases bare <;> simp [familyTails, globMatches, Glob.parse, Glob.accepts]

def bankOfLast (c : Char) : BankTag :=
  if c = '!' then .shadow else if c = '&' then .mirror else .primary

/-- The bank of the section whose name goes on so behind its family. -/
def bank? (rest : List Char) : Option BankTag :=
  match rest with
  | [] => some .primary
  | '!' :: _ => some .shadow
  | '&' :: _ => some .mirror
  | '.' :: x => x.getLast?.map bankOfLast
  | _ => none

def bankOrder : BankTag → Nat
  | .shadow => 0
  | .primary => 1
  | .mirror => 2

/-- The forms of the names of sections, by their banks. -/
theorem bank?_cases {rest : List Char} {tag : BankTag} (h : bank? rest = some tag) :
    (rest = [] ∧ tag = .primary) ∨ (∃ y, rest = '!' :: y ∧ tag = .shadow) ∨
      (∃ y, rest = '&' :: y ∧ tag = .mirror) ∨
      ∃ x c, rest = '.' :: x ∧ x.getLast? = some c ∧ tag = bankOfLast c := by
  unfold bank? at h
  split at h
  case h_1 =>
    cases h
    exact .inl ⟨rfl, rfl⟩
  case h_2 y =>
    cases h
    exact .inr (.inl ⟨y, rfl, rfl⟩)
  case h_3 y =>
    cases h
    exact .inr (.inr (.inl ⟨y, rfl, rfl⟩))
  case h_4 x =>
    obtain ⟨c, hc, rfl⟩ := Option.map_eq_some_iff.mp h
    exact .inr (.inr (.inr ⟨x, c, rfl, hc, rfl⟩))
  case h_5 => cases h

theorem separated_of_bank {rest : List Char} {tag : BankTag} (h : bank? rest = some tag) :
    Separated rest := by
  have hshadow : Memory.isIdentifierRest '!' = false := by decide
  have hmirror : Memory.isIdentifierRest '&' = false := by decide
  have hdot : Memory.isIdentifierRest '.' = false := by decide
  rcases bank?_cases h with ⟨rfl, _⟩ | ⟨_, rfl, _⟩ | ⟨_, rfl, _⟩ | ⟨_, _, rfl, _⟩
  · trivial
  · exact hshadow
  · exact hmirror
  · exact hdot

theorem takes_of_bank {rest : List Char} {tag : BankTag} {bare : Bool}
    (h : bank? rest = some tag) (hbare : bare = true ∨ rest ≠ []) : Takes tag bare rest := by
  rcases bank?_cases h with ⟨rfl, rfl⟩ | ⟨_, rfl, rfl⟩ | ⟨_, rfl, rfl⟩ | ⟨x, c, rfl, hc, rfl⟩
  · exact .inl ⟨by simpa using hbare, rfl⟩
  · exact .inl rfl
  · exact .inl rfl
  · unfold bankOfLast
    split
    · next hlast => exact .inr ⟨x, rfl, hlast ▸ hc⟩
    · split
      · next hlast => exact .inr ⟨x, rfl, hlast ▸ hc⟩
      · next hlast => exact .inr ⟨x, c, rfl, hc, hlast⟩

/-- The lines of the banks before its own leave a section alone. -/
theorem not_takes_of_bank {rest : List Char} {tag earlier : BankTag}
    (h : bank? rest = some tag) (horder : bankOrder earlier < bankOrder tag) (bare : Bool) :
    ¬ Takes earlier bare rest := by
  -- Only the starred lines of the shadow bank and of the primary bank can come too early.
  have hearlier : (earlier = .shadow ∧ tag ≠ .shadow) ∨ (earlier = .primary ∧ tag = .mirror) := by
    revert horder
    cases earlier <;> cases tag <;> decide
  rcases bank?_cases h with ⟨rfl, rfl⟩ | ⟨_, rfl, rfl⟩ | ⟨_, rfl, rfl⟩ | ⟨x, c, rfl, hc, rfl⟩
  · rcases hearlier with ⟨rfl, _⟩ | ⟨_, hmirror⟩
    · simp [Takes, Marked]
    · cases hmirror
  · simp at hearlier
  · rcases hearlier with ⟨rfl, _⟩ | ⟨rfl, _⟩ <;> simp [Takes, Marked]
  · rcases hearlier with ⟨rfl, hshadow⟩ | ⟨rfl, hmirror⟩
    · rintro (hhead | ⟨y, hy, hlast⟩)
      · simp at hhead
      · cases hy
        cases hc.symm.trans hlast
        exact hshadow rfl
    · rintro (⟨_, hnil⟩ | ⟨y, d, hy, hlast, hne⟩)
      · cases hnil
      · cases hy
        cases hc.symm.trans hlast
        revert hmirror
        unfold bankOfLast
        rw [if_neg hne]
        split <;> simp

theorem collects_family_iff {f g rest : String} (hf : Stem f) (hg : Stem g)
    (hr : Separated rest.toList) (level : Nat) (tag : BankTag) (bare : Bool) :
    (Command.input level (family tag g bare)).Collects ("." ++ f ++ rest) ↔
      g = f ∧ Takes tag bare rest.toList := by
  have hpatterns : (Command.input level (family tag g bare)).patterns =
      (familyTails tag bare).map ("." ++ g ++ ·) := family_patterns tag g bare
  rw [Command.Collects, hpatterns, ← takes_iff]
  simp only [List.mem_map, exists_exists_and_eq_and]
  constructor
  · rintro ⟨tail, htail, h⟩
    obtain ⟨hstem, hmatch⟩ :=
      (globMatches_stem_iff hf hg (familyTails_tail tag bare tail htail) hr).mp h
    exact ⟨hstem, tail, htail, hmatch⟩
  · rintro ⟨hstem, tail, htail, h⟩
    exact ⟨tail, htail, (globMatches_stem_iff hf hg (familyTails_tail tag bare tail htail) hr).mpr
      ⟨hstem, h⟩⟩

end FirmwareKit.Script
