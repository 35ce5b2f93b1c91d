import FirmwareKit.Script.Emitter
set_option autoImplicit false

namespace FirmwareKit.Script

def Command.assigned? : Command → Option String
  | .assign _ (.symbol name) _ => some name.text
  | _ => none

def Command.opened? : Command → Option String
  | .openSection header | .openInline header => some header.name.text
  | .outside name _ => some name
  | _ => none

def symbols (commands : List Command) : List String := commands.filterMap Command.assigned?

def sections (commands : List Command) : List String := commands.filterMap Command.opened?

@[simp] theorem symbols_nil : symbols [] = [] := rfl

@[simp] theorem sections_nil : sections [] = [] := rfl

theorem symbols_cons (c : Command) (cs : List Command) :
    symbols (c :: cs) = c.assigned?.toList ++ symbols cs := by
  rw [symbols, symbols, List.filterMap_cons]
  cases c.assigned? <;> rfl

theorem sections_cons (c : Command) (cs : List Command) :
    sections (c :: cs) = c.opened?.toList ++ sections cs := by
  rw [sections, sections, List.filterMap_cons]
  cases c.opened? <;> rfl

@[simp] theorem symbols_append (xs ys : List Command) :
    symbols (xs ++ ys) = symbols xs ++ symbols ys := List.filterMap_append

@[simp] theorem sections_append (xs ys : List Command) :
    sections (xs ++ ys) = sections xs ++ sections ys := List.filterMap_append

theorem symbols_flatMap {α : Type} (f : α → List Command) (xs : List α) :
    symbols (xs.flatMap f) = xs.flatMap fun x => symbols (f x) := List.filterMap_flatMap

section Bands
variable (chainHead : String) (w : Window) (tag : BankTag)

theorem symbols_textBand (farText : Bool) (romStart : Value) :
    symbols (textBand farText romStart tag) =
      ["__stext" ++ tag.suffix, "__etext" ++ tag.suffix] := by
  cases farText <;> cases tag <;> rfl

theorem symbols_endMarker (key : String) (alignment : Value) :
    symbols (endMarker key alignment) =
      ["__" ++ key ++ "", "__" ++ key ++ "!", "__" ++ key ++ "&"] := rfl

theorem sections_endMarker (key : String) (alignment : Value) :
    sections (endMarker key alignment) = ["." ++ key] := rfl

theorem symbols_regionBody (r : Region) :
    symbols (regionBody r) = ["__s" ++ r.name, "__e" ++ r.name, "__l" ++ r.name ++ "!",
      "__l" ++ r.name, "__lw" ++ r.name ++ "!", "__lw" ++ r.name, "__e" ++ r.name] := rfl

theorem symbols_collect (level : Nat) (families : List String) :
    symbols (families.map (collect level tag)) = [] := by
  simp [symbols, collect, Command.assigned?]

theorem symbols_marks (level : Nat) (start : String) (rs : List Region) :
    symbols (rs.map fun r => mark level tag (start ++ symbolStem r)) =
      rs.map fun r => start ++ symbolStem r ++ tag.suffix := by
  induction rs with
  | nil => rfl
  | cons r rs ih =>
    rw [List.map_cons, symbols_cons, ih]
    rfl

/-- Over a window, only the shadow band sets symbols: the bounds of the regions. -/
theorem symbols_markerBand :
    symbols (markerBand chainHead w tag) =
      if tag = .shadow then
        w.regions.map (fun r => "__s" ++ symbolStem r ++ "!") ++
          w.regions.map (fun r => "__e" ++ symbolStem r ++ "!")
      else [] := by
  cases tag <;>
    simp [markerBand, symbols_cons, Command.assigned?, symbols_flatMap, symbols_collect,
      symbols_marks, BankTag.suffix]

end Bands
end FirmwareKit.Script
