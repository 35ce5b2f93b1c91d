import FirmwareKit.Schema.Compile
import FirmwareKit.Schema.Explain
import FirmwareKit.Schema.Multiple
set_option autoImplicit false

/-!
# Checking values against schemas

The rules of a schema are tried in order until one fails. Checking may change the value: entries
that are missing get their defaults, also where an alternative fails later.
-/
namespace FirmwareKit.Schema

/-- A part of what is checked; a key that leads to it may be too long to be written. -/
structure Spot extends Subject where
  overlong : Bool
deriving Repr

def Spot.with (s : Spot) (v : Value) : Spot := { s with value := v }

def Spot.item (s : Spot) (v : Value) : Spot := ⟨⟨false, v⟩, s.overlong⟩

def Spot.entry (s : Spot) (key v : Value) : Spot := ⟨⟨false, v⟩, s.overlong || key.isOverlong⟩

abbrev Finding := Outcome (List Rule)

abbrev Flaw := Failure (List Rule)

def Failure.under {D : Type} (step : String) (f : Failure D) : Failure D :=
  { f with message := step ++ f.message }

def Outcome.under {D : Type} (step : String) (o : Outcome D) : Outcome D :=
  { o with failure := o.failure.map (Failure.under step) }

def itemStep (i : Nat) : String := s!"[{i}]"

def entryStep (key : Value) : String := "." ++ key.display

def passed (s : Spot) : Program Finding := pure ⟨s.value, none⟩

/-- A failure is shown with the way to what failed, if that can be written. -/
def failed (s : Spot) (text : String) (cause : Cause (List Rule)) : Program Finding :=
  if s.overlong then Program.system .overlongInteger
  else pure ⟨s.value, some ⟨" " ++ text, s.toSubject, cause⟩⟩

def ensure (s : Spot) (holds : Bool) (text : String) : Program Finding :=
  if holds then passed s else failed s text .other

/-! Single rules -/

def sizeText (measure : Measure) (side : Side) (limit : Value) : String :=
  let n := limit.display
  match measure, side with
  | .characters, .least => s!"must be longer than or equal to {n} characters"
  | .characters, .most => s!"must be shorter than or equal to {n} characters"
  | .items, .least => s!"must contain at least {n} items"
  | .items, .most => s!"must contain less than or equal to {n} items"
  | .entries, .least => s!"must contain at least {n} properties"
  | .entries, .most => s!"must contain less than or equal to {n} properties"

def limitText (l : Limit) : String :=
  let n := l.value.display
  match l.side, l.strict with
  | .least, true => s!"must be bigger than {n}"
  | .least, false => s!"must be bigger than or equal to {n}"
  | .most, true => s!"must be smaller than {n}"
  | .most, false => s!"must be smaller than or equal to {n}"

/-- Truth values differ from numbers, and a list equals the sequence of its items. -/
def uniqueForm : Value → Value
  | .bool b => .text (if b then "True" else "False")
  | .list xs => .tuple (forms xs)
  | .tuple xs => .tuple (forms xs)
  | .map es => .map (entryForms es)
  | v => v
where
  forms : List Value → List Value
  | [] => []
  | v :: rest => uniqueForm v :: forms rest
  entryForms : List (Value × Value) → List (Value × Value)
  | [] => []
  | (k, v) :: rest => (k, uniqueForm v) :: entryForms rest

def areDistinct : List Value → Bool
  | [] => true
  | v :: rest => !rest.any (·.sameKey v) && areDistinct rest

def itemsOf? : Value → Option (List Value)
  | .list xs | .tuple xs => some xs
  | _ => none

def withItems (v : Value) (xs : List Value) : Value :=
  match v with
  | .tuple _ => .tuple xs
  | _ => .list xs

def sortedTexts? (vs : List Value) : Option (List Value) :=
  (vs.mapM text?).map fun ss => (ss.mergeSort fun a b => decide (a ≤ b)).map Value.text

def missingText (missing : List Value) : Except Fault String :=
  match missing with
  | [v] => .ok (Value.list [v]).quoted
  | vs =>
    match sortedTexts? vs with
    | some vs => .ok (Value.list vs).quoted
    | none => .error (.system (.wrongType "names that cannot be compared"))

def checkRequired (names : List Value) (s : Spot) : Program Finding :=
  match s.value with
  | .map es => do
    let missing := names.filter fun n => (Value.Entries.get? es n).isNone
    if missing.isEmpty then passed s
    else
      let text ← Program.ofExcept (missingText missing)
      failed s s!"must contain {text} properties" (.required names)
  | _ => passed s

def checkNoOthers (known : List String) (s : Spot) : Program Finding :=
  match s.value with
  | .map es =>
    let others := es.filter fun e => !known.any fun k => e.1.sameKey (.text k)
    let names := ", ".intercalate (others.map fun e => e.1.quoted)
    if others.any fun e => e.1.isOverlong then Program.system .overlongInteger
    else ensure s others.isEmpty ("must not contain \x7b" ++ names ++ "\x7d properties")
  | _ => passed s

def checkMultiple (divisor : Value) (s : Spot) : Program Finding := do
  let holds ← Program.ofExcept ((isMultipleOf s.value divisor).mapError .system)
  ensure s holds s!"must be multiple of {divisor.display}"

def checkUnique (s : Spot) : Program Finding :=
  match itemsOf? s.value with
  | some xs => ensure s (areDistinct (xs.map uniqueForm)) "must contain unique items"
  | none => passed s

def constantText : Value → String
  | .text s => s
  | v => resolved v.display

def checkPlain (r : Rule) (s : Spot) : Program Finding :=
  match r with
  | .never => ensure s false "must not be there"
  | .type types =>
    ensure s (hasType types s.value)
      ("must be " ++ " or ".intercalate (types.map TypeName.text))
  | .enum values =>
    ensure s (values.any (·.eq s.value)) ("must be one of " ++ resolved (Value.list values).quoted)
  | .const v =>
    ensure s (s.value.eq v) s!"must be same as const definition: {constantText v}"
  | .nothing => ensure s false "must NOT match a disallowed definition"
  | .anything => ensure s false "must not be there"
  | .size measure side limit =>
    let holds := match measure.of? s.value with
      | some n => !(Limit.violatedBy ⟨side, false, limit⟩ (.int n))
      | none => true
    ensure s holds (sizeText measure side limit)
  | .pattern source p =>
    let holds := match s.value with
      | .text t => p.search t
      | _ => true
    ensure s holds s!"must match pattern {source}"
  | .format format => do
    let holds ← match s.value with
      | .text t => Program.isInFormat format t
      | _ => pure true
    if holds then passed s else failed s s!"must be {format.name}" (.format format.name)
  | .magnitude l =>
    let holds := match s.value.toNumber? with
      | some n => !l.violatedBy n
      | none => true
    ensure s holds (limitText l)
  | .multipleOf d => checkMultiple d s
  | .unique => checkUnique s
  | .noItems => ensure s (((itemsOf? s.value).map List.isEmpty).getD true) "must not be there"
  | .required names => checkRequired names s
  | .noOthers known => checkNoOthers known s
  | _ => passed s

/-! Parts of a value -/

/-- Checks items one after the other; the items checked keep their changes. -/
def checkItems (check : Spot → Program Finding) (s : Spot) (i : Nat) :
    List Value → Program (List Value × Option Flaw)
  | [] => pure ([], none)
  | v :: rest => do
    let o ← Outcome.under (itemStep i) <$> check (s.item v)
    match o.failure with
    | some f => pure (o.value :: rest, some f)
    | none => do
      let (vs, f) ← checkItems check s (i + 1) rest
      pure (o.value :: vs, f)

def entry (s : Spot) (es : Value.Entries) (key : Value) : Program Value :=
  if s.whole then Program.item es key else pure ((es.get? key).getD .null)

def entryOrNull (s : Spot) (es : Value.Entries) (key : Value) : Program Value :=
  if s.whole then Program.get es key else pure ((es.get? key).getD .null)

/-- The entries once the value of an entry is checked: what the check changed in it stays where it
was found. -/
def putBack (s : Spot) (es : Value.Entries) (key v : Value) : Program Value.Entries :=
  if s.whole then Program.put es key v else pure (es.insert key v)

def checkOthers (check : Spot → Program Finding) (s : Spot) (keys : List Value)
    (es : Value.Entries) : Program (Value.Entries × Option Flaw) :=
  match keys with
  | [] => pure (es, none)
  | k :: rest => do
    let v ← entryOrNull s es k
    let o ← Outcome.under (entryStep k) <$> check (s.entry k v)
    let es ← putBack s es k o.value
    match o.failure with
    | some f => pure (es, some f)
    | none => checkOthers check s rest es

/-! Schemas -/

def Choice.refusal : Choice → Nat → String
  | .anyOf, _ => "cannot be validated by any definition"
  | .oneOf, n => s!"must be valid exactly by one definition ({n} matches found)"

mutual
def checkAll : List Rule → Spot → Program Finding
  | [], s => passed s
  | r :: rest, s => do
    let o ← checkRule r s
    match o.failure with
    | some _ => pure o
    | none => checkAll rest (s.with o.value)

def checkRule : Rule → Spot → Program Finding
  | .allOf schemas, s => checkEach schemas s
  | .choice choice schemas, s => do
    let (v, n) ← countPassed schemas choice.enough 0 s
    if choice.admits n then passed (s.with v)
    else failed (s.with v) (choice.refusal n) (.alternatives choice schemas)
  | .not schema, s => do
    let o ← checkAll schema s
    ensure (s.with o.value) o.failure.isSome "must NOT match a disallowed definition"
  | .items schema, s =>
    match itemsOf? s.value with
    | none => passed s
    | some xs => do
      let (xs, f) ← checkItems (fun t => checkAll schema t) s 0 xs
      pure ⟨withItems s.value xs, f⟩
  | .itemsAt schemas, s =>
    match itemsOf? s.value with
    | none => passed s
    | some xs => do
      let (xs, f) ← checkPositions schemas s 0 xs
      pure ⟨withItems s.value xs, f⟩
  | .properties schemas, s =>
    match s.value with
    | .map es => do
      let (es, f) ← checkProperties schemas s es
      pure ⟨.map es, f⟩
    | _ => passed s
  | .others known schema, s =>
    match s.value with
    | .map es => do
      let keys := (es.map Prod.fst).filter fun k => !known.any fun n => k.sameKey (.text n)
      let (es, f) ← checkOthers (fun t => checkAll schema t) s keys es
      pure ⟨.map es, f⟩
    | _ => passed s
  | r, s => checkPlain r s

def checkEach : List (List Rule) → Spot → Program Finding
  | [], s => passed s
  | schema :: rest, s => do
    let o ← checkAll schema s
    match o.failure with
    | some _ => pure o
    | none => checkEach rest (s.with o.value)

/-- How many schemas pass; when `enough` have, the rest is not tried. -/
def countPassed : List (List Rule) → Nat → Nat → Spot → Program (Value × Nat)
  | [], _, n, s => pure (s.value, n)
  | schema :: rest, enough, n, s =>
    if enough ≤ n then pure (s.value, n)
    else do
      let o ← checkAll schema s
      countPassed rest enough (if o.failure.isSome then n else n + 1) (s.with o.value)

/-- Items against schemas by their position; where items end, defaults follow. -/
def checkPositions : List (List Rule × Option Value) → Spot → Nat → List Value →
    Program (List Value × Option Flaw)
  | [], _, _, xs => pure (xs, none)
  | (schema, default) :: rest, s, i, xs =>
    match xs[i]? with
    | none => checkPositions rest s (i + 1) (xs ++ default.toList)
    | some v => do
      let o ← Outcome.under (itemStep i) <$> checkAll schema (s.item v)
      let xs := xs.set i o.value
      match o.failure with
      | some f => pure (xs, some f)
      | none => checkPositions rest s (i + 1) xs

def checkProperties : List (String × List Rule × Option Value) → Spot → Value.Entries →
    Program (Value.Entries × Option Flaw)
  | [], _, es => pure (es, none)
  | (name, schema, default) :: rest, s, es =>
    match es.getText? name with
    | none =>
      let es := match default with
        | some d => es.insert (.text name) d
        | none => es
      checkProperties rest s es
    | some _ => do
      let v ← entry s es (.text name)
      let o ← Outcome.under (entryStep (.text name)) <$> checkAll schema (s.entry (.text name) v)
      let es ← putBack s es (.text name) o.value
      match o.failure with
      | some f => pure (es, some f)
      | none => checkProperties rest s es
end

def rootName : String := "data"

/-- A schema that is no mapping cannot be compiled on its own. -/
def recompile : List Rule → Except Fault (List Rule)
  | [.inert v] => .error (.system (.noAttribute v "items"))
  | rules => .ok rules

@[reducible] def standard : Validator where
  Definition := List Rule
  Code := List Rule
  compile := compile
  recompile := recompile
  check rules s := Outcome.under rootName <$> checkAll rules ⟨s, false⟩
  room := 1000

end FirmwareKit.Schema
