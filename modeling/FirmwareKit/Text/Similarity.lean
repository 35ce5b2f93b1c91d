set_option autoImplicit false

namespace FirmwareKit.Text

def commonLead : List Char → List Char → Nat
  | a :: as, b :: bs => if a = b then commonLead as bs + 1 else 0
  | _, _ => 0

structure CommonRun where
  first : Nat
  second : Nat
  length : Nat
deriving DecidableEq, Repr

def CommonRun.longer (r s : CommonRun) : CommonRun := if r.length < s.length then s else r

/-- The longest common run; of several the first in the first text, then in the second. -/
def longestRun (a b : List Char) : CommonRun :=
  (List.range a.length).foldl (fun best i =>
    (List.range b.length).foldl (fun best j =>
      best.longer ⟨i, j, commonLead (a.drop i) (b.drop j)⟩) best) ⟨0, 0, 0⟩

def matchingWithin : Nat → List Char → List Char → Nat
  | 0, _, _ => 0
  | n + 1, a, b =>
    let r := longestRun a b
    if r.length = 0 then 0
    else matchingWithin n (a.take r.first) (b.take r.second) + r.length
      + matchingWithin n (a.drop (r.first + r.length)) (b.drop (r.second + r.length))

def matching (a b : List Char) : Nat := matchingWithin (a.length + 1) a b

structure Similarity where
  text : String
  matched : Nat
  total : Nat
deriving DecidableEq, Repr

def similarity (word candidate : String) : Similarity :=
  ⟨candidate, 2 * matching candidate.toList word.toList, candidate.length + word.length⟩

def Similarity.isClose (s : Similarity) : Bool := 3 * s.total ≤ 5 * s.matched

/-- The closer comes first, and of two that are equally close the later in the alphabet. -/
def Similarity.before (s t : Similarity) : Bool :=
  let x := s.matched * t.total
  let y := t.matched * s.total
  y < x || (x == y && !(s.text < t.text))

def suggestionCount : Nat := 3

def suggestions (word : String) (candidates : List String) : List String :=
  let close := (candidates.map (similarity word)).filter Similarity.isClose
  let best := (close.mergeSort Similarity.before).take suggestionCount
  (best.map Similarity.text).mergeSort fun a b => !(b < a)

end FirmwareKit.Text
