import FirmwareKit.Text.Lines
set_option autoImplicit false

namespace FirmwareKit

/-- A command with its documentation; the children are the commands of a group as they were
declared. -/
inductive CommandTree where
  | node (name documentation : String) (isHidden : Bool) (children : List CommandTree)

inductive Outline where
  | node (name documentation : String) (children : List Outline)

structure Outline.Row where
  label : String
  summary : String
deriving DecidableEq, Repr

namespace CommandTree

def name : CommandTree → String
  | .node name _ _ _ => name

def isHidden : CommandTree → Bool
  | .node _ _ isHidden _ => isHidden

mutual
/-- Hidden commands are left out, and of commands of one name all but the last. -/
def outline : CommandTree → Outline
  | .node name documentation _ children => .node name documentation (outlines children)

def outlines : List CommandTree → List Outline
  | [] => []
  | c :: rest =>
    if c.isHidden || rest.any (fun d => d.name == c.name) then outlines rest
    else outline c :: outlines rest
end

end CommandTree

namespace Outline

def name : Outline → String
  | .node name _ _ => name

def byName (a b : Outline) : Bool := !(b.name < a.name)

mutual
def sorted : Outline → Outline
  | .node name documentation children =>
    .node name documentation ((sortedAll children).mergeSort byName)

def sortedAll : List Outline → List Outline
  | [] => []
  | c :: rest => sorted c :: sortedAll rest
end

def summaryWidth : Nat := 78

def summaryOf (documentation : String) : String :=
  let line := documentation.toList.takeWhile (· ≠ '\n')
  String.ofList (line.take summaryWidth ++ (if line.length ≤ summaryWidth then [] else ['.', '.']))

def mark (isLast : Bool) : String := if isLast then "└── " else "├── "

def underMark (isLast : Bool) : String := if isLast then "    " else "│   "

mutual
/-- The rows of a command at some depth, and of those below it. The lead is that of the command
above; the command's own goes on with what stands under the mark of the command above, which the
root and the commands right below it do not have. -/
def branch (depth : Nat) (isLast isParentLast : Bool) (lead : String) : Outline → List Row
  | .node name documentation children =>
    let lead := if 1 < depth then lead ++ underMark isParentLast else lead
    ⟨lead ++ (if depth = 0 then "" else mark isLast) ++ name, summaryOf documentation⟩
      :: branches (depth + 1) isLast lead children

def branches (depth : Nat) (isParentLast : Bool) (lead : String) : List Outline → List Row
  | [] => []
  | c :: rest =>
    branch depth rest.isEmpty isParentLast lead c ++ branches depth isParentLast lead rest
end

def rowsInOrder (o : Outline) : List Row := branch 0 false false "" o

def rows (o : Outline) : List Row := o.sorted.rowsInOrder

end Outline
end FirmwareKit
