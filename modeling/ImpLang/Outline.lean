import ImpLang.Bindings
import ImpLang.Text.Line

/-!
Outlines: the shape of a tree as a type name, a one-line label and labelled children. An outline
can be written as indented lines, which show every child, or as nested tables, in which a label
that comes twice keeps its first place and its last child.
-/

namespace ImpLang

inductive Outline where
  | node (type label : String) (children : List (String × Outline))

namespace Outline

def leaf (type : String) : Outline :=
  .node type type []

def type : Outline → String
  | node t _ _ => t

def label : Outline → String
  | node _ l _ => l

def children : Outline → List (String × Outline)
  | node _ _ cs => cs

mutual

def beq : Outline → Outline → Bool
  | .node t l cs, .node t' l' cs' => t == t' && l == l' && beqChildren cs cs'

def beqChildren : List (String × Outline) → List (String × Outline) → Bool
  | [], [] => true
  | (x, a) :: as, (y, b) :: bs => x == y && a.beq b && beqChildren as bs
  | _, _ => false

end

mutual

theorem beq_iff : ∀ a b : Outline, a.beq b = true ↔ a = b
  | .node t l cs, .node t' l' cs' => by
    simp [beq, beqChildren_iff cs cs', and_assoc]

theorem beqChildren_iff : ∀ as bs : List (String × Outline), beqChildren as bs = true ↔ as = bs
  | [], bs => by cases bs <;> simp [beqChildren]
  | (x, a) :: as, [] => by simp [beqChildren]
  | (x, a) :: as, (y, b) :: bs => by
    simp [beqChildren, beq_iff a b, beqChildren_iff as bs, and_assoc]

end

instance : DecidableEq Outline := fun a b =>
  decidable_of_iff (a.beq b = true) (beq_iff a b)

mutual

/-- The lines of an outline: the node itself, with the name it has in its parent, and then its
children one step further to the right. -/
def pretty (indent : Int) (name : String) : Outline → String
  | .node _ label children =>
    Text.spaces (2 * indent) ++ (if name = "" then "" else name ++ ": ") ++ label ++ "\n" ++
      prettyChildren (indent + 1) children

def prettyChildren (indent : Int) : List (String × Outline) → String
  | [] => ""
  | (name, child) :: rest => child.pretty indent name ++ prettyChildren indent rest

end

mutual

/-- The outline as nested tables: children under one label are merged at every level. -/
def keyed : Outline → Outline
  | .node type label children => .node type label (Bindings.ofPairs (keyedChildren children))

def keyedChildren : List (String × Outline) → List (String × Outline)
  | [] => []
  | (name, child) :: rest => (name, child.keyed) :: keyedChildren rest

end

end Outline

end ImpLang
