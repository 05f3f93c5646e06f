import ImpLang.Exec
import ImpLang.Proofs.Induction
import Mathlib.Tactic.Common

/-! What a statement is made of. Conditionals and sequences only direct a run; the statements that
it comes upon in the end are the other ones, its actions. They stand in the statement that is run or
in a procedure that was declared before. -/
namespace ImpLang

namespace Stmt

mutual

/-- The statements that stand in a statement at any depth, apart from conditionals and sequences. A
declaration is listed together with what stands in its body. -/
def actions : Stmt → List Stmt
  | .set x e => [.set x e]
  | .print e => [.print e]
  | .quit => [.quit]
  | .ite _ thenBranch elseBranch => thenBranch.actions ++ elseBranch.actions
  | .procedure f params body => .procedure f params body :: body.actions
  | .call f args => [.call f args]
  | .seq stmts => actionsList stmts
  | .foreign thing => [.foreign thing]

def actionsList : List Stmt → List Stmt
  | [] => []
  | s :: rest => s.actions ++ actionsList rest

end

theorem mem_actionsList {t : Stmt} {stmts : List Stmt} :
    t ∈ actionsList stmts ↔ ∃ s ∈ stmts, t ∈ s.actions := by
  induction stmts with
  | nil => simp [actionsList]
  | cons s stmts ih => simp [actionsList, ih]

theorem actions_branch_subset (b : Bool) (c : Exp) (t e : Stmt) :
    (if b then t else e).actions ⊆ (Stmt.ite c t e).actions := by
  cases b with
  | true => exact List.subset_append_left _ _
  | false => exact List.subset_append_right _ _

theorem actions_body_subset (f : String) (params : List String) (body : Stmt) :
    body.actions ⊆ (Stmt.procedure f params body).actions :=
  List.subset_cons_self _ _

theorem actions_member_subset {s : Stmt} {stmts : List Stmt} (h : s ∈ stmts) :
    s.actions ⊆ (Stmt.seq stmts).actions :=
  fun _ ht => mem_actionsList.mpr ⟨s, h, ht⟩

/-- What stands in an action stands in the whole statement. -/
theorem actions_subset {s t : Stmt} (h : t ∈ s.actions) : t.actions ⊆ s.actions := by
  induction s using Stmt.induction with
  | set x e => rw [List.mem_singleton.mp h]; exact List.Subset.refl _
  | print e => rw [List.mem_singleton.mp h]; exact List.Subset.refl _
  | quit => rw [List.mem_singleton.mp h]; exact List.Subset.refl _
  | call f args => rw [List.mem_singleton.mp h]; exact List.Subset.refl _
  | foreign thing => rw [List.mem_singleton.mp h]; exact List.Subset.refl _
  | ite c t e iht ihe =>
    rcases List.mem_append.mp h with h | h
    · exact List.Subset.trans (iht h) (actions_branch_subset true c t e)
    · exact List.Subset.trans (ihe h) (actions_branch_subset false c t e)
  | procedure f params body ih =>
    rcases List.mem_cons.mp h with rfl | h
    · exact List.Subset.refl _
    · exact List.Subset.trans (ih h) (actions_body_subset f params body)
  | seq stmts ih =>
    obtain ⟨s, hs, h⟩ := mem_actionsList.mp h
    exact List.Subset.trans (ih s hs h) (actions_member_subset hs)

end Stmt

end ImpLang
