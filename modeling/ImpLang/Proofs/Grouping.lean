import ImpLang.Proofs.Derivation
import ImpLang.Proofs.Induction
import Mathlib.Tactic.Common

/-! Trees of operators read from left to right. Operators that bind more tightly stand below those
that bind less tightly, and equal ones group to the left. A sequence of operands and operators has
one such tree, the one that its derivation makes. -/
namespace ImpLang

namespace Exp

/-- The operands and operators of a tree from left to right. Only an operation whose operator stands
in the table of its form is taken apart; all else is an operand. -/
def inorder : Exp → List (Exp ⊕ Op)
  | binary op l r => l.inorder ++ .inr op :: r.inorder
  | e => [.inl e]

/-- How loosely the operator at the root binds. An operand binds more tightly than any operator. -/
def level : Exp → Nat
  | binary op _ _ => op.level
  | _ => 0

/-- Below each operator, the one on the left binds at least as tightly, and the one on the right
more tightly. -/
def Grouped : Exp → Prop
  | binary op l r => l.level ≤ op.level ∧ r.level < op.level ∧ l.Grouped ∧ r.Grouped
  | _ => True

def IsOperand (e : Exp) : Prop :=
  ∀ op l r, e ≠ binary op l r

variable {e e' l r : Exp} {op : Op}

/-- Induction in which everything but an operation stands for itself. -/
theorem operationInduction {P : Exp → Prop} (operand : ∀ e, e.IsOperand → P e)
    (operation : ∀ op l r, P l → P r → P (.binary op l r)) (e : Exp) : P e := by
  induction e using Exp.induction with
  | binary op l r ihl ihr => exact operation op l r ihl ihr
  | _ => exact operand _ fun _ _ _ h => nomatch h

theorem IsOperand.inorder_eq (h : e.IsOperand) : e.inorder = [.inl e] := by
  unfold inorder
  split
  · exact absurd rfl (h _ _ _)
  · rfl

theorem IsOperand.level_eq (h : e.IsOperand) : e.level = 0 := by
  unfold level
  split
  · exact absurd rfl (h _ _ _)
  · rfl

theorem IsOperand.grouped (h : e.IsOperand) : e.Grouped := by
  unfold Grouped
  split
  · exact absurd rfl (h _ _ _)
  · trivial

/-- No operator of the tree binds less tightly than the one at its root. -/
theorem Grouped.level_le (h : e.Grouped) (hmem : .inr op ∈ e.inorder) : op.level ≤ e.level := by
  induction e using operationInduction with
  | operand e hoperand =>
    rw [hoperand.inorder_eq] at hmem
    cases List.mem_singleton.mp hmem
  | operation root l r ihl ihr =>
    obtain ⟨hleft, hright, hl, hr⟩ := h
    simp only [inorder, List.mem_append, List.mem_cons, Sum.inr.injEq] at hmem
    change op.level ≤ root.level
    rcases hmem with hmem | heq | hmem
    · exact (ihl hl hmem).trans hleft
    · rw [heq]
    · exact (ihr hr hmem).trans hright.le

/-- Two sequences with an operator at the root of each are cut at the same place: were one cut
further to the left, the operator there would be below the other one on its left and the other
below it on its right. -/
theorem cut_eq {l l' r r' : Exp} {op op' : Op} (h : (binary op l r).Grouped)
    (h' : (binary op' l' r').Grouped) {between : List (Exp ⊕ Op)}
    (hl : l'.inorder = l.inorder ++ between)
    (hr : .inr op :: r.inorder = between ++ .inr op' :: r'.inorder) :
    l.inorder = l'.inorder ∧ op = op' ∧ r.inorder = r'.inorder := by
  obtain ⟨-, hright, -, hgr⟩ := h
  obtain ⟨hleft', -, hgl', -⟩ := h'
  cases between with
  | nil =>
    rw [List.nil_append, List.cons.injEq] at hr
    exact ⟨by rw [hl, List.append_nil], Sum.inr.inj hr.1, hr.2⟩
  | cons x between =>
    rw [List.cons_append, List.cons.injEq] at hr
    obtain ⟨rfl, hr⟩ := hr
    have hbelow' : op.level ≤ op'.level := by
      apply le_trans _ hleft'
      apply hgl'.level_le
      simp [hl]
    have hbelow : op'.level < op.level := by
      apply lt_of_le_of_lt _ hright
      apply hgr.level_le
      simp [hr]
    exact absurd hbelow (Nat.not_lt.mpr hbelow')

theorem inorder_ne_nil (e : Exp) : e.inorder ≠ [] := by
  unfold inorder
  split
  · simp
  · simp

/-- What is read for an operation is read for no operand. -/
theorem IsOperand.inorder_ne (h : e.IsOperand) : e.inorder ≠ (binary op l r).inorder := by
  rw [h.inorder_eq, inorder]
  intro heq
  obtain ⟨first, others, hl⟩ := List.exists_cons_of_ne_nil l.inorder_ne_nil
  rw [hl, List.cons_append, List.cons.injEq] at heq
  simp at heq

theorem Grouped.eq_of_inorder (h : e.Grouped) (h' : e'.Grouped) (heq : e.inorder = e'.inorder) :
    e = e' := by
  induction e using operationInduction generalizing e' with
  | operand e hoperand =>
    cases e' using operationInduction with
    | operand e' hoperand' =>
      rw [hoperand.inorder_eq, hoperand'.inorder_eq] at heq
      exact Sum.inl.inj (List.singleton_inj.mp heq)
    | operation op' l' r' => exact absurd heq hoperand.inorder_ne
  | operation op l r ihl ihr =>
    cases e' using operationInduction with
    | operand e' hoperand' => exact absurd heq.symm hoperand'.inorder_ne
    | operation op' l' r' =>
      have hcut : l.inorder = l'.inorder ∧ op = op' ∧ r.inorder = r'.inorder := by
        rcases List.append_eq_append_iff.mp heq with ⟨between, hl, hr⟩ | ⟨between, hl, hr⟩
        · exact cut_eq h h' hl hr
        · obtain ⟨hl, hop, hr⟩ := cut_eq h' h hl hr
          exact ⟨hl.symm, hop.symm, hr.symm⟩
      obtain ⟨hl, rfl, hr⟩ := hcut
      rw [ihl h.2.2.1 h'.2.2.1 hl, ihr h.2.2.2 h'.2.2.2 hr]

end Exp

end ImpLang
