import ImpLang.Tree

namespace ImpLang

namespace Exp

mutual

def beq : Exp → Exp → Bool
  | .int m, .int n => m == n
  | .bool b, .bool c => b == c
  | .var x, .var y => x == y
  | .fn ps e, .fn qs f => ps == qs && e.beq f
  | .letIn bs e, .letIn cs f => beqBindings bs cs && e.beq f
  | .apply f as, .apply g bs => f.beq g && beqList as bs
  | .ite c t e, .ite c' t' e' => c.beq c' && t.beq t' && e.beq e'
  | .binary o l r, .binary o' l' r' => o == o' && l.beq l' && r.beq r'
  | .unknownOp k s l r, .unknownOp k' s' l' r' => k == k' && s == s' && l.beq l' && r.beq r'
  | .foreign x, .foreign y => x == y
  | _, _ => false

def beqList : List Exp → List Exp → Bool
  | [], [] => true
  | e :: es, f :: fs => e.beq f && beqList es fs
  | _, _ => false

def beqBindings : List (String × Exp) → List (String × Exp) → Bool
  | [], [] => true
  | (x, e) :: bs, (y, f) :: cs => x == y && e.beq f && beqBindings bs cs
  | _, _ => false

end

mutual

theorem beq_iff : ∀ a b : Exp, a.beq b = true ↔ a = b
  | .int _, b => by cases b <;> simp [beq]
  | .bool _, b => by cases b <;> simp [beq]
  | .var _, b => by cases b <;> simp [beq]
  | .fn _ e, b => by cases b <;> simp [beq, beq_iff e]
  | .letIn bs e, b => by cases b <;> simp [beq, beq_iff e, beqBindings_iff bs]
  | .apply f as, b => by cases b <;> simp [beq, beq_iff f, beqList_iff as]
  | .ite c t e, b => by cases b <;> simp [beq, beq_iff c, beq_iff t, beq_iff e, and_assoc]
  | .binary _ l r, b => by cases b <;> simp [beq, beq_iff l, beq_iff r, and_assoc]
  | .unknownOp _ _ l r, b => by cases b <;> simp [beq, beq_iff l, beq_iff r, and_assoc]
  | .foreign _, b => by cases b <;> simp [beq]

theorem beqList_iff : ∀ as bs : List Exp, beqList as bs = true ↔ as = bs
  | [], bs => by cases bs <;> simp [beqList]
  | e :: es, bs => by cases bs <;> simp [beqList, beq_iff e, beqList_iff es]

theorem beqBindings_iff :
    ∀ as bs : List (String × Exp), beqBindings as bs = true ↔ as = bs
  | [], bs => by cases bs <;> simp [beqBindings]
  | (x, e) :: es, [] => by simp [beqBindings]
  | (x, e) :: es, (y, f) :: fs => by
    simp [beqBindings, beq_iff e, beqBindings_iff es, and_assoc]

end

instance : DecidableEq Exp := fun a b =>
  decidable_of_iff (a.beq b = true) (beq_iff a b)

end Exp

namespace Stmt

mutual

def beq : Stmt → Stmt → Bool
  | .set x e, .set y f => x == y && e == f
  | .print e, .print f => e == f
  | .quit, .quit => true
  | .ite c t e, .ite c' t' e' => c == c' && t.beq t' && e.beq e'
  | .procedure x ps b, .procedure y qs c => x == y && ps == qs && b.beq c
  | .call x as, .call y bs => x == y && as == bs
  | .seq ss, .seq ts => beqList ss ts
  | .foreign x, .foreign y => x == y
  | _, _ => false

def beqList : List Stmt → List Stmt → Bool
  | [], [] => true
  | s :: ss, t :: ts => s.beq t && beqList ss ts
  | _, _ => false

end

mutual

theorem beq_iff : ∀ a b : Stmt, a.beq b = true ↔ a = b
  | .set _ _, b => by cases b <;> simp [beq]
  | .print _, b => by cases b <;> simp [beq]
  | .quit, b => by cases b <;> simp [beq]
  | .ite _ t e, b => by cases b <;> simp [beq, beq_iff t, beq_iff e, and_assoc]
  | .procedure _ _ s, b => by cases b <;> simp [beq, beq_iff s, and_assoc]
  | .call _ _, b => by cases b <;> simp [beq]
  | .seq ss, b => by cases b <;> simp [beq, beqList_iff ss]
  | .foreign _, b => by cases b <;> simp [beq]

theorem beqList_iff : ∀ as bs : List Stmt, beqList as bs = true ↔ as = bs
  | [], bs => by cases bs <;> simp [beqList]
  | s :: ss, bs => by cases bs <;> simp [beqList, beq_iff s, beqList_iff ss]

end

instance : DecidableEq Stmt := fun a b =>
  decidable_of_iff (a.beq b = true) (beq_iff a b)

end Stmt

end ImpLang
