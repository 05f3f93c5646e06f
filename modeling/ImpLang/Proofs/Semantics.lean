import ImpLang.Proofs.PrintedForm
import ImpLang.Session

/-! What programs mean, as rules and without any limit on depth. `Evaluates` says which value an
expression has, and `Executes` what a statement does. All bindings of a let see the outer variables,
arguments are paired with parameters as far as both reach, and a failure is a value like any
other. -/
namespace ImpLang

/-- What an operator makes of two values. A quotient is rounded down, so the remainder has the sign
of the divisor, and a zero divisor is reported before anything else. -/
inductive Op.Gives : Op → Val → Val → Val → Prop
  | add (m n : Int) : Gives .add (.int m) (.int n) (.int (m + n))
  | sub (m n : Int) : Gives .sub (.int m) (.int n) (.int (m - n))
  | mul (m n : Int) : Gives .mul (.int m) (.int n) (.int (m * n))
  | div {m n q r : Int} (h : m = n * q + r) (hr : 0 ≤ r ∧ r < n ∨ n < r ∧ r ≤ 0) :
      Gives .div (.int m) (.int n) (.int q)
  | divisionByZero (x : Val) : Gives .div x (.int 0) Val.divisionByZero
  | and (a b : Bool) : Gives .and (.bool a) (.bool b) (.bool (a && b))
  | or (a b : Bool) : Gives .or (.bool a) (.bool b) (.bool (a || b))
  | lt (m n : Int) : Gives .lt (.int m) (.int n) (.bool (m < n))
  | gt (m n : Int) : Gives .gt (.int m) (.int n) (.bool (m > n))
  | le (m n : Int) : Gives .le (.int m) (.int n) (.bool (m ≤ n))
  | ge (m n : Int) : Gives .ge (.int m) (.int n) (.bool (m ≥ n))
  | ne (m n : Int) : Gives .ne (.int m) (.int n) (.bool (m ≠ n))
  | eq (m n : Int) : Gives .eq (.int m) (.int n) (.bool (m = n))
  | notIntegers {op : Op} {x y : Val} (hkind : op.kind ≠ .logic)
      (hzero : op = .div → y ≠ .int 0) (h : ∀ m n, x = .int m → y ≠ .int n) :
      Gives op x y Val.cannotLift
  | notTruthValues {op : Op} {x y : Val} (hkind : op.kind = .logic)
      (h : ∀ a b, x = .bool a → y ≠ .bool b) : Gives op x y Val.cannotLift

inductive Evaluates : Exp → Env → Val → Prop
  | int (n : Int) (env : Env) : Evaluates (.int n) env (.int n)
  | bool (b : Bool) (env : Env) : Evaluates (.bool b) env (.bool b)
  | bound {x : String} {env : Env} {v : Val} (h : env.get? x = some v) : Evaluates (.var x) env v
  | unbound {x : String} {env : Env} (h : env.get? x = none) :
      Evaluates (.var x) env Val.unbound
  | fn (params : List String) (body : Exp) (env : Env) :
      Evaluates (.fn params body) env (.closure params body env)
  | letIn {bindings : List (String × Exp)} {body : Exp} {env : Env} {values : List Val} {v : Val}
      (hlength : bindings.length = values.length)
      (hbound : ∀ b w, (b, w) ∈ bindings.zip values → Evaluates b.2 env w)
      (hbody : Evaluates body (env.insertAll ((bindings.map Prod.fst).zip values)) v) :
      Evaluates (.letIn bindings body) env v
  | apply {f : Exp} {args : List Exp} {env : Env} {params : List String} {body : Exp}
      {captured : List (String × Val)} {values : List Val} {v : Val}
      (hf : Evaluates f env (.closure params body captured))
      (hlength : args.length = values.length)
      (hargs : ∀ e w, (e, w) ∈ args.zip values → Evaluates e env w)
      (hbody : Evaluates body (Bindings.insertAll captured (params.zip values)) v) :
      Evaluates (.apply f args) env v
  | notClosure {f : Exp} {args : List Exp} {env : Env} {w : Val} (hf : Evaluates f env w)
      (hw : ∀ params body captured, w ≠ .closure params body captured) :
      Evaluates (.apply f args) env Val.notClosure
  | ite {c t e : Exp} {env : Env} {b : Bool} {v : Val} (hc : Evaluates c env (.bool b))
      (h : Evaluates (if b then t else e) env v) : Evaluates (.ite c t e) env v
  | notBool {c t e : Exp} {env : Env} {w : Val} (hc : Evaluates c env w)
      (hw : ∀ b, w ≠ .bool b) : Evaluates (.ite c t e) env Val.notBool
  | binary {op : Op} {l r : Exp} {env : Env} {x y v : Val} (hl : Evaluates l env x)
      (hr : Evaluates r env y) (hv : op.Gives x y v) : Evaluates (.binary op l r) env v
  | symbol {kind : OpKind} {symbol : String} {op : Op} {l r : Exp} {env : Env} {x y v : Val}
      (hop : Op.find? kind symbol = some op) (hl : Evaluates l env x) (hr : Evaluates r env y)
      (hv : op.Gives x y v) : Evaluates (.unknownOp kind symbol l r) env v

/-- The statement has the effect in this session, and all integers it prints are among those
allowed. -/
inductive Executes (allowed : Int → Prop) : Stmt → Session → Effect → Prop
  | print {e : Exp} {session : Session} {v : Val} {text : String}
      (he : Evaluates e session.vars v) (hv : v.PrintedForm allowed text) :
      Executes allowed (.print e) session ⟨text, session⟩
  | set {x : String} {e : Exp} {session : Session} {v : Val} (he : Evaluates e session.vars v) :
      Executes allowed (.set x e) session ⟨"", { session with vars := session.vars.insert x v }⟩
  | ite {c : Exp} {t e : Stmt} {session : Session} {b : Bool} {effect : Effect}
      (hc : Evaluates c session.vars (.bool b))
      (h : Executes allowed (if b then t else e) session effect) :
      Executes allowed (.ite c t e) session effect
  | notBool {c : Exp} {t e : Stmt} {session : Session} {w : Val}
      (hc : Evaluates c session.vars w) (hw : ∀ b, w ≠ .bool b) :
      Executes allowed (.ite c t e) session ⟨"exn: Condition is not a Bool", session⟩
  | quit (session : Session) : Executes allowed .quit session ⟨"", session⟩
  | procedure (f : String) (params : List String) (body : Stmt) (session : Session) :
      Executes allowed (.procedure f params body) session ⟨"", { session with
        procedures := session.procedures.insert f (.procedure f params body) }⟩
  | undefined {f : String} {args : List Exp} {session : Session}
      (h : session.procedures.get? f = none) :
      Executes allowed (.call f args) session ⟨"Procedure " ++ f ++ " undefined", session⟩
  | call {f g : String} {args : List Exp} {params : List String} {body : Stmt} {session : Session}
      {values : List Val} {effect : Effect}
      (hget : session.procedures.get? f = some (.procedure g params body))
      (hlength : args.length = values.length)
      (hargs : ∀ e w, (e, w) ∈ args.zip values → Evaluates e session.vars w)
      (hbody : Executes allowed body
        { session with vars := session.vars.insertAll (params.zip values) } effect) :
      Executes allowed (.call f args) session effect
  | nil (session : Session) : Executes allowed (.seq []) session ⟨"", session⟩
  | cons {s : Stmt} {rest : List Stmt} {session : Session} {first others : Effect}
      (hs : Executes allowed s session first)
      (hrest : Executes allowed (.seq rest) first.session others) :
      Executes allowed (.seq (s :: rest)) session
        ⟨first.output ++ others.output, others.session⟩

/-- A quotient with a remainder between zero and the divisor is rounded down. -/
theorem fdiv_eq_of_remainder {m n q r : Int} (h : m = n * q + r)
    (hr : 0 ≤ r ∧ r < n ∨ n < r ∧ r ≤ 0) : m.fdiv n = q := by
  rcases hr with hr | hr
  · have hn : 0 < n := by omega
    exact ((Int.fdiv_fmod_unique hn).mpr ⟨by omega, hr.1, hr.2⟩).1
  · have hn : 0 < -n := by omega
    rw [← Int.neg_fdiv_neg]
    refine ((Int.fdiv_fmod_unique hn).mpr ⟨?_, ?_, ?_⟩ : _ ∧ (-m).fmod (-n) = -r).1
    · rw [Int.neg_mul]
      omega
    · omega
    · omega

theorem exists_remainder (m : Int) {n : Int} (hn : n ≠ 0) :
    ∃ r, m = n * m.fdiv n + r ∧ (0 ≤ r ∧ r < n ∨ n < r ∧ r ≤ 0) := by
  rcases Int.lt_or_gt_of_ne hn with hneg | hpos
  · have hpos : 0 < -n := by omega
    have hm := Int.mul_fdiv_add_fmod (-m) (-n)
    have hnonneg := Int.fmod_nonneg_of_pos (-m) hpos
    have hlt := Int.fmod_lt_of_pos (-m) hpos
    rw [Int.neg_fdiv_neg, Int.neg_mul] at hm
    exact ⟨-(-m).fmod (-n), by omega, .inr ⟨by omega, by omega⟩⟩
  · have hm := Int.mul_fdiv_add_fmod m n
    exact ⟨m.fmod n, hm.symm,
      .inl ⟨Int.fmod_nonneg_of_pos m hpos, Int.fmod_lt_of_pos m hpos⟩⟩

namespace Op

variable {op : Op} {x y v : Val}

theorem lift_of_not_integers (hkind : op.kind ≠ .logic) (hzero : op = .div → y ≠ .int 0)
    (h : ∀ m n, x = .int m → y ≠ .int n) : op.lift x y = .cannotLift := by
  unfold lift
  split <;> simp_all [kind]

theorem lift_of_not_truthValues (hkind : op.kind = .logic)
    (h : ∀ a b, x = .bool a → y ≠ .bool b) : op.lift x y = .cannotLift := by
  unfold lift
  split <;> simp_all [kind]

theorem gives_lift_integers (op : Op) (m n : Int) :
    op.Gives (.int m) (.int n) (op.lift (.int m) (.int n)) := by
  cases op with
  | add => exact .add m n
  | sub => exact .sub m n
  | mul => exact .mul m n
  | div =>
    by_cases hn : n = 0
    · subst hn
      exact .divisionByZero _
    · obtain ⟨r, hm, hr⟩ := exists_remainder m hn
      rw [lift, if_neg hn]
      exact .div hm hr
  | and => exact .notTruthValues rfl (by simp)
  | or => exact .notTruthValues rfl (by simp)
  | lt => exact .lt m n
  | gt => exact .gt m n
  | le => exact .le m n
  | ge => exact .ge m n
  | ne => exact .ne m n
  | eq => exact .eq m n

theorem gives_lift (op : Op) (x y : Val) : op.Gives x y (op.lift x y) := by
  by_cases hintegers : ∃ m n, x = .int m ∧ y = .int n
  · obtain ⟨m, n, rfl, rfl⟩ := hintegers
    exact op.gives_lift_integers m n
  · have hnot : ∀ m n, x = .int m → y ≠ .int n := fun m n hx hy => hintegers ⟨m, n, hx, hy⟩
    by_cases hkind : op.kind = .logic
    · by_cases htruth : ∃ a b, x = .bool a ∧ y = .bool b
      · obtain ⟨a, b, rfl, rfl⟩ := htruth
        cases op with
        | and => exact .and a b
        | or => exact .or a b
        | _ => cases hkind
      · have hnot : ∀ a b, x = .bool a → y ≠ .bool b := fun a b hx hy => htruth ⟨a, b, hx, hy⟩
        rw [lift_of_not_truthValues hkind hnot]
        exact .notTruthValues hkind hnot
    · by_cases hzero : op = .div ∧ y = .int 0
      · obtain ⟨rfl, rfl⟩ := hzero
        exact .divisionByZero x
      · have hzero : op = .div → y ≠ .int 0 := fun hop hy => hzero ⟨hop, hy⟩
        rw [lift_of_not_integers hkind hzero hnot]
        exact .notIntegers hkind hzero hnot

/-- Operators are applied by the rules. -/
theorem gives_iff : op.Gives x y v ↔ op.lift x y = v := by
  constructor
  · intro h
    cases h with
    | @div m n q r h hr =>
      have hn : n ≠ 0 := by omega
      rw [lift, if_neg hn, fdiv_eq_of_remainder h hr]
    | notIntegers hkind hzero h => exact lift_of_not_integers hkind hzero h
    | notTruthValues hkind h => exact lift_of_not_truthValues hkind h
    | _ => rfl
  · rintro rfl
    exact op.gives_lift x y

end Op

end ImpLang
