import ImpLang.Fault
import ImpLang.Tree.Describe

/-!
Computations that leave a trace: each records what it did in order, and ends with a result or a
fault. What was recorded before a fault is kept.
-/

namespace ImpLang

inductive Event where
  | parsedExp (exp : Exp)
  | parsedStmt (stmt : Stmt)
  | executing (stmt : Stmt)
  | evaluating (exp : Exp)

def Event.line : Event → String
  | .parsedExp e => "Parsed: " ++ e.record
  | .parsedStmt s => "Parsed: " ++ s.record
  | .executing s => "Executing: " ++ s.nodeType
  | .evaluating e => "Evaluating: " ++ e.nodeType

def traceText (trace : List Event) : String :=
  String.join (trace.map fun e => e.line ++ "\n")

structure Traced (α : Type) where
  trace : List Event
  outcome : Except Fault α

namespace Traced

variable {α β : Type}

protected def pure (a : α) : Traced α :=
  ⟨[], .ok a⟩

protected def bind (x : Traced α) (f : α → Traced β) : Traced β :=
  match x with
  | ⟨trace, .ok a⟩ =>
    let y := f a
    ⟨trace ++ y.trace, y.outcome⟩
  | ⟨trace, .error e⟩ => ⟨trace, .error e⟩

instance : Monad Traced where
  pure := Traced.pure
  bind := Traced.bind

def fault (e : Fault) : Traced α :=
  ⟨[], .error e⟩

def result (outcome : Except Fault α) : Traced α :=
  ⟨[], outcome⟩

def note (debug : Bool) (event : Event) : Traced Unit :=
  ⟨if debug then [event] else [], .ok ()⟩

def mapList (f : α → Traced β) : List α → Traced (List β)
  | [] => Traced.pure []
  | a :: rest => do
    let b ← f a
    let bs ← mapList f rest
    return b :: bs

/-- Answers one fault with a result. The trace is kept. -/
def recover (x : Traced α) (handler : Fault → Option α) : Traced α :=
  match x.outcome with
  | .ok _ => x
  | .error e =>
    match handler e with
    | some a => ⟨x.trace, .ok a⟩
    | none => x

@[simp]
theorem outcome_pure (a : α) : (pure a : Traced α).outcome = .ok a := rfl

@[simp]
theorem outcome_bind (x : Traced α) (f : α → Traced β) :
    (x >>= f).outcome = x.outcome >>= fun a => (f a).outcome := by
  obtain ⟨trace, outcome⟩ := x
  cases outcome <;> rfl

theorem outcome_bind_eq_ok_iff {x : Traced α} {f : α → Traced β} {b : β} :
    (x >>= f).outcome = .ok b ↔ ∃ a, x.outcome = .ok a ∧ (f a).outcome = .ok b := by
  rw [outcome_bind]
  cases x.outcome with
  | error e => simp [bind, Except.bind]
  | ok a => simp [bind, Except.bind]

theorem outcome_bind_eq_error_iff {x : Traced α} {f : α → Traced β} {e : Fault} :
    (x >>= f).outcome = .error e ↔
      x.outcome = .error e ∨ ∃ a, x.outcome = .ok a ∧ (f a).outcome = .error e := by
  rw [outcome_bind]
  cases x.outcome with
  | error e => simp [bind, Except.bind]
  | ok a => simp [bind, Except.bind]

@[simp]
theorem outcome_note (debug : Bool) (event : Event) : (note debug event).outcome = .ok () := rfl

@[simp]
theorem outcome_fault (e : Fault) : (fault e : Traced α).outcome = .error e := rfl

@[simp]
theorem outcome_result (outcome : Except Fault α) : (result outcome).outcome = outcome := rfl

end Traced

end ImpLang
