import ImpLang.Fault

/-!
Texts while they are written. The writing of a text goes down to the parts of what is written, in
the order in which they stand in the text, and ends early where a part cannot be written. Nothing
behind that part is reached, so how far down a writing went depends on the order as well.
-/

namespace ImpLang

/-- What came of a writing, and the furthest level it reached before it ended. -/
structure Writing (α : Type) where
  reach : Nat
  outcome : Except Fault α

namespace Writing

variable {α β : Type}

protected def pure (a : α) : Writing α :=
  ⟨0, .ok a⟩

protected def bind (x : Writing α) (f : α → Writing β) : Writing β :=
  match x with
  | ⟨reach, .ok a⟩ =>
    let y := f a
    ⟨max reach y.reach, y.outcome⟩
  | ⟨reach, .error e⟩ => ⟨reach, .error e⟩

instance : Monad Writing where
  pure := Writing.pure
  bind := Writing.bind

/-- A part that can or cannot be written as it stands. -/
def result (outcome : Except Fault α) : Writing α :=
  ⟨0, outcome⟩

/-- The writing of a part that stands some levels further down. -/
def below (levels : Nat) (x : Writing α) : Writing α :=
  ⟨levels + x.reach, x.outcome⟩

/-- What comes of a writing that has only so many levels, its own included. -/
def within (depth : Nat) (x : Writing α) : Except Fault α :=
  if x.reach < depth then x.outcome else .error .tooDeep

@[simp]
theorem outcome_pure (a : α) : (pure a : Writing α).outcome = pure a := rfl

@[simp]
theorem outcome_bind (x : Writing α) (f : α → Writing β) :
    (x >>= f).outcome = x.outcome >>= fun a => (f a).outcome := by
  obtain ⟨reach, outcome⟩ := x
  cases outcome <;> rfl

@[simp]
theorem outcome_result (outcome : Except Fault α) : (result outcome).outcome = outcome := rfl

@[simp]
theorem outcome_below (levels : Nat) (x : Writing α) : (below levels x).outcome = x.outcome := rfl

theorem within_eq_ok_iff {depth : Nat} {x : Writing α} {a : α} :
    x.within depth = .ok a ↔ x.reach < depth ∧ x.outcome = .ok a := by
  unfold within
  split
  · rename_i h
    exact (and_iff_right h).symm
  · rename_i h
    exact iff_of_false (by simp) fun hx => h hx.1

/-- Either the levels do not suffice or they make no difference. -/
theorem within_eq_or (depth : Nat) (x : Writing α) :
    x.within depth = .error .tooDeep ∨ x.within depth = x.outcome := by
  unfold within
  split
  · exact .inr rfl
  · exact .inl rfl

theorem within_pure {depth : Nat} (h : 0 < depth) (a : α) :
    (pure a : Writing α).within depth = .ok a :=
  if_pos h

theorem within_below (depth levels : Nat) (x : Writing α) :
    (below levels x).within depth = x.within (depth - levels) := by
  have hiff : levels + x.reach < depth ↔ x.reach < depth - levels := by omega
  simp only [within, below, hiff]

/-- The limit is kept part by part: the first part that is too far down or cannot be written
decides, whatever stands behind it. -/
theorem within_bind (depth : Nat) (x : Writing α) (f : α → Writing β) :
    (x >>= f).within depth = x.within depth >>= fun a => (f a).within depth := by
  obtain ⟨reach, outcome⟩ := x
  cases outcome with
  | error e =>
    change (if reach < depth then _ else _) = (if reach < depth then _ else _) >>= _
    split <;> rfl
  | ok a =>
    change (if max reach (f a).reach < depth then (f a).outcome else _) =
      (if reach < depth then _ else _) >>= _
    by_cases hx : reach < depth
    · have hiff : max reach (f a).reach < depth ↔ (f a).reach < depth := by omega
      simp only [hiff, if_pos hx]
      rfl
    · have hdeep : ¬ max reach (f a).reach < depth := by omega
      rw [if_neg hx, if_neg hdeep]
      rfl

end Writing

end ImpLang
