import ImpLang.Parse.Parser
import Mathlib.Tactic.Common

namespace ImpLang.Parser

variable {α β : Type} {p q : Parser α} {c : Cursor}

def Soft (p : Parser α) (c : Cursor) : Prop :=
  ∃ offset message, p c = .error (.soft offset message)

/-- How a parser can answer: with a result, softly, or with a failure that ends everything. -/
theorem outcome_cases (p : Parser α) (c : Cursor) :
    (∃ r, p c = .ok r) ∨ p.Soft c ∨
      ∃ e, p c = .error e ∧ ∀ offset message, e ≠ .soft offset message := by
  cases h : p c with
  | ok r => exact .inl ⟨r, rfl⟩
  | error e =>
    cases e with
    | soft offset message => exact .inr (.inl ⟨offset, message, h⟩)
    | fatal offset message => exact .inr (.inr ⟨_, rfl, by simp⟩)
    | tooDeep => exact .inr (.inr ⟨_, rfl, by simp⟩)
    | literalTooLong digits => exact .inr (.inr ⟨_, rfl, by simp⟩)

theorem bind_of_ok {f : α → Parser β} {a : α} {c' : Cursor} (h : p c = .ok (a, c')) :
    (p >>= f) c = f a c' := by
  change Parser.bind p f c = f a c'
  simp only [Parser.bind, h]

theorem bind_of_error {f : α → Parser β} {e : Failure} (h : p c = .error e) :
    (p >>= f) c = .error e := by
  change Parser.bind p f c = .error e
  simp only [Parser.bind, h]

theorem Soft.bind {f : α → Parser β} (h : p.Soft c) : (p >>= f).Soft c := by
  obtain ⟨offset, message, hp⟩ := h
  exact ⟨offset, message, bind_of_error hp⟩

theorem Soft.bind_right {f : α → Parser β} {a : α} {c' : Cursor} (hp : p c = .ok (a, c'))
    (h : (f a).Soft c') : (p >>= f).Soft c := by
  obtain ⟨offset, message, hf⟩ := h
  exact ⟨offset, message, (bind_of_ok hp).trans hf⟩

theorem commit_of_ok {r : α × Cursor} (h : p c = .ok r) : commit p c = .ok r := by
  simp only [commit, h]

theorem commit_eq_ok_iff {r : α × Cursor} : commit p c = .ok r ↔ p c = .ok r := by
  constructor
  · intro h
    unfold commit at h
    split at h
    · cases h
    · exact h
  · exact commit_of_ok

theorem named_of_ok {message : String} {r : α × Cursor} (h : p c = .ok r) :
    named message p c = .ok r := by
  simp only [named, h]

theorem named_eq_ok_iff {message : String} {r : α × Cursor} :
    named message p c = .ok r ↔ p c = .ok r := by
  constructor
  · intro h
    unfold named at h
    split at h
    · cases h
    · exact h
  · exact named_of_ok

theorem Soft.named {message : String} (h : p.Soft c) : (named message p).Soft c := by
  obtain ⟨offset, message', hp⟩ := h
  exact ⟨offset, message, by simp only [Parser.named, hp]⟩

/-- After a soft failure of the first parser, the second decides. -/
theorem either_of_soft (h : p.Soft c) {r : Except Failure (α × Cursor)} (hq : q c = r)
    (hr : ∀ offset message, r ≠ .error (.soft offset message)) : either p q c = r := by
  obtain ⟨offset, message, hp⟩ := h
  simp only [either, hp, hq]

theorem either_of_ok {r : α × Cursor} (h : p c = .ok r) : either p q c = .ok r := by
  simp only [either, h]

theorem either_of_tooDeep (h : p c = .error .tooDeep) : either p q c = .error .tooDeep := by
  simp only [either, h]

theorem Soft.either (hp : p.Soft c) (hq : q.Soft c) : (either p q).Soft c := by
  obtain ⟨offset, message, hp⟩ := hp
  obtain ⟨offset', message', hq⟩ := hq
  unfold Soft Parser.either
  simp only [hp, hq]
  split_ifs
  · exact ⟨_, _, rfl⟩
  · exact ⟨_, _, rfl⟩

theorem either_eq_ok {r : α × Cursor} (h : either p q c = .ok r) :
    p c = .ok r ∨ p.Soft c ∧ q c = .ok r := by
  rcases outcome_cases p c with ⟨r', hp⟩ | hp | ⟨e, hp, he⟩
  · rw [either_of_ok hp] at h
    exact .inl (hp.trans h)
  · right
    refine ⟨hp, ?_⟩
    -- the second decides: had it not succeeded, the choice would have its failure
    by_contra hq
    rcases outcome_cases q c with ⟨r', hq'⟩ | hq' | ⟨e, hq', he⟩
    · rw [either_of_soft hp hq' (by simp)] at h
      exact hq (hq'.trans h)
    · obtain ⟨offset, message, hs⟩ := hp.either hq'
      rw [h] at hs
      cases hs
    · rw [either_of_soft hp hq' (by simpa using he)] at h
      cases h
  · cases e with
    | soft offset message => exact absurd rfl (he _ _)
    | fatal offset message => simp [either, hp] at h
    | tooDeep => simp [either, hp] at h
    | literalTooLong digits => simp [either, hp] at h

/-- Of several parsers in order, one succeeded. -/
theorem firstOf_eq_ok {rest : List (Parser α)} {r : α × Cursor} (h : firstOf p rest c = .ok r) :
    ∃ q ∈ p :: rest, q c = .ok r := by
  induction rest generalizing p with
  | nil => exact ⟨p, by simp, h⟩
  | cons q rest ih =>
    rcases either_eq_ok h with hp | ⟨-, hq⟩
    · exact ⟨p, by simp, hp⟩
    · obtain ⟨q', hmem, hq'⟩ := ih hq
      exact ⟨q', List.mem_cons_of_mem _ hmem, hq'⟩

/-- All alternatives fail softly, and so does the choice. -/
theorem Soft.firstOf {rest : List (Parser α)} (h : ∀ q ∈ p :: rest, q.Soft c) :
    (firstOf p rest).Soft c := by
  induction rest generalizing p with
  | nil => exact h p (by simp)
  | cons q rest ih =>
    exact (h p (by simp)).either (ih fun q' hq' => h q' (List.mem_cons_of_mem _ hq'))

theorem orDefault_of_ok {default : α} {r : α × Cursor} (h : p c = .ok r) :
    orDefault default p c = .ok r := by
  simp only [orDefault, h]

theorem orDefault_of_soft {default : α} (h : p.Soft c) :
    orDefault default p c = .ok (default, c) := by
  obtain ⟨offset, message, hp⟩ := h
  simp only [orDefault, hp]

theorem orDefault_eq_ok {default : α} {r : α × Cursor} (h : orDefault default p c = .ok r) :
    p c = .ok r ∨ r = (default, c) := by
  unfold orDefault at h
  split at h
  · exact .inr (Except.ok.inj h).symm
  · exact .inl h

theorem manyUpTo_cons_of_soft {γ : Type} {g : γ} {tally : List γ} (h : p.Soft c) :
    manyUpTo (g :: tally) p c = .ok ([], c) := by
  obtain ⟨offset, message, hp⟩ := h
  simp only [manyUpTo, hp]

/-- A repetition stopped at once, or read one item and went on. -/
theorem manyUpTo_cons_eq_ok {γ : Type} {g : γ} {tally : List γ} {as : List α} {c' : Cursor}
    (h : manyUpTo (g :: tally) p c = .ok (as, c')) :
    as = [] ∧ c' = c ∨ ∃ a as' d, as = a :: as' ∧ p c = .ok (a, d) ∧
      manyUpTo tally p d = .ok (as', c') := by
  unfold manyUpTo at h
  split at h
  · rename_i a d hp
    split at h
    · rename_i as' d' hm
      simp only [Except.ok.injEq, Prod.mk.injEq] at h
      obtain ⟨rfl, rfl⟩ := h
      exact .inr ⟨a, as', d, rfl, hp, hm⟩
    · cases h
  · simp only [Except.ok.injEq, Prod.mk.injEq] at h
    exact .inl ⟨h.1.symm, h.2.symm⟩
  · cases h

end ImpLang.Parser
