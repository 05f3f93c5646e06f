import ImpLang.Bindings
import Mathlib.Tactic.Common

namespace ImpLang.Bindings

variable {α : Type}

theorem insert_insert_self (bs : Bindings α) (x : String) (v w : α) :
    (bs.insert x v).insert x w = bs.insert x w := by
  induction bs with
  | nil => simp [insert]
  | cons b bs ih =>
    obtain ⟨y, u⟩ := b
    by_cases hyx : y = x <;> simp [insert, hyx, ih]

/-- A bound name keeps its place, so it can be bound anew before or after another name. -/
theorem insert_comm {bs : Bindings α} {x y : String} (hx : x ∈ bs.keys) (hxy : x ≠ y) (v w : α) :
    (bs.insert y v).insert x w = (bs.insert x w).insert y v := by
  induction bs with
  | nil => cases hx
  | cons b bs ih =>
    obtain ⟨z, u⟩ := b
    by_cases hzx : z = x
    · subst hzx
      simp [insert, hxy]
    · have hx : x ∈ keys bs := by
        rw [keys_cons, List.mem_cons] at hx
        exact hx.resolve_left (Ne.symm hzx)
      by_cases hzy : z = y
      · subst hzy
        simp [insert, hzx]
      · simp [insert, hzx, hzy, ih hx]

theorem mem_keys_insert_self (bs : Bindings α) (x : String) (v : α) : x ∈ (bs.insert x v).keys := by
  rw [keys_insert]
  split_ifs with hx
  · exact hx
  · exact List.mem_append_right _ (List.mem_singleton.mpr rfl)

theorem mem_keys_insert {bs : Bindings α} {x : String} (hx : x ∈ bs.keys) (y : String) (v : α) :
    x ∈ (bs.insert y v).keys := by
  rw [keys_insert]
  split_ifs
  · exact hx
  · exact List.mem_append_left _ hx

theorem nodup_keys_insert {bs : Bindings α} (h : bs.keys.Nodup) (x : String) (v : α) :
    (bs.insert x v).keys.Nodup := by
  rw [keys_insert]
  split_ifs with hx
  · exact h
  · refine List.nodup_append.mpr ⟨h, by simp, ?_⟩
    rintro y hy z hz rfl
    exact hx (List.mem_singleton.mp hz ▸ hy)

theorem insertAll_insert_of_mem {base new : Bindings α} {x : String} (hx : x ∈ base.keys)
    (hnew : x ∉ new.keys) (v : α) :
    (base.insertAll new).insert x v = (base.insert x v).insertAll new := by
  induction new generalizing base with
  | nil => rfl
  | cons b new ih =>
    obtain ⟨y, w⟩ := b
    rw [keys_cons, List.mem_cons, not_or] at hnew
    rw [insertAll_cons, insertAll_cons, ih (mem_keys_insert hx y w) hnew.2,
      insert_comm hx hnew.1]

theorem insertAll_insert {new : Bindings α} (h : new.keys.Nodup) (base : Bindings α) (x : String)
    (v : α) : base.insertAll (new.insert x v) = (base.insertAll new).insert x v := by
  induction new generalizing base with
  | nil => rfl
  | cons b new ih =>
    obtain ⟨y, w⟩ := b
    rw [keys_cons, List.nodup_cons] at h
    by_cases hyx : y = x
    · subst hyx
      -- what the name stood for before makes no difference
      rw [insert, if_pos rfl, insertAll_cons, insertAll_cons,
        insertAll_insert_of_mem (mem_keys_insert_self base y w) h.1, insert_insert_self]
    · rw [insert, if_neg hyx, insertAll_cons, insertAll_cons, ih h.2]

theorem insertAll_insertAll {new : Bindings α} (h : new.keys.Nodup) (base newer : Bindings α) :
    base.insertAll (new.insertAll newer) = (base.insertAll new).insertAll newer := by
  induction newer generalizing new with
  | nil => rfl
  | cons b newer ih =>
    rw [insertAll_cons, insertAll_cons, ih (nodup_keys_insert h b.1 b.2), insertAll_insert h]

theorem mem_of_get?_eq_some {bs : Bindings α} {x : String} {v : α} (h : bs.get? x = some v) :
    (x, v) ∈ bs := by
  induction bs with
  | nil => cases h
  | cons b rest ih =>
    obtain ⟨y, w⟩ := b
    unfold get? at h
    split_ifs at h with hyx
    · cases h
      rw [hyx]
      exact List.mem_cons_self
    · exact List.mem_cons_of_mem _ (ih h)

/-- Bindings that are laid over others leave the names alone that they do not bind. -/
theorem get?_insertAll_of_not_mem {new : Bindings α} {x : String} (hx : x ∉ new.keys)
    (base : Bindings α) : (base.insertAll new).get? x = base.get? x := by
  induction new generalizing base with
  | nil => rfl
  | cons b new ih =>
    obtain ⟨y, v⟩ := b
    rw [keys_cons, List.mem_cons, not_or] at hx
    rw [insertAll_cons, ih hx.2, get?_insert, if_neg (Ne.symm hx.1)]

/-- Arguments can be bound to their parameters right on top of the bindings they are laid over. -/
theorem insertAll_ofArguments (base : Bindings α) (params : List String) (args : List α) :
    base.insertAll (ofArguments params args) = base.insertAll (params.zip args) := by
  have hnodup : (keys ([] : Bindings α)).Nodup := List.nodup_nil
  exact insertAll_insertAll hnodup base (params.zip args)

end ImpLang.Bindings
