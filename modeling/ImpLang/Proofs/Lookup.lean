import ImpLang.Proofs.Overlay
import Mathlib.Data.List.Forall2
import Mathlib.Data.List.Perm.Subperm

namespace ImpLang.Bindings

variable {α β : Type} {R : α → α → Prop} {bs bs' : Bindings α} {x : String}

theorem get?_eq_none_iff : bs.get? x = none ↔ x ∉ bs.keys := by
  induction bs with
  | nil => simp [get?]
  | cons b bs ih =>
    obtain ⟨y, v⟩ := b
    by_cases hyx : y = x
    · simp [get?, hyx]
    · simp [get?, hyx, ih, Ne.symm hyx]

theorem get?_of_mem (hnodup : bs.keys.Nodup) {v : α} (h : (x, v) ∈ bs) : bs.get? x = some v := by
  induction bs with
  | nil => cases h
  | cons b bs ih =>
    obtain ⟨y, w⟩ := b
    rw [keys_cons, List.nodup_cons] at hnodup
    rcases List.mem_cons.mp h with heq | hmem
    · cases heq
      simp [get?]
    · have hx : x ∈ keys bs := List.mem_map_of_mem hmem
      have hyx : y ≠ x := fun heq => hnodup.1 (heq ▸ hx)
      rw [get?, if_neg hyx, ih hnodup.2 hmem]

theorem get?_of_perm (hnodup : bs.keys.Nodup) (h : bs.Perm bs') (x : String) :
    bs.get? x = bs'.get? x := by
  have hnodup' : bs'.keys.Nodup := (h.map Prod.fst).nodup_iff.mp hnodup
  cases hget : bs.get? x with
  | some v => exact (get?_of_mem hnodup' (h.subset (mem_of_get?_eq_some hget))).symm
  | none =>
    rw [get?_eq_none_iff, keys, (h.map Prod.fst).mem_iff] at hget
    exact (get?_eq_none_iff.mpr hget).symm

theorem get?_append (bs bs' : Bindings α) (x : String) :
    get? (bs ++ bs') x = (bs.get? x).or (bs'.get? x) := by
  induction bs with
  | nil => rfl
  | cons b bs ih =>
    obtain ⟨y, v⟩ := b
    rw [List.cons_append, get?, get?, ih]
    split_ifs
    · rfl
    · rfl

theorem get?_map (f : α → β) (bs : Bindings α) (x : String) :
    get? (bs.map fun b => (b.1, f b.2)) x = (bs.get? x).map f := by
  induction bs with
  | nil => rfl
  | cons b bs ih =>
    rw [List.map_cons, get?, get?, ih]
    split_ifs
    · rfl
    · rfl

def last? (bs : Bindings α) (x : String) : Option α :=
  get? bs.reverse x

theorem last?_of_nodup (hnodup : bs.keys.Nodup) (x : String) : bs.last? x = bs.get? x :=
  (get?_of_perm hnodup bs.reverse_perm.symm x).symm

theorem last?_map (f : α → β) (bs : Bindings α) (x : String) :
    last? (bs.map fun b => (b.1, f b.2)) x = (bs.last? x).map f := by
  rw [last?, ← List.map_reverse, get?_map, last?]

theorem last?_concat (bs : Bindings α) (x y : String) (v : α) :
    last? (bs ++ [(y, v)]) x = if y = x then some v else bs.last? x := by
  rw [last?, List.reverse_append]
  rfl

/-- Of the bindings that are laid over others the last one of a name counts. -/
theorem get?_insertAll_last (base new : Bindings α) (x : String) :
    (base.insertAll new).get? x = (new.last? x).or (base.get? x) := by
  induction new generalizing base with
  | nil => rfl
  | cons b new ih =>
    obtain ⟨y, v⟩ := b
    rw [insertAll_cons, ih, get?_insert, last?, last?, List.reverse_cons, get?_append,
      Option.or_assoc, get?]
    split_ifs
    · rfl
    · rfl

theorem get?_ofPairs (pairs : List (String × α)) (x : String) :
    (ofPairs pairs).get? x = last? pairs x := by
  rw [ofPairs, get?_insertAll_last]
  exact Option.or_none

theorem get?_insertAll (hnodup : bs.keys.Nodup) (base : Bindings α) (x : String) :
    (base.insertAll bs).get? x = (bs.get? x).or (base.get? x) := by
  rw [get?_insertAll_last, last?_of_nodup hnodup]

theorem get?_insertAll_of_perm (hnodup : bs.keys.Nodup) (h : bs.Perm bs') (base : Bindings α)
    (x : String) : (base.insertAll bs).get? x = (base.insertAll bs').get? x := by
  have hnodup' : bs'.keys.Nodup := (h.map Prod.fst).nodup_iff.mp hnodup
  rw [get?_insertAll hnodup, get?_insertAll hnodup', get?_of_perm hnodup h]

/-- If every entry of the first list is found in the second, and the second is no longer, both bind
the same names. -/
theorem rel_of_entries (hnodup : bs.keys.Nodup) (hlength : bs.length = bs'.length)
    (h : ∀ b ∈ bs, ∃ w, bs'.get? b.1 = some w ∧ R b.2 w) (x : String) :
    Option.Rel R (bs.get? x) (bs'.get? x) := by
  cases hget : bs.get? x with
  | some v =>
    obtain ⟨w, hw, hvw⟩ := h _ (mem_of_get?_eq_some hget)
    rw [hw]
    exact .some hvw
  | none =>
    -- distinct names that all occur among no more others are all of them
    have hsubset : bs.keys ⊆ bs'.keys := by
      intro y hy
      obtain ⟨b, hb, rfl⟩ := List.mem_map.mp hy
      obtain ⟨w, hw, -⟩ := h b hb
      by_contra hnot
      rw [get?_eq_none_iff.mpr hnot] at hw
      cases hw
    have hperm : bs.keys.Perm bs'.keys := by
      refine (List.subperm_of_subset hnodup hsubset).perm_of_length_le ?_
      simp [keys, hlength]
    have hnot : x ∉ bs'.keys := fun hx => get?_eq_none_iff.mp hget (hperm.mem_iff.mpr hx)
    rw [get?_eq_none_iff.mpr hnot]
    exact .none

theorem length_eq_of_rel (hnodup : bs.keys.Nodup) (hnodup' : bs'.keys.Nodup)
    (h : ∀ x, Option.Rel R (bs.get? x) (bs'.get? x)) : bs.length = bs'.length := by
  have hkeys (y : String) : y ∈ bs.keys ↔ y ∈ bs'.keys := by
    have hrel := h y
    rw [← not_iff_not, ← get?_eq_none_iff, ← get?_eq_none_iff]
    generalize bs.get? y = o at hrel ⊢
    generalize bs'.get? y = o' at hrel ⊢
    cases hrel with
    | some hvw => simp
    | none => simp
  have hperm := (List.perm_ext_iff_of_nodup hnodup hnodup').mpr hkeys
  simpa [keys] using hperm.length_eq

theorem entries_of_rel (hnodup : bs.keys.Nodup)
    (h : ∀ x, Option.Rel R (bs.get? x) (bs'.get? x)) {b : String × α} (hb : b ∈ bs) :
    ∃ w, bs'.get? b.1 = some w ∧ R b.2 w := by
  have hrel := h b.1
  rw [get?_of_mem hnodup hb] at hrel
  generalize bs'.get? b.1 = o at hrel ⊢
  cases hrel with
  | some hvw => exact ⟨_, rfl, hvw⟩

/-- Lists with the same names, none of them twice, are related by their names exactly if they are
related by their places. -/
theorem rel_iff_forall₂ (hnodup : bs.keys.Nodup) (hkeys : bs.keys = bs'.keys) :
    (∀ x, Option.Rel R (bs.get? x) (bs'.get? x)) ↔
      List.Forall₂ R (bs.map Prod.snd) (bs'.map Prod.snd) := by
  induction bs generalizing bs' with
  | nil =>
    cases bs' with
    | nil => simp [get?]
    | cons b' bs' => cases hkeys
  | cons b bs ih =>
    cases bs' with
    | nil => cases hkeys
    | cons b' bs' =>
      obtain ⟨y, v⟩ := b
      obtain ⟨y', w⟩ := b'
      obtain ⟨rfl, hothers⟩ : y = y' ∧ keys bs = keys bs' := List.cons.inj hkeys
      rw [keys_cons, List.nodup_cons] at hnodup
      rw [List.map_cons, List.map_cons, List.forall₂_cons, ← ih hnodup.2 hothers]
      constructor
      · intro h
        constructor
        · have hfirst := h y
          rw [get?, if_pos rfl, get?, if_pos rfl] at hfirst
          cases hfirst with
          | some hvw => exact hvw
        · intro x
          by_cases hyx : y = x
          · -- the name of the first entry stands for nothing in the others
            subst hyx
            have hnot : y ∉ keys bs' := hothers ▸ hnodup.1
            rw [get?_eq_none_iff.mpr hnodup.1, get?_eq_none_iff.mpr hnot]
            exact .none
          · have hother := h x
            rwa [get?, if_neg hyx, get?, if_neg hyx] at hother
      · rintro ⟨hvw, h⟩ x
        rw [get?, get?]
        split_ifs
        · exact .some hvw
        · exact h x

/-- The same for the last binding of each name, where the names depend on the length only. -/
theorem rel_last_iff_forall₂ (hnodup : bs.keys.Nodup) (hnodup' : bs'.keys.Nodup)
    (hkeys : bs.length = bs'.length → bs.keys = bs'.keys) :
    (∀ x, Option.Rel R (bs.last? x) (bs'.last? x)) ↔
      List.Forall₂ R (bs.map Prod.snd) (bs'.map Prod.snd) := by
  simp only [last?_of_nodup hnodup, last?_of_nodup hnodup']
  constructor
  · intro h
    exact (rel_iff_forall₂ hnodup (hkeys (length_eq_of_rel hnodup hnodup' h))).mp h
  · intro h
    have hlength := h.length_eq
    rw [List.length_map, List.length_map] at hlength
    exact (rel_iff_forall₂ hnodup (hkeys hlength)).mpr h

theorem rel_last_of_keys {names : List String} (hnodup : names.Nodup) (hnames : bs.keys = names)
    (hnames' : bs'.keys = names) : (∀ x, Option.Rel R (bs.last? x) (bs'.last? x)) ↔
      List.Forall₂ R (bs.map Prod.snd) (bs'.map Prod.snd) :=
  rel_last_iff_forall₂ (hnames ▸ hnodup) (hnames' ▸ hnodup) fun _ => hnames.trans hnames'.symm

theorem length_insert (bs : Bindings α) (x : String) (v : α) :
    (bs.insert x v).length = if x ∈ bs.keys then bs.length else bs.length + 1 := by
  have hlength := congrArg List.length (keys_insert bs x v)
  rw [keys, List.length_map] at hlength
  rw [hlength]
  split_ifs <;> simp [keys]

theorem length_insertAll_le (base new : Bindings α) :
    (base.insertAll new).length ≤ base.length + new.length := by
  induction new generalizing base with
  | nil => exact Nat.le_refl _
  | cons b new ih =>
    have hinsert := length_insert base b.1 b.2
    have hrest := ih (base.insert b.1 b.2)
    rw [insertAll_cons, List.length_cons]
    split_ifs at hinsert
    · omega
    · omega

/-- Nothing is lost exactly if no name is bound twice. -/
theorem length_insertAll_eq_iff {base : Bindings α} (hbase : base.keys.Nodup) (new : Bindings α) :
    (base.insertAll new).length = base.length + new.length ↔ (base.keys ++ new.keys).Nodup := by
  induction new generalizing base with
  | nil => simp [hbase]
  | cons b new ih =>
    obtain ⟨x, v⟩ := b
    have hinsert := length_insert base x v
    rw [insertAll_cons, List.length_cons]
    by_cases hx : x ∈ base.keys
    · have hle := length_insertAll_le (base.insert x v) new
      rw [if_pos hx] at hinsert
      have htwice : ¬ (base.keys ++ keys ((x, v) :: new)).Nodup := by
        intro hnodup
        exact (List.nodup_append.mp hnodup).2.2 x hx x List.mem_cons_self rfl
      exact iff_of_false (by omega) htwice
    · rw [if_neg hx] at hinsert
      have hnew := ih (nodup_keys_insert hbase x v)
      rw [hinsert, keys_insert, if_neg hx, List.append_assoc, List.singleton_append] at hnew
      rw [keys_cons, ← hnew]
      omega

theorem length_ofPairs_eq_iff (pairs : List (String × α)) :
    (ofPairs pairs).length = pairs.length ↔ (keys pairs).Nodup := by
  have hnil : (keys ([] : Bindings α)).Nodup := List.nodup_nil
  simpa [ofPairs] using length_insertAll_eq_iff hnil pairs

end ImpLang.Bindings
