import ImpLang.Proofs.Lookup
import Mathlib.Data.List.Induction
import Mathlib.Data.Set.Basic
import Mathlib.Order.Bounds.Defs

namespace ImpLang.Bindings

variable {α : Type}

/-- Names that are new go behind the others, each where it occurs first. -/
theorem keys_insertAll (base new : Bindings α) :
    (base.insertAll new).keys =
      base.keys ++ (new.keys.filter fun x => x ∉ base.keys).eraseDups := by
  induction new generalizing base with
  | nil => simp
  | cons b new ih =>
    obtain ⟨x, v⟩ := b
    rw [insertAll_cons, ih, keys_insert, keys_cons]
    by_cases hx : x ∈ base.keys
    · rw [if_pos hx, List.filter_cons_of_neg (by simpa using hx)]
    · -- from now on the name is one of the old ones, so later occurrences of it are left out
      have hlater : ((keys new).filter fun y => y ∉ base.keys ++ [x]) =
          ((keys new).filter fun y => y ∉ base.keys).filter fun y => !y == x := by
        rw [List.filter_filter]
        apply List.filter_congr
        intro y _
        simp [beq_eq_decide, Bool.and_comm]
      rw [if_neg hx, List.filter_cons_of_pos (by simpa using hx), List.eraseDups_cons]
      calc base.keys ++ [x] ++ ((keys new).filter fun y => y ∉ base.keys ++ [x]).eraseDups
          = base.keys ++ [x] ++
              (((keys new).filter fun y => y ∉ base.keys).filter fun y => !y == x).eraseDups := by
            rw [hlater]
        _ = base.keys ++ (x ::
              (((keys new).filter fun y => y ∉ base.keys).filter fun y => !y == x).eraseDups) := by
            rw [List.append_assoc, List.singleton_append]

/-- What a name is bound to last stands at the last place of the name. -/
theorem exists_place_of_last? {bs : Bindings α} {x : String} {v : α} (h : bs.last? x = some v) :
    ∃ i : Nat, bs[i]? = some (x, v) ∧ ∀ (j : Nat) w, bs[j]? = some (x, w) → j ≤ i := by
  induction bs using List.reverseRecOn with
  | nil => cases h
  | append_singleton bs b ih =>
    obtain ⟨y, u⟩ := b
    rw [last?_concat] at h
    split_ifs at h with hyx
    · cases h
      refine ⟨bs.length, by simp [hyx], fun j w hj => ?_⟩
      have hlt := (List.getElem?_eq_some_iff.mp hj).1
      rw [List.length_append, List.length_singleton] at hlt
      omega
    · obtain ⟨i, hi, hlast⟩ := ih h
      have hlt := (List.getElem?_eq_some_iff.mp hi).1
      refine ⟨i, by rw [List.getElem?_append_left hlt, hi], fun j w hj => ?_⟩
      rcases Nat.lt_or_ge j bs.length with hj' | hj'
      · rw [List.getElem?_append_left hj'] at hj
        exact hlast j w hj
      · -- the pair at the end is one of another name
        rw [List.getElem?_append_right hj', List.getElem?_singleton] at hj
        split_ifs at hj
        cases hj
        exact absurd rfl hyx

theorem keys_zip (params : List String) (args : List α) :
    keys (params.zip args) = params.take (min params.length args.length) := by
  rw [List.zip_eq_zip_take_min]
  apply List.map_fst_zip
  simp

/-- The places of a name among the parameters that get an argument. -/
def places (params : List String) (args : List α) (x : String) : Set Nat :=
  {i | i < min params.length args.length ∧ params[i]? = some x}

theorem mem_places_iff {params : List String} {args : List α} {x : String} {i : Nat} :
    i ∈ places params args x ↔ ∃ v, (params.zip args)[i]? = some (x, v) := by
  constructor
  · rintro ⟨hi, hx⟩
    have hargs : i < args.length := by omega
    exact ⟨args[i], List.getElem?_zip_eq_some.mpr ⟨hx, List.getElem?_eq_getElem hargs⟩⟩
  · rintro ⟨v, hv⟩
    obtain ⟨hx, hv⟩ := List.getElem?_zip_eq_some.mp hv
    have hparams := (List.getElem?_eq_some_iff.mp hx).1
    have hargs := (List.getElem?_eq_some_iff.mp hv).1
    exact ⟨by omega, hx⟩

/-- A call sees its parameters on top of the variables that were there. A name stands for the
argument at the last of its places among the parameters that get one, and for what it stood for
before if it has no such place; the names that were there keep their order, and behind them come the
parameters that are new, each once and in the order in which they occur first. -/
theorem call_variables (base : Bindings α) (params : List String) (args : List α) :
    (∀ x, (∃ i v, IsGreatest (places params args x) i ∧ args[i]? = some v ∧
        (base.insertAll (ofArguments params args)).get? x = some v) ∨
      places params args x = ∅ ∧
        (base.insertAll (ofArguments params args)).get? x = base.get? x) ∧
    (base.insertAll (ofArguments params args)).keys = base.keys ++
      ((params.take (min params.length args.length)).filter fun x => x ∉ base.keys).eraseDups := by
  rw [insertAll_ofArguments]
  constructor
  · intro x
    rw [get?_insertAll_last]
    cases hlast : last? (params.zip args) x with
    | some v =>
      obtain ⟨i, hi, hgreatest⟩ := exists_place_of_last? hlast
      refine .inl ⟨i, v, ⟨mem_places_iff.mpr ⟨v, hi⟩, ?_⟩, (List.getElem?_zip_eq_some.mp hi).2, rfl⟩
      intro j hj
      obtain ⟨w, hw⟩ := mem_places_iff.mp hj
      exact hgreatest j w hw
    | none =>
      refine .inr ⟨Set.eq_empty_iff_forall_notMem.mpr ?_, rfl⟩
      intro i hi
      obtain ⟨v, hv⟩ := mem_places_iff.mp hi
      have hmem : (x, v) ∈ (params.zip args).reverse :=
        List.mem_reverse.mpr (List.mem_of_getElem? hv)
      exact get?_eq_none_iff.mp hlast (List.mem_map_of_mem hmem)
  · rw [keys_insertAll, keys_zip]

/-- A parameter is repeated, another one is bound already, and the last two get no argument. -/
example : insertAll [("x", 1), ("y", 2)] (ofArguments ["z", "y", "z", "x", "w"] [3, 4, 5]) =
    [("x", 1), ("y", 4), ("z", 5)] := by decide

end ImpLang.Bindings
