namespace ImpLang

/-- Names with what they are bound to, oldest name first. -/
abbrev Bindings (α : Type) := List (String × α)

namespace Bindings

variable {α : Type}

def keys (bs : Bindings α) : List String :=
  bs.map Prod.fst

def get? : Bindings α → String → Option α
  | [], _ => none
  | (y, v) :: rest, x => if y = x then some v else get? rest x

/-- Binds a name: in its old place if it has one, and last otherwise. -/
def insert : Bindings α → String → α → Bindings α
  | [], x, v => [(x, v)]
  | (y, w) :: rest, x, v => if y = x then (y, v) :: rest else (y, w) :: insert rest x v

def insertAll (base new : Bindings α) : Bindings α :=
  new.foldl (fun acc (x, v) => acc.insert x v) base

def ofPairs (pairs : List (String × α)) : Bindings α :=
  insertAll [] pairs

/-- Binds parameters to arguments by position, as far as both lists reach. -/
def ofArguments (params : List String) (args : List α) : Bindings α :=
  ofPairs (params.zip args)

@[simp]
theorem keys_nil : keys ([] : Bindings α) = [] := rfl

@[simp]
theorem keys_cons (x : String) (v : α) (bs : Bindings α) : keys ((x, v) :: bs) = x :: keys bs := rfl

@[simp]
theorem insertAll_nil (base : Bindings α) : insertAll base [] = base := rfl

@[simp]
theorem insertAll_cons (base : Bindings α) (x : String) (v : α) (new : Bindings α) :
    insertAll base ((x, v) :: new) = insertAll (base.insert x v) new := rfl

theorem get?_insert (bs : Bindings α) (x y : String) (v : α) :
    (bs.insert x v).get? y = if x = y then some v else bs.get? y := by
  induction bs with
  | nil => rfl
  | cons b rest ih =>
    obtain ⟨z, w⟩ := b
    by_cases hzx : z = x
    · subst hzx
      by_cases hzy : z = y <;> simp [insert, get?, hzy]
    · by_cases hzy : z = y
      · subst hzy
        simp [insert, get?, hzx, Ne.symm hzx]
      · simp [insert, get?, hzx, hzy, ih]

/-- Binding a name adds it at the end of the names, unless it is there already. -/
theorem keys_insert (bs : Bindings α) (x : String) (v : α) :
    (bs.insert x v).keys = if x ∈ bs.keys then bs.keys else bs.keys ++ [x] := by
  induction bs with
  | nil => rfl
  | cons b rest ih =>
    obtain ⟨z, w⟩ := b
    by_cases hzx : z = x
    · subst hzx
      simp [insert]
    · by_cases hx : x ∈ keys rest
      · simp [insert, hzx, ih, hx]
      · simp [insert, hzx, ih, hx, Ne.symm hzx]

end Bindings

end ImpLang
