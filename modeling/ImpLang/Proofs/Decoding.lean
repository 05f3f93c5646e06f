import ImpLang.Proofs.Lexeme
import Mathlib.Data.List.Forall2

namespace ImpLang

def EndsAt (ends : List Char) (rest : List Char) : Prop :=
  ∀ ch, rest.head? = some ch → ch ∈ ends

theorem endsAt_nil (ends : List Char) : EndsAt ends [] := by
  intro ch h
  cases h

theorem endsAt_cons {ends : List Char} {ch : Char} (h : ch ∈ ends) (rest : List Char) :
    EndsAt ends (ch :: rest) := by
  intro ch' h'
  cases h'
  exact h

/-- Two runs that have no such character in them are the same if the same text goes on with it. -/
theorem EndsAt.run_eq {ends t u r s : List Char} (hr : EndsAt ends r) (hs : EndsAt ends s)
    (ht : ∀ ch ∈ t, ch ∉ ends) (hu : ∀ ch ∈ u, ch ∉ ends) (h : t ++ r = u ++ s) :
    t = u ∧ r = s := by
  have htake {t r : List Char} (hr : EndsAt ends r) (ht : ∀ ch ∈ t, ch ∉ ends) :
      (t ++ r).takeWhile (fun ch => decide (ch ∉ ends)) = t := by
    refine takeWhile_append_eq (fun ch hch => decide_eq_true (ht ch hch)) ?_
    cases r with
    | nil => rfl
    | cons ch r => simpa using hr ch rfl
  have htu : t = u := by rw [← htake hr ht, h, htake hs hu]
  rw [htu] at h
  exact ⟨htu, List.append_cancel_left h⟩

/-- Both texts end where the character stands for the first time. -/
theorem eq_of_append_cons {c : Char} {t u r s : List Char} (ht : c ∉ t) (hu : c ∉ u)
    (h : t ++ c :: r = u ++ c :: s) : t = u ∧ r = s := by
  have hends (rest : List Char) : EndsAt [c] (c :: rest) := endsAt_cons List.mem_cons_self rest
  have hplain {t : List Char} (ht : c ∉ t) : ∀ ch ∈ t, ch ∉ [c] := by
    intro ch hch hmem
    rw [List.mem_singleton.mp hmem] at hch
    exact ht hch
  obtain ⟨htu, hrs⟩ := (hends r).run_eq (hends s) (hplain ht) (hplain hu) h
  exact ⟨htu, (List.cons.inj hrs).2⟩

variable {α : Type}

/-- A thing is told from all others by its text, wherever this ends at one of these characters. -/
def Decodes (text : α → String → Prop) (ends : List Char) (a : α) : Prop :=
  ∀ ⦃b t u r s⦄, text a t → text b u → EndsAt ends r → EndsAt ends s →
    t.toList ++ r = u.toList ++ s → a = b ∧ r = s

theorem toList_intercalate_cons (t : String) (ts : List String) :
    (", ".intercalate (t :: ts)).toList =
      t.toList ++ ts.flatMap fun t => ',' :: ' ' :: t.toList := by
  induction ts generalizing t with
  | nil => simp
  | cons u ts ih => simp [String.intercalate_cons_cons, ih]

section Listed

variable {text : α → String → Prop} {close : Char} {as bs : List α} {ts us : List String}
  {r s : List Char}

/-- The further items of a list, each behind a comma, up to the closing character. -/
theorem items_decode (hclose : close ≠ ',') (hdec : ∀ a ∈ as, Decodes text [',', close] a)
    (hts : List.Forall₂ text as ts) (hus : List.Forall₂ text bs us)
    (h : (ts.flatMap fun t => ',' :: ' ' :: t.toList) ++ close :: r =
      (us.flatMap fun t => ',' :: ' ' :: t.toList) ++ close :: s) : as = bs ∧ r = s := by
  have hends {ts : List String} {r : List Char} :
      EndsAt [',', close] ((ts.flatMap fun t => ',' :: ' ' :: t.toList) ++ close :: r) := by
    cases ts with
    | nil => exact endsAt_cons (by simp) r
    | cons t ts => exact endsAt_cons (by simp) _
  induction hts generalizing bs us with
  | nil =>
    cases hus with
    | nil => exact ⟨rfl, (List.cons.inj h).2⟩
    | cons hb hbs => exact absurd (List.cons.inj h).1 hclose
  | cons ha has ih =>
    cases hus with
    | nil => exact absurd (List.cons.inj h).1.symm hclose
    | cons hb hbs =>
      obtain ⟨hdeca, hdec⟩ := List.forall_mem_cons.mp hdec
      simp only [List.flatMap_cons, List.cons_append, List.append_assoc, List.cons.injEq,
        true_and] at h
      -- the item is cut off where the next comma or the closing character stands
      obtain ⟨rfl, hrest⟩ := hdeca ha hb hends hends h
      obtain ⟨rfl, hrs⟩ := ih hdec hbs hrest
      exact ⟨rfl, hrs⟩

/-- A list is told from all others by its text and the closing character behind it, which starts no
item. -/
theorem listed_decode (hclose : close ≠ ',') (hdec : ∀ a ∈ as, Decodes text [',', close] a)
    (hfirst : ∀ a t, text a t → ∃ ch cs, t.toList = ch :: cs ∧ ch ≠ close)
    (hts : List.Forall₂ text as ts) (hus : List.Forall₂ text bs us)
    (h : (", ".intercalate ts).toList ++ close :: r =
      (", ".intercalate us).toList ++ close :: s) : as = bs ∧ r = s := by
  have hdiff {a : α} {t : String} (ha : text a t) (ts : List String) (r s : List Char) :
      close :: r ≠ (", ".intercalate (t :: ts)).toList ++ close :: s := by
    obtain ⟨ch, cs, htext, hch⟩ := hfirst a t ha
    rw [toList_intercalate_cons, htext]
    intro heq
    exact hch (List.cons.inj heq).1.symm
  cases hts with
  | nil =>
    cases hus with
    | nil => exact ⟨rfl, (List.cons.inj h).2⟩
    | cons hb _ => exact absurd h (hdiff hb _ _ _)
  | @cons a t as ts ha has =>
    cases hus with
    | nil => exact absurd h.symm (hdiff ha _ _ _)
    | @cons b u bs us hb hbs =>
      -- with a comma in front, the first item is one like the others
      apply items_decode hclose hdec (.cons ha has) (.cons hb hbs)
      rw [toList_intercalate_cons, toList_intercalate_cons] at h
      simp only [List.flatMap_cons, List.cons_append, h]

end Listed

theorem IsName.not_mem {x : String} (hx : IsName x) {c : Char} (hc : c.isAlpha = false) :
    c ∉ x.toList := by
  intro hmem
  rw [hx.2.1 c hmem] at hc
  exact Bool.noConfusion hc

/-- Names are told apart where no letter follows. -/
theorem decodes_name {ends : List Char} (hends : ∀ ch ∈ ends, ch.isAlpha = false) (x : String) :
    Decodes (fun x t => IsName x ∧ t = x) ends x := by
  rintro y _ _ r s ⟨hx, rfl⟩ ⟨hy, rfl⟩ hr hs h
  have hplain {z : String} (hz : IsName z) : ∀ ch ∈ z.toList, ch ∉ ends :=
    fun ch hch hmem => hz.not_mem (hends ch hmem) hch
  obtain ⟨hxy, hrs⟩ := hr.run_eq hs (hplain hx) (hplain hy) h
  exact ⟨String.toList_injective hxy, hrs⟩

theorem IsName.exists_letter {x : String} (hx : IsName x) :
    ∃ ch cs, x.toList = ch :: cs ∧ ch.isAlpha = true := by
  obtain ⟨ch, cs, hcs⟩ := List.exists_cons_of_ne_nil hx.1
  exact ⟨ch, cs, hcs, hx.2.1 ch (by simp [hcs])⟩

/-- A list of names is told from all others in front of a closing character. -/
theorem names_decode {close : Char} (hclose : close ≠ ',') (halpha : close.isAlpha = false)
    {xs ys : List String} (hxs : ∀ x ∈ xs, IsName x) (hys : ∀ y ∈ ys, IsName y) {r s : List Char}
    (h : (", ".intercalate xs).toList ++ close :: r =
      (", ".intercalate ys).toList ++ close :: s) : xs = ys ∧ r = s := by
  have htexts {xs : List String} (hxs : ∀ x ∈ xs, IsName x) :
      List.Forall₂ (fun x t => IsName x ∧ t = x) xs xs :=
    List.forall₂_same.mpr fun x hx => ⟨hxs x hx, rfl⟩
  have hends : ∀ ch ∈ [',', close], ch.isAlpha = false := by simp [halpha]
  apply listed_decode hclose (fun x _ => decodes_name hends x) _ (htexts hxs) (htexts hys) h
  rintro x _ ⟨hx, rfl⟩
  obtain ⟨ch, cs, hcs, hletter⟩ := hx.exists_letter
  refine ⟨ch, cs, hcs, fun heq => ?_⟩
  rw [heq, halpha] at hletter
  exact Bool.noConfusion hletter

namespace Text

theorem isDigit_of_mem_numeral {n : Nat} {ch : Char} (h : ch ∈ (numeral n).toList) :
    ch.isDigit = true := by
  change ch ∈ (Nat.repr n).toList at h
  rw [Nat.toList_repr] at h
  exact Nat.isDigit_of_mem_toDigits (by decide) (by decide) h

theorem mem_numeral {n : Int} {ch : Char} (h : ch ∈ (numeral n).toList) :
    ch = '-' ∨ ch.isDigit = true := by
  cases n with
  | ofNat m => exact .inr (isDigit_of_mem_numeral h)
  | negSucc m =>
    change ch ∈ ("-" ++ Nat.repr (m + 1)).toList at h
    rw [String.toList_append] at h
    rcases List.mem_append.mp h with hsign | hdigit
    · exact .inl (List.mem_singleton.mp hsign)
    · exact .inr (isDigit_of_mem_numeral (n := m + 1) hdigit)

theorem numeral_ne_nil (n : Int) : (numeral n).toList ≠ [] := by
  unfold numeral
  rw [Int.repr_eq_if]
  split_ifs
  · rw [Nat.toList_repr]
    exact Nat.toDigits_ne_nil
  · simp

theorem numeral_injective {m n : Int} (h : numeral m = numeral n) : m = n := by
  have hnat {i j : Nat} (hij : (Nat.repr i).toList = (Nat.repr j).toList) : i = j := by
    rw [Nat.toList_repr, Nat.toList_repr] at hij
    rw [← ofDigits_toDigits i, hij, ofDigits_toDigits]
  have hsign {i j : Nat} : Nat.repr i ≠ "-" ++ Nat.repr j := by
    intro hij
    have hmem : '-' ∈ (Nat.repr i).toList := by simp [hij]
    exact absurd (isDigit_of_mem_numeral (n := i) hmem) (by decide)
  cases m with
  | ofNat i =>
    cases n with
    | ofNat j => rw [hnat (congrArg String.toList h)]
    | negSucc j => exact absurd h hsign
  | negSucc i =>
    cases n with
    | ofNat j => exact absurd h.symm hsign
    | negSucc j =>
      have hlists := congrArg String.toList h
      change ("-" ++ Nat.repr (i + 1)).toList = ("-" ++ Nat.repr (j + 1)).toList at hlists
      rw [String.toList_append, String.toList_append] at hlists
      rw [Nat.succ_injective (hnat (List.append_cancel_left hlists))]

end Text

end ImpLang
