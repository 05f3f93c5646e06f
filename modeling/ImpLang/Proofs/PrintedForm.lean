import ImpLang.Proofs.Induction
import ImpLang.Value.Display
import Mathlib.Data.List.Forall2

namespace ImpLang

def Text.Short (n : Int) : Prop :=
  (Nat.toDigits 10 n.natAbs).length ≤ maxDigits

theorem Text.hasNumeral_iff {n : Int} : hasNumeral n = true ↔ Short n := by
  unfold hasNumeral Short
  rw [decide_eq_true_iff, numeralBound_eq, Nat.pow_eq]
  exact (Nat.length_toDigits_le_iff (by decide) (by decide)).symm

theorem Text.writtenNumeral_eq_ok_iff {n : Int} {text : String} :
    writtenNumeral n = .ok text ↔ Short n ∧ text = numeral n := by
  rw [← hasNumeral_iff]
  unfold writtenNumeral
  split_ifs with h
  · simp [h, eq_comm]
  · simp [h]

theorem Except.bind_eq_ok_iff {α β : Type} {x : Except Fault α} {f : α → Except Fault β} {b : β} :
    (x >>= f) = .ok b ↔ ∃ a, x = .ok a ∧ f a = .ok b := by
  cases x with
  | error e => simp [bind, Except.bind]
  | ok a => simp [bind, Except.bind]

/-- The text is the source text of the expression, and its integers are among those allowed. -/
inductive Exp.SourceText (allowed : Int → Prop) : Exp → String → Prop
  | int {n : Int} (hn : allowed n) : SourceText allowed (.int n) (Text.numeral n)
  | bool (b : Bool) : SourceText allowed (.bool b) (if b then "true" else "false")
  | var (x : String) : SourceText allowed (.var x) x
  | fn {params : List String} {body : Exp} {text : String} (h : SourceText allowed body text) :
      SourceText allowed (.fn params body)
        ("fn [" ++ ", ".intercalate params ++ "] " ++ text ++ " end")
  | letIn {bindings : List (String × Exp)} {body : Exp} {texts : List String} {text : String}
      (hlength : bindings.length = texts.length)
      (hbound : ∀ b t, (b, t) ∈ bindings.zip texts → SourceText allowed b.2 t)
      (h : SourceText allowed body text) :
      SourceText allowed (.letIn bindings body) ("let [" ++
        "; ".intercalate (List.zipWith (fun b t => b.1 ++ " := " ++ t) bindings texts) ++ "] " ++
        text ++ " end")
  | apply {f : Exp} {args : List Exp} {text : String} {texts : List String}
      (h : SourceText allowed f text) (hlength : args.length = texts.length)
      (hargs : ∀ e t, (e, t) ∈ args.zip texts → SourceText allowed e t) :
      SourceText allowed (.apply f args)
        ("apply " ++ text ++ " (" ++ ", ".intercalate texts ++ ")")
  | ite {c t e : Exp} {condition thenText elseText : String}
      (hc : SourceText allowed c condition) (ht : SourceText allowed t thenText)
      (he : SourceText allowed e elseText) :
      SourceText allowed (.ite c t e)
        ("if " ++ condition ++ " then " ++ thenText ++ " else " ++ elseText ++ " fi")
  | binary {op : Op} {l r : Exp} {left right : String} (hl : SourceText allowed l left)
      (hr : SourceText allowed r right) :
      SourceText allowed (.binary op l r) ("(" ++ left ++ " " ++ op.symbol ++ " " ++ right ++ ")")
  | symbol {kind : OpKind} {symbol : String} {l r : Exp} {left right : String}
      (hl : SourceText allowed l left) (hr : SourceText allowed r right) :
      SourceText allowed (.unknownOp kind symbol l r)
        ("(" ++ left ++ " " ++ symbol ++ " " ++ right ++ ")")

inductive Val.PrintedForm (allowed : Int → Prop) : Val → String → Prop
  | int {n : Int} (hn : allowed n) : PrintedForm allowed (.int n) (Text.numeral n)
  | bool (b : Bool) : PrintedForm allowed (.bool b) (if b then "True" else "False")
  | closure {params : List String} {body : Exp} {captured : List (String × Val)} {source : String}
      {texts : List String} (hbody : body.SourceText allowed source)
      (hlength : captured.length = texts.length)
      (hcaptured : ∀ b t, (b, t) ∈ captured.zip texts → PrintedForm allowed b.2 t) :
      PrintedForm allowed (.closure params body captured)
        ("<[" ++ ", ".intercalate params ++ "], " ++ source ++ ", \x7b" ++
          ", ".intercalate (List.zipWith (fun b t => b.1 ++ ": " ++ t) captured texts) ++ "\x7d>")
  | exn (message : String) : PrintedForm allowed (.exn message) ("exn: " ++ message)

namespace Exp

theorem renderList_eq_ok_iff {es : List Exp} {texts : List String} :
    renderList es = .ok texts ↔ List.Forall₂ (fun e t => e.render = .ok t) es texts := by
  induction es generalizing texts with
  | nil => simp [eq_comm]
  | cons e es ih =>
    rw [renderList_cons, List.forall₂_cons_left_iff, Except.bind_eq_ok_iff]
    refine exists_congr fun t => ?_
    rw [Except.bind_eq_ok_iff]
    constructor
    · rintro ⟨ht, ts, hts, h⟩
      cases h
      exact ⟨ts, ht, ih.mp hts, rfl⟩
    · rintro ⟨ts, ht, hts, rfl⟩
      exact ⟨ht, ts, ih.mpr hts, rfl⟩

theorem renderBindings_eq_ok_iff {bindings : List (String × Exp)} {entries : List String} :
    renderBindings bindings = .ok entries ↔ ∃ texts,
      List.Forall₂ (fun (b : String × Exp) t => b.2.render = .ok t) bindings texts ∧
      entries = List.zipWith (fun b t => b.1 ++ " := " ++ t) bindings texts := by
  induction bindings generalizing entries with
  | nil => simp [eq_comm]
  | cons b bindings ih =>
    obtain ⟨x, e⟩ := b
    rw [renderBindings_cons, Except.bind_eq_ok_iff]
    constructor
    · rintro ⟨t, ht, h⟩
      obtain ⟨others, hothers, h⟩ := Except.bind_eq_ok_iff.mp h
      obtain ⟨texts, htexts, rfl⟩ := ih.mp hothers
      cases h
      exact ⟨t :: texts, .cons ht htexts, rfl⟩
    · rintro ⟨_, _ | ⟨ht, htexts⟩, rfl⟩
      exact ⟨_, ht, Except.bind_eq_ok_iff.mpr ⟨_, ih.mpr ⟨_, htexts, rfl⟩, rfl⟩⟩

/-- Rendering gives the source text of every expression without long integers, and nothing else. -/
theorem render_eq_ok_iff {e : Exp} {text : String} :
    e.render = .ok text ↔ e.SourceText Text.Short text := by
  constructor
  · intro h
    -- rendering fails as soon as one part does, so every part has a text of its own
    induction e using Exp.induction generalizing text with
    | int n =>
      obtain ⟨hn, rfl⟩ := Text.writtenNumeral_eq_ok_iff.mp h
      exact .int hn
    | bool b =>
      cases h
      exact .bool b
    | var x =>
      cases h
      exact .var x
    | fn params body ih =>
      rw [render_fn] at h
      obtain ⟨t, ht, h⟩ := Except.bind_eq_ok_iff.mp h
      cases h
      exact .fn (ih ht)
    | letIn bindings body ihs ih =>
      rw [render_letIn] at h
      obtain ⟨entries, hentries, h⟩ := Except.bind_eq_ok_iff.mp h
      obtain ⟨t, ht, h⟩ := Except.bind_eq_ok_iff.mp h
      obtain ⟨texts, htexts, rfl⟩ := renderBindings_eq_ok_iff.mp hentries
      obtain ⟨hlength, hbound⟩ := List.forall₂_iff_zip.mp htexts
      cases h
      exact .letIn hlength (fun b t hmem => ihs b (List.of_mem_zip hmem).1 (hbound hmem)) (ih ht)
    | apply f args ih ihs =>
      rw [render_apply] at h
      obtain ⟨texts, htexts, h⟩ := Except.bind_eq_ok_iff.mp h
      obtain ⟨t, ht, h⟩ := Except.bind_eq_ok_iff.mp h
      obtain ⟨hlength, hargs⟩ := List.forall₂_iff_zip.mp (renderList_eq_ok_iff.mp htexts)
      cases h
      exact .apply (ih ht) hlength fun e t hmem => ihs e (List.of_mem_zip hmem).1 (hargs hmem)
    | ite c t e ihc iht ihe =>
      rw [render_ite] at h
      obtain ⟨condition, hc, h⟩ := Except.bind_eq_ok_iff.mp h
      obtain ⟨thenText, ht, h⟩ := Except.bind_eq_ok_iff.mp h
      obtain ⟨elseText, he, h⟩ := Except.bind_eq_ok_iff.mp h
      cases h
      exact .ite (ihc hc) (iht ht) (ihe he)
    | binary op l r ihl ihr =>
      rw [render_binary] at h
      obtain ⟨left, hl, h⟩ := Except.bind_eq_ok_iff.mp h
      obtain ⟨right, hr, h⟩ := Except.bind_eq_ok_iff.mp h
      cases h
      exact .binary (ihl hl) (ihr hr)
    | unknownOp kind symbol l r ihl ihr =>
      rw [render_unknownOp] at h
      obtain ⟨left, hl, h⟩ := Except.bind_eq_ok_iff.mp h
      obtain ⟨right, hr, h⟩ := Except.bind_eq_ok_iff.mp h
      cases h
      exact .symbol (ihl hl) (ihr hr)
    | foreign thing => cases h
  · intro h
    induction h with
    | int hn => exact Text.writtenNumeral_eq_ok_iff.mpr ⟨hn, rfl⟩
    | bool b => rfl
    | var x => rfl
    | fn _ ih => rw [render_fn, ih]; rfl
    | letIn hlength _ _ ihs ih =>
      have htexts := List.forall₂_iff_zip.mpr ⟨hlength, fun {b t} hmem => ihs b t hmem⟩
      rw [render_letIn, renderBindings_eq_ok_iff.mpr ⟨_, htexts, rfl⟩, ih]
      rfl
    | apply _ hlength _ ih ihs =>
      have htexts := List.forall₂_iff_zip.mpr ⟨hlength, fun {e t} hmem => ihs e t hmem⟩
      rw [render_apply, renderList_eq_ok_iff.mpr htexts, ih]
      rfl
    | ite _ _ _ ihc iht ihe => rw [render_ite, ihc, iht, ihe]; rfl
    | binary _ _ ihl ihr => rw [render_binary, ihl, ihr]; rfl
    | symbol _ _ ihl ihr => rw [render_unknownOp, ihl, ihr]; rfl

end Exp

namespace Val

theorem displayEntries_eq_ok_iff {captured : List (String × Val)} {entries : List String} :
    displayEntries captured = .ok entries ↔ ∃ texts,
      List.Forall₂ (fun (b : String × Val) t => b.2.display = .ok t) captured texts ∧
      entries = List.zipWith (fun b t => b.1 ++ ": " ++ t) captured texts := by
  induction captured generalizing entries with
  | nil => simp [eq_comm]
  | cons b captured ih =>
    obtain ⟨x, v⟩ := b
    rw [displayEntries_cons, Except.bind_eq_ok_iff]
    constructor
    · rintro ⟨t, ht, h⟩
      obtain ⟨others, hothers, h⟩ := Except.bind_eq_ok_iff.mp h
      obtain ⟨texts, htexts, rfl⟩ := ih.mp hothers
      cases h
      exact ⟨t :: texts, .cons ht htexts, rfl⟩
    · rintro ⟨_, _ | ⟨ht, htexts⟩, rfl⟩
      exact ⟨_, ht, Except.bind_eq_ok_iff.mpr ⟨_, ih.mpr ⟨_, htexts, rfl⟩, rfl⟩⟩

/-- Every value without long integers is shown in its printed form, and no other value is shown. -/
theorem display_eq_ok_iff {v : Val} {text : String} :
    v.display = .ok text ↔ v.PrintedForm Text.Short text := by
  constructor
  · intro h
    induction v using Val.induction generalizing text with
    | int n =>
      obtain ⟨hn, rfl⟩ := Text.writtenNumeral_eq_ok_iff.mp h
      exact .int hn
    | bool b =>
      cases h
      exact .bool b
    | closure params body captured ih =>
      rw [display_closure] at h
      obtain ⟨source, hsource, h⟩ := Except.bind_eq_ok_iff.mp h
      obtain ⟨entries, hentries, h⟩ := Except.bind_eq_ok_iff.mp h
      obtain ⟨texts, htexts, rfl⟩ := displayEntries_eq_ok_iff.mp hentries
      obtain ⟨hlength, hcaptured⟩ := List.forall₂_iff_zip.mp htexts
      cases h
      exact .closure (Exp.render_eq_ok_iff.mp hsource) hlength
        fun b t hmem => ih b (List.of_mem_zip hmem).1 (hcaptured hmem)
    | exn message =>
      cases h
      exact .exn message
    | foreign thing => cases h
  · intro h
    induction h with
    | int hn => exact Text.writtenNumeral_eq_ok_iff.mpr ⟨hn, rfl⟩
    | bool b => rfl
    | closure hbody hlength _ ih =>
      have htexts := List.forall₂_iff_zip.mpr ⟨hlength, fun {b t} hmem => ih b t hmem⟩
      rw [display_closure, Exp.render_eq_ok_iff.mpr hbody,
        displayEntries_eq_ok_iff.mpr ⟨_, htexts, rfl⟩]
      rfl
    | exn message => rfl

end Val

end ImpLang
