import ImpLang.Proofs.Lookup
import ImpLang.Proofs.TreeDump
import Mathlib.Data.List.Nodup

namespace ImpLang

open Bindings

namespace Outline

/-- The same nested tables: the order of the entries makes no difference. -/
inductive SameTables : Outline → Outline → Prop
  | node {type label : String} {children children' : List (String × Outline)}
      (h : ∀ x, Option.Rel SameTables (Bindings.get? children x) (Bindings.get? children' x)) :
      SameTables (.node type label children) (.node type label children')

theorem keyedChildren_eq_map (children : List (String × Outline)) :
    keyedChildren children = children.map fun c => (c.1, c.2.keyed) := by
  induction children with
  | nil => rfl
  | cons c children ih =>
    rw [keyedChildren, ih]
    rfl

/-- Tables of outlines are the same if the outlines agree in the node and in the last child under
each label. -/
theorem sameTables_keyed_iff {o o' : Outline} : SameTables o.keyed o'.keyed ↔
    (o.type = o'.type ∧ o.label = o'.label) ∧
      ∀ x, Option.Rel (fun c c' => SameTables c.keyed c'.keyed)
        (Bindings.last? o.children x) (Bindings.last? o'.children x) := by
  obtain ⟨type, label, children⟩ := o
  obtain ⟨type', label', children'⟩ := o'
  have hget (cs : List (String × Outline)) (x : String) :
      (ofPairs (keyedChildren cs)).get? x = (last? cs x).map keyed := by
    rw [get?_ofPairs, keyedChildren_eq_map, last?_map]
  have hrel (a a' : Option Outline) : Option.Rel SameTables (a.map keyed) (a'.map keyed) ↔
      Option.Rel (fun c c' => SameTables c.keyed c'.keyed) a a' := by
    cases a <;> cases a' <;> simp
  simp only [keyed, Outline.type, Outline.label, Outline.children]
  constructor
  · intro h
    cases h with
    | node h =>
      simp only [hget, hrel] at h
      exact ⟨⟨rfl, rfl⟩, h⟩
  · rintro ⟨⟨rfl, rfl⟩, h⟩
    apply SameTables.node
    simp only [hget, hrel]
    exact h

/-- A relation that implies the same node holds exactly if the tables are the same, if it does so
where the nodes are the same. -/
theorem sameTables_keyed_iff_of_head {o o' : Outline} {P : Prop}
    (hhead : P → o.type = o'.type ∧ o.label = o'.label)
    (hchildren : o.type = o'.type → o.label = o'.label →
      ((∀ x, Option.Rel (fun c c' => SameTables c.keyed c'.keyed)
        (last? o.children x) (last? o'.children x)) ↔ P)) :
    SameTables o.keyed o'.keyed ↔ P := by
  rw [sameTables_keyed_iff]
  constructor
  · rintro ⟨⟨htype, hlabel⟩, h⟩
    exact (hchildren htype hlabel).mp h
  · intro hP
    obtain ⟨htype, hlabel⟩ := hhead hP
    exact ⟨⟨htype, hlabel⟩, (hchildren htype hlabel).mpr hP⟩

section Labels

variable {R : Outline → Outline → Prop} {x y z : String} {o o' p p' q q' : Outline}

theorem rel_last_one :
    (∀ w, Option.Rel R (last? [(x, o)] w) (last? [(x, o')] w)) ↔ R o o' := by
  have hlabels : [x].Nodup := List.nodup_singleton x
  rw [rel_last_of_keys hlabels rfl rfl]
  simp

theorem rel_last_two (hlabels : [x, y].Nodup) :
    (∀ w, Option.Rel R (last? [(x, o), (y, p)] w) (last? [(x, o'), (y, p')] w)) ↔
      R o o' ∧ R p p' := by
  rw [rel_last_of_keys hlabels rfl rfl]
  simp

theorem rel_last_three (hlabels : [x, y, z].Nodup) :
    (∀ w, Option.Rel R (last? [(x, o), (y, p), (z, q)] w)
      (last? [(x, o'), (y, p'), (z, q')] w)) ↔ R o o' ∧ R p p' ∧ R q q' := by
  rw [rel_last_of_keys hlabels rfl rfl]
  simp

end Labels

/-- A table has all children of the node exactly if no two of them stand under one label. -/
theorem length_children_keyed_iff (o : Outline) :
    o.keyed.children.length = o.children.length ↔ (keys o.children).Nodup := by
  obtain ⟨type, label, children⟩ := o
  have hkeys : keys (keyedChildren children) = keys children := by
    simp [keyedChildren_eq_map, keys]
  have hlength : (keyedChildren children).length = children.length := by
    simp [keyedChildren_eq_map]
  have hiff := length_ofPairs_eq_iff (keyedChildren children)
  rwa [hkeys, hlength] at hiff

end Outline

/-- Whether lists are related depends on their items only. -/
theorem forall₂_congr {α β : Type} {R S : α → β → Prop} {as : List α} {bs : List β}
    (h : ∀ a ∈ as, ∀ b ∈ bs, (R a b ↔ S a b)) : List.Forall₂ R as bs ↔ List.Forall₂ S as bs := by
  simp only [List.forall₂_iff_zip]
  refine and_congr_right fun _ => ⟨fun hR a b hab => ?_, fun hS a b hab => ?_⟩
  · obtain ⟨ha, hb⟩ := List.of_mem_zip hab
    exact (h a ha b hb).mp (hR hab)
  · obtain ⟨ha, hb⟩ := List.of_mem_zip hab
    exact (h a ha b hb).mpr (hS hab)

/-- So does whether the last bindings of a name are. -/
theorem rel_last_congr {α : Type} {R S : α → α → Prop} {bs bs' : Bindings α}
    (h : ∀ b ∈ bs, ∀ b' ∈ bs', (R b.2 b'.2 ↔ S b.2 b'.2)) (x : String) :
    Option.Rel R (bs.last? x) (bs'.last? x) ↔ Option.Rel S (bs.last? x) (bs'.last? x) := by
  cases hv : bs.last? x with
  | none => cases bs'.last? x <;> simp
  | some v =>
    cases hw : bs'.last? x with
    | none => simp
    | some w =>
      have hmem : (x, v) ∈ bs := List.mem_reverse.mp (mem_of_get?_eq_some hv)
      have hmem' : (x, w) ∈ bs' := List.mem_reverse.mp (mem_of_get?_eq_some hw)
      simpa using h _ hmem _ hmem'

namespace Exp

/-- The expressions differ in nothing that a table shows: of the bindings of a let only the last one
of each name counts, and not that of the name under which the body stands. -/
@[mk_iff]
inductive Resembles : Exp → Exp → Prop
  | int (n : Int) : Resembles (.int n) (.int n)
  | bool (b : Bool) : Resembles (.bool b) (.bool b)
  | var (x : String) : Resembles (.var x) (.var x)
  | fn (params : List String) {body body' : Exp} (hbody : Resembles body body') :
      Resembles (.fn params body) (.fn params body')
  | letIn {bindings bindings' : List (String × Exp)} {body body' : Exp}
      (hbindings : ∀ x, x ≠ "body" →
        Option.Rel Resembles (Bindings.last? bindings x) (Bindings.last? bindings' x))
      (hbody : Resembles body body') : Resembles (.letIn bindings body) (.letIn bindings' body')
  | apply {f f' : Exp} {args args' : List Exp} (hf : Resembles f f')
      (hargs : List.Forall₂ Resembles args args') : Resembles (.apply f args) (.apply f' args')
  | ite {c c' t t' e e' : Exp} (hc : Resembles c c') (ht : Resembles t t') (he : Resembles e e') :
      Resembles (.ite c t e) (.ite c' t' e')
  | binary (op : Op) {l l' r r' : Exp} (hl : Resembles l l') (hr : Resembles r r') :
      Resembles (.binary op l r) (.binary op l' r')

section Parts

variable {c c' t t' e e' f f' l l' r r' body body' : Exp} {args args' : List Exp}
  {bindings bindings' : List (String × Exp)}

theorem resembles_fn_iff {params : List String} :
    Resembles (.fn params body) (.fn params body') ↔ Resembles body body' := by
  rw [resembles_iff]
  simp

theorem resembles_letIn_iff : Resembles (.letIn bindings body) (.letIn bindings' body') ↔
    (∀ x, x ≠ "body" →
      Option.Rel Resembles (Bindings.last? bindings x) (Bindings.last? bindings' x)) ∧
      Resembles body body' := by
  rw [resembles_iff]
  simp

theorem resembles_apply_iff : Resembles (.apply f args) (.apply f' args') ↔
    Resembles f f' ∧ List.Forall₂ Resembles args args' := by
  rw [resembles_iff]
  simp

theorem resembles_ite_iff : Resembles (.ite c t e) (.ite c' t' e') ↔
    Resembles c c' ∧ Resembles t t' ∧ Resembles e e' := by
  rw [resembles_iff]
  simp

theorem resembles_binary_iff {op : Op} : Resembles (.binary op l r) (.binary op l' r') ↔
    Resembles l l' ∧ Resembles r r' := by
  rw [resembles_iff]
  simp

end Parts

theorem Resembles.head {e e' : Exp} (h : Resembles e e') :
    e.outline.type = e'.outline.type ∧ e.outline.label = e'.outline.label := by
  cases h <;> exact ⟨rfl, rfl⟩

theorem keys_outlineArgs (index : Nat) (args : List Exp) : keys (outlineArgs index args) =
    (List.range' index args.length).map fun i : Nat => "arg" ++ Text.numeral i := by
  induction args generalizing index with
  | nil => rfl
  | cons e args ih =>
    rw [outlineArgs, keys_cons, ih, List.length_cons, List.range'_succ, List.map_cons]

theorem nodup_keys_outlineArgs (index : Nat) (args : List Exp) :
    (keys (outlineArgs index args)).Nodup := by
  rw [keys_outlineArgs]
  refine List.Nodup.map (fun i j hij => ?_) List.nodup_range'
  have hlists := congrArg String.toList hij
  rw [String.toList_append, String.toList_append] at hlists
  have hnumerals := String.toList_injective (List.append_cancel_left hlists)
  exact Int.ofNat_inj.mp (Text.numeral_injective hnumerals)

theorem keys_outlineArgs_of_length {args args' : List Exp} (index : Nat)
    (h : (outlineArgs index args).length = (outlineArgs index args').length) :
    keys (outlineArgs index args) = keys (outlineArgs index args') := by
  have hlength (args : List Exp) : (outlineArgs index args).length = args.length := by
    simpa using congrArg List.length (map_snd_outlineArgs index args)
  rw [hlength, hlength] at h
  rw [keys_outlineArgs, keys_outlineArgs, h]

/-- The labels of arguments are none of the other labels. -/
theorem function_not_mem_keys (index : Nat) (args : List Exp) :
    "function" ∉ keys (outlineArgs index args) := by
  rw [keys_outlineArgs]
  intro hmem
  obtain ⟨i, -, hi⟩ := List.mem_map.mp hmem
  have hfirst := congrArg (fun s => s.toList.head?) hi
  simp at hfirst

variable {R : Outline → Outline → Prop}

theorem rel_last_arguments (index : Nat) (args args' : List Exp) :
    (∀ x, Option.Rel R (last? (outlineArgs index args) x) (last? (outlineArgs index args') x)) ↔
      List.Forall₂ (fun e e' => R e.outline e'.outline) args args' := by
  rw [rel_last_iff_forall₂ (nodup_keys_outlineArgs index args) (nodup_keys_outlineArgs index args')
    (keys_outlineArgs_of_length index), map_snd_outlineArgs, map_snd_outlineArgs,
    List.forall₂_map_left_iff, List.forall₂_map_right_iff]

theorem nodup_labels_apply (f : Exp) (args : List Exp) :
    (keys (Exp.apply f args).outline.children).Nodup :=
  List.nodup_cons.mpr ⟨function_not_mem_keys 0 args, nodup_keys_outlineArgs 0 args⟩

theorem rel_last_apply (f f' : Exp) (args args' : List Exp) :
    (∀ x, Option.Rel R (last? (Exp.apply f args).outline.children x)
      (last? (Exp.apply f' args').outline.children x)) ↔
      R f.outline f'.outline ∧ List.Forall₂ (fun e e' => R e.outline e'.outline) args args' := by
  rw [rel_last_iff_forall₂ (nodup_labels_apply f args) (nodup_labels_apply f' args')]
  · simp only [outline, Outline.children, List.map_cons, List.forall₂_cons, map_snd_outlineArgs,
      List.forall₂_map_left_iff, List.forall₂_map_right_iff]
  · intro hlength
    have hargs := keys_outlineArgs_of_length 0 (Nat.succ.inj hlength)
    exact congrArg (List.cons "function") hargs

/-- The body of a let stands last, so it is found under its label whatever is bound there. -/
theorem rel_last_letIn (bindings bindings' : List (String × Exp)) (body body' : Exp) :
    (∀ x, Option.Rel R (last? (Exp.letIn bindings body).outline.children x)
      (last? (Exp.letIn bindings' body').outline.children x)) ↔
      (∀ x, x ≠ "body" → Option.Rel (fun e e' => R e.outline e'.outline)
        (last? bindings x) (last? bindings' x)) ∧ R body.outline body'.outline := by
  have hlast (bindings : List (String × Exp)) (body : Exp) (x : String) :
      last? (Exp.letIn bindings body).outline.children x =
        if "body" = x then some body.outline else (last? bindings x).map outline := by
    rw [outline, Outline.children, last?_concat, outlineBindings_eq_map, last?_map]
  have hrel (a a' : Option Exp) : Option.Rel R (a.map outline) (a'.map outline) ↔
      Option.Rel (fun e e' => R e.outline e'.outline) a a' := by
    cases a <;> cases a' <;> simp
  simp only [hlast]
  constructor
  · intro h
    constructor
    · intro x hx
      have hx' := h x
      rwa [if_neg (Ne.symm hx), if_neg (Ne.symm hx), hrel] at hx'
    · have hbody := h "body"
      rw [if_pos rfl, if_pos rfl] at hbody
      cases hbody with
      | some hbody => exact hbody
  · rintro ⟨hbindings, hbody⟩ x
    split_ifs with hx
    · exact .some hbody
    · exact (hrel _ _).mpr (hbindings x (Ne.symm hx))

/-- What is left once the form is known: the last children under each label. -/
theorem WellFormed.sameTables_iff_of_form {e e' : Exp} (h : e.WellFormed) (h' : e'.WellFormed)
    (hchildren : SameForm e e' →
      ((∀ x, Option.Rel (fun c c' => Outline.SameTables c.keyed c'.keyed)
        (last? e.outline.children x) (last? e'.outline.children x)) ↔ Resembles e e')) :
    Outline.SameTables e.outline.keyed e'.outline.keyed ↔ Resembles e e' :=
  Outline.sameTables_keyed_iff_of_head Resembles.head fun htype hlabel =>
    hchildren (h.sameForm h' htype hlabel)

/-- Tables of well-formed expressions are the same exactly if the expressions differ only in
bindings that a table does not keep. -/
theorem WellFormed.sameTables_iff {e e' : Exp} (h : e.WellFormed) (h' : e'.WellFormed) :
    Outline.SameTables e.outline.keyed e'.outline.keyed ↔ Resembles e e' := by
  induction e using Exp.induction generalizing e' with
  | int n =>
    refine h.sameTables_iff_of_form h' fun hform => ?_
    cases hform with
    | int _ => exact iff_of_true (fun x => .none) (.int n)
  | bool b =>
    refine h.sameTables_iff_of_form h' fun hform => ?_
    cases hform with
    | bool _ => exact iff_of_true (fun x => .none) (.bool b)
  | var x =>
    refine h.sameTables_iff_of_form h' fun hform => ?_
    cases hform with
    | var _ => exact iff_of_true (fun x => .none) (.var x)
  | fn params body ih =>
    refine h.sameTables_iff_of_form h' fun hform => ?_
    cases hform with
    | fn _ hbody hbody' =>
      rw [resembles_fn_iff, ← ih hbody hbody']
      exact Outline.rel_last_one
  | letIn bindings body ihbindings ihbody =>
    refine h.sameTables_iff_of_form h' fun hform => ?_
    cases hform with
    | letIn hbindings hbindings' hbody hbody' =>
      rw [rel_last_letIn, resembles_letIn_iff, ihbody hbody hbody']
      have hbound := rel_last_congr (S := Resembles)
        (R := fun b b' => Outline.SameTables b.outline.keyed b'.outline.keyed)
        fun b hb b' hb' => ihbindings b hb (hbindings b hb) (hbindings' b' hb')
      simp only [hbound]
  | apply f args ihf ihargs =>
    refine h.sameTables_iff_of_form h' fun hform => ?_
    cases hform with
    | apply hf hf' hargs hargs' =>
      rw [rel_last_apply, resembles_apply_iff, ihf hf hf', forall₂_congr fun e he e' he' =>
        ihargs e he (hargs e he) (hargs' e' he')]
  | ite c t e ihc iht ihe =>
    refine h.sameTables_iff_of_form h' fun hform => ?_
    cases hform with
    | ite hc hc' ht ht' he he' =>
      rw [resembles_ite_iff, ← ihc hc hc', ← iht ht ht', ← ihe he he']
      exact Outline.rel_last_three (by decide)
  | binary op l r ihl ihr =>
    refine h.sameTables_iff_of_form h' fun hform => ?_
    cases hform with
    | binary _ hl hl' hr hr' =>
      rw [resembles_binary_iff, ← ihl hl hl', ← ihr hr hr']
      exact Outline.rel_last_two (by decide)
  | unknownOp kind symbol l r => cases h
  | foreign thing => cases h

/-- Only a let has two children under one label. -/
theorem nodup_labels_iff {e : Exp} (h : e.WellFormed) : (keys e.outline.children).Nodup ↔
    ∀ bindings body, e = .letIn bindings body →
      (keys bindings).Nodup ∧ "body" ∉ keys bindings := by
  cases e with
  | letIn bindings body =>
    have hkeys : keys (Exp.letIn bindings body).outline.children = keys bindings ++ ["body"] := by
      simp [outline, Outline.children, outlineBindings_eq_map, keys]
    rw [hkeys, ← List.concat_eq_append, List.nodup_concat]
    constructor
    · rintro ⟨hbody, hnodup⟩ _ _ heq
      cases heq
      exact ⟨hnodup, hbody⟩
    · intro hall
      exact (hall _ _ rfl).symm
  | apply f args =>
    have hnodup := nodup_labels_apply f args
    exact iff_of_true hnodup (by simp)
  | unknownOp kind symbol l r => cases h
  | foreign thing => cases h
  | _ => simp [outline, Outline.children]

end Exp

namespace Stmt

@[mk_iff]
inductive Resembles : Stmt → Stmt → Prop
  | set (x : String) {e e' : Exp} (he : e.Resembles e') : Resembles (.set x e) (.set x e')
  | print {e e' : Exp} (he : e.Resembles e') : Resembles (.print e) (.print e')
  | quit : Resembles .quit .quit
  | ite {c c' : Exp} {t t' e e' : Stmt} (hc : c.Resembles c') (ht : Resembles t t')
      (he : Resembles e e') : Resembles (.ite c t e) (.ite c' t' e')
  | procedure (f : String) (params : List String) {body body' : Stmt}
      (hbody : Resembles body body') :
      Resembles (.procedure f params body) (.procedure f params body')
  | call (f : String) {args args' : List Exp} (hargs : List.Forall₂ Exp.Resembles args args') :
      Resembles (.call f args) (.call f args')
  | seq {stmts stmts' : List Stmt} (hstmts : List.Forall₂ Resembles stmts stmts') :
      Resembles (.seq stmts) (.seq stmts')

section Parts

variable {x f : String} {c c' e e' : Exp} {t t' s s' body body' : Stmt} {args args' : List Exp}
  {stmts stmts' : List Stmt}

theorem resembles_set_iff : Resembles (.set x e) (.set x e') ↔ e.Resembles e' := by
  rw [resembles_iff]
  simp

theorem resembles_print_iff : Resembles (.print e) (.print e') ↔ e.Resembles e' := by
  rw [resembles_iff]
  simp

theorem resembles_ite_iff : Resembles (.ite c t s) (.ite c' t' s') ↔
    c.Resembles c' ∧ Resembles t t' ∧ Resembles s s' := by
  rw [resembles_iff]
  simp

theorem resembles_procedure_iff {params : List String} :
    Resembles (.procedure f params body) (.procedure f params body') ↔ Resembles body body' := by
  rw [resembles_iff]
  simp

theorem resembles_call_iff :
    Resembles (.call f args) (.call f args') ↔ List.Forall₂ Exp.Resembles args args' := by
  rw [resembles_iff]
  simp

theorem resembles_seq_iff :
    Resembles (.seq stmts) (.seq stmts') ↔ List.Forall₂ Resembles stmts stmts' := by
  rw [resembles_iff]
  simp

end Parts

theorem Resembles.head {s s' : Stmt} (h : Resembles s s') :
    s.outline.type = s'.outline.type ∧ s.outline.label = s'.outline.label := by
  cases h <;> exact ⟨rfl, rfl⟩

theorem keys_outlineList (index : Nat) (stmts : List Stmt) : keys (outlineList index stmts) =
    (List.range' index stmts.length).map fun i : Nat => Text.numeral i := by
  induction stmts generalizing index with
  | nil => rfl
  | cons s stmts ih =>
    rw [outlineList, keys_cons, ih, List.length_cons, List.range'_succ, List.map_cons]

theorem nodup_keys_outlineList (index : Nat) (stmts : List Stmt) :
    (keys (outlineList index stmts)).Nodup := by
  rw [keys_outlineList]
  refine List.Nodup.map (fun i j hij => ?_) List.nodup_range'
  exact Int.ofNat_inj.mp (Text.numeral_injective hij)

variable {R : Outline → Outline → Prop}

theorem rel_last_members (index : Nat) (stmts stmts' : List Stmt) :
    (∀ x, Option.Rel R (last? (outlineList index stmts) x) (last? (outlineList index stmts') x)) ↔
      List.Forall₂ (fun s s' => R s.outline s'.outline) stmts stmts' := by
  have hlength (stmts : List Stmt) : (outlineList index stmts).length = stmts.length := by
    simpa using congrArg List.length (map_snd_outlineList index stmts)
  rw [rel_last_iff_forall₂ (nodup_keys_outlineList index stmts)
    (nodup_keys_outlineList index stmts'), map_snd_outlineList, map_snd_outlineList,
    List.forall₂_map_left_iff, List.forall₂_map_right_iff]
  intro h
  rw [hlength, hlength] at h
  rw [keys_outlineList, keys_outlineList, h]

theorem WellFormed.sameTables_iff_of_form {s s' : Stmt} (h : s.WellFormed) (h' : s'.WellFormed)
    (hchildren : SameForm s s' →
      ((∀ x, Option.Rel (fun c c' => Outline.SameTables c.keyed c'.keyed)
        (last? s.outline.children x) (last? s'.outline.children x)) ↔ Resembles s s')) :
    Outline.SameTables s.outline.keyed s'.outline.keyed ↔ Resembles s s' :=
  Outline.sameTables_keyed_iff_of_head Resembles.head fun htype hlabel =>
    hchildren (h.sameForm h' htype hlabel)

theorem WellFormed.sameTables_iff {s s' : Stmt} (h : s.WellFormed) (h' : s'.WellFormed) :
    Outline.SameTables s.outline.keyed s'.outline.keyed ↔ Resembles s s' := by
  induction s using Stmt.induction generalizing s' with
  | set x e =>
    refine h.sameTables_iff_of_form h' fun hform => ?_
    cases hform with
    | set _ he he' =>
      rw [resembles_set_iff, ← he.sameTables_iff he']
      exact Outline.rel_last_one
  | print e =>
    refine h.sameTables_iff_of_form h' fun hform => ?_
    cases hform with
    | print he he' =>
      rw [resembles_print_iff, ← he.sameTables_iff he']
      exact Outline.rel_last_one
  | quit =>
    refine h.sameTables_iff_of_form h' fun hform => ?_
    cases hform with
    | quit => exact iff_of_true (fun x => .none) .quit
  | ite c t e iht ihe =>
    refine h.sameTables_iff_of_form h' fun hform => ?_
    cases hform with
    | ite hc hc' ht ht' he he' =>
      rw [resembles_ite_iff, ← hc.sameTables_iff hc', ← iht ht ht', ← ihe he he']
      exact Outline.rel_last_three (by decide)
  | procedure f params body ih =>
    refine h.sameTables_iff_of_form h' fun hform => ?_
    cases hform with
    | procedure _ _ hbody hbody' =>
      rw [resembles_procedure_iff, ← ih hbody hbody']
      exact Outline.rel_last_one
  | call f args =>
    refine h.sameTables_iff_of_form h' fun hform => ?_
    cases hform with
    | call _ hargs hargs' =>
      rw [resembles_call_iff, ← forall₂_congr fun e he e' he' =>
        (hargs e he).sameTables_iff (hargs' e' he')]
      exact Exp.rel_last_arguments 0 args _
  | seq stmts ih =>
    refine h.sameTables_iff_of_form h' fun hform => ?_
    cases hform with
    | seq hstmts hstmts' =>
      rw [resembles_seq_iff, ← forall₂_congr fun s hs s' hs' =>
        ih s hs (hstmts s hs) (hstmts' s' hs')]
      exact rel_last_members 0 stmts _
  | foreign thing => cases h

theorem WellFormed.nodup_labels {s : Stmt} (h : s.WellFormed) :
    (keys s.outline.children).Nodup := by
  cases h with
  | call _ _ => exact Exp.nodup_keys_outlineArgs 0 _
  | seq _ _ => exact nodup_keys_outlineList 0 _
  | _ => simp [outline, Outline.children]

end Stmt

/-- Two parsed trees have the same tables exactly if they differ in nothing but bindings that a
table does not keep and in the order of the others, and an expression never has the same table as a
statement. The table of a tree has all of its children, unless it is a let that binds a name twice
or binds the name under which its body stands. -/
theorem parsed_tables (nesting nesting' : Nat) (text text' filename filename' : String) :
    (∀ e e', parseExpression nesting text filename = .ok e →
      parseExpression nesting' text' filename' = .ok e' →
      (e.outline.keyed.SameTables e'.outline.keyed ↔ e.Resembles e')) ∧
    (∀ s s', parseStatement nesting text filename = .ok s →
      parseStatement nesting' text' filename' = .ok s' →
      (s.outline.keyed.SameTables s'.outline.keyed ↔ s.Resembles s')) ∧
    (∀ e s, parseExpression nesting text filename = .ok e →
      parseStatement nesting' text' filename' = .ok s →
      ¬ e.outline.keyed.SameTables s.outline.keyed) ∧
    (∀ e, parseExpression nesting text filename = .ok e →
      (e.outline.keyed.children.length = e.outline.children.length ↔
        ∀ bindings body, e = .letIn bindings body →
          (keys bindings).Nodup ∧ "body" ∉ keys bindings)) ∧
    ∀ s, parseStatement nesting text filename = .ok s →
      s.outline.keyed.children.length = s.outline.children.length := by
  refine ⟨?_, ?_, ?_, ?_, ?_⟩
  · intro e e' h h'
    exact (wellFormed_of_parseExpression h).sameTables_iff (wellFormed_of_parseExpression h')
  · intro s s' h h'
    exact (wellFormed_of_parseStatement h).sameTables_iff (wellFormed_of_parseStatement h')
  · intro e s h h' hsame
    obtain ⟨⟨htype, -⟩, -⟩ := Outline.sameTables_keyed_iff.mp hsame
    -- the type names of expressions and those of statements end in different letters
    have hlast := (wellFormed_of_parseExpression h).getLast?_type
    rw [htype, (wellFormed_of_parseStatement h').getLast?_type] at hlast
    exact absurd hlast (by decide)
  · intro e h
    rw [Outline.length_children_keyed_iff]
    exact Exp.nodup_labels_iff (wellFormed_of_parseExpression h)
  · intro s h
    exact (Outline.length_children_keyed_iff _).mpr (wellFormed_of_parseStatement h).nodup_labels

/-- Two lets with the same table, and a sequence that has all its children. -/
theorem parsed_tables_lets : ∃ e e' s,
    parseExpression 20 "let [x := 1; x := 2; y := f] y end" "" = .ok e ∧
    parseExpression 30 "let[y:=f; body:=3; x:=(2)] y end" "a" = .ok e' ∧
    parseStatement 30 "do x := 1; x := 1; od;" "a" = .ok s ∧
    e ≠ e' ∧ e.outline.keyed.SameTables e'.outline.keyed ∧
    ¬ e.outline.keyed.SameTables s.outline.keyed ∧
    e.outline.keyed.children.length ≠ e.outline.children.length ∧
    s.outline.keyed.children.length = s.outline.children.length := by
  have he : parseExpression 20 "let [x := 1; x := 2; y := f] y end" "" =
      .ok (.letIn [("x", .int 1), ("x", .int 2), ("y", .var "f")] (.var "y")) := rfl
  have he' : parseExpression 30 "let[y:=f; body:=3; x:=(2)] y end" "a" =
      .ok (.letIn [("y", .var "f"), ("body", .int 3), ("x", .int 2)] (.var "y")) := rfl
  have hs : parseStatement 30 "do x := 1; x := 1; od;" "a" =
      .ok (.seq [.set "x" (.int 1), .set "x" (.int 1)]) := rfl
  have hresembles : Exp.Resembles
      (.letIn [("x", .int 1), ("x", .int 2), ("y", .var "f")] (.var "y"))
      (.letIn [("y", .var "f"), ("body", .int 3), ("x", .int 2)] (.var "y")) := by
    refine .letIn (fun x hx => ?_) (.var "y")
    simp only [last?, List.reverse_cons, List.reverse_nil, List.nil_append, List.cons_append, get?]
    split_ifs with hy hx' hbody
    all_goals first
      | exact .none
      | exact .some (.int 2)
      | exact .some (.var "f")
      | grind
  have htables (text' : String) :=
    parsed_tables 20 30 "let [x := 1; x := 2; y := f] y end" text' "" "a"
  have hsequence := parsed_tables 30 20 "do x := 1; x := 1; od;" "" "a" ""
  refine ⟨_, _, _, he, he', hs, by simp, ((htables _).1 _ _ he he').mpr hresembles,
    (htables _).2.2.1 _ _ he hs, fun hlength => ?_, hsequence.2.2.2.2 _ hs⟩
  obtain ⟨hnodup, -⟩ := ((htables "").2.2.2.1 _ he).mp hlength _ _ rfl
  exact absurd hnodup (by decide)

/-- The table of a let that binds a name twice is that of the let without the first binding. -/
theorem table_lacks_binding : ∃ e e',
    parseExpression 20 "let [x := 1; x := 2] x end" standardInput = .ok e ∧
    parseExpression 20 "let [x := 2] x end" standardInput = .ok e' ∧
    e.outline.keyed = e'.outline.keyed ∧ e ≠ e' ∧
    e.outline.keyed.children.length = 2 ∧ e.outline.children.length = 3 := by
  have he : parseExpression 20 "let [x := 1; x := 2] x end" standardInput =
      .ok (.letIn [("x", .int 1), ("x", .int 2)] (.var "x")) := rfl
  have he' : parseExpression 20 "let [x := 2] x end" standardInput =
      .ok (.letIn [("x", .int 2)] (.var "x")) := rfl
  exact ⟨_, _, he, he', by decide, by simp, by decide, by decide⟩

end ImpLang
