import ImpLang.Proofs.Induction
import ImpLang.Proofs.OutlineLines
import ImpLang.Proofs.WellFormed
import ImpLang.Tree.Describe

/-! The lines that show a tree determine the tree. The outline of a well-formed tree can be read off
its lines, and each form has a type name of its own, so that its parts can be read off the outline:
all children but the last are the bindings of a let expression, whatever their names are. -/
namespace ImpLang

namespace Text

theorem isPrintable_of_isAlpha {ch : Char} (h : ch.isAlpha = true) : isPrintable ch = true := by
  have hcode := toNat_of_isAlpha h
  have hfirst : (32, 126) ∈ printableRanges := by
    unfold printableRanges
    exact List.mem_cons_self
  refine List.any_eq_true.mpr ⟨_, hfirst, ?_⟩
  simp only [Bool.and_eq_true, decide_eq_true_eq]
  omega

/-- Nothing in a name is escaped. -/
theorem quoted_name {x : String} (hx : IsName x) : quoted x = "'" ++ x ++ "'" := by
  -- with no quote in the text, single quotes are used
  have hquote : quoteFor x.toList = '\'' := by
    have hnot : '\'' ∉ x.toList := hx.not_mem (by decide)
    unfold quoteFor
    rw [List.contains_eq_mem, decide_eq_false hnot]
    rfl
  -- a letter is none of the characters with an escape of their own, and it is printable
  have hchar : ∀ ch ∈ x.toList, (quotedChar '\'' ch).toList = [ch] := by
    intro ch hch
    have hletter := hx.2.1 ch hch
    have hne (c : Char) (hc : c.isAlpha = false) : ch ≠ c := by
      intro heq
      rw [heq, hc] at hletter
      exact Bool.noConfusion hletter
    unfold quotedChar
    rw [if_neg (hne _ (by decide)), if_neg (hne _ (by decide)), if_neg (hne _ (by decide)),
      if_neg (hne _ (by decide)), if_neg (hne _ (by decide)),
      if_pos (isPrintable_of_isAlpha hletter)]
    exact String.toList_singleton ch
  have hjoin : (String.join (x.toList.map (quotedChar '\''))).toList = x.toList := by
    rw [String.toList_join, List.flatMap_map, List.flatMap_congr hchar]
    simp
  unfold quoted
  dsimp only
  rw [hquote]
  apply String.toList_injective
  simp only [String.toList_append, String.toList_singleton, hjoin]
  rfl

end Text

theorem isWordChar_of_isDigit {ch : Char} (h : ch.isDigit = true) :
    Token.isWordChar ch = true := by
  simp [Token.isWordChar, Char.isAlphanum, h]

theorem IsName.legibleName {x : String} (hx : IsName x) : LegibleName x :=
  ⟨hx.1, fun ch hch => isWordChar_of_isAlpha (hx.2.1 ch hch)⟩

theorem legibleName_numeral (n : Nat) : LegibleName (Text.numeral n) :=
  ⟨Text.numeral_ne_nil n, fun _ hch => isWordChar_of_isDigit (Text.isDigit_of_mem_numeral hch)⟩

theorem legibleName_argument (n : Nat) : LegibleName ("arg" ++ Text.numeral n) := by
  obtain ⟨-, hdigits⟩ := legibleName_numeral n
  have hword : LegibleName "arg" := by decide
  rw [LegibleName, String.toList_append]
  exact ⟨by simp, List.forall_mem_append.mpr ⟨hword.2, hdigits⟩⟩

/-- Names in a list make one line. -/
theorem break_not_mem_names {xs : List String} (hxs : ∀ x ∈ xs, IsName x) :
    '\n' ∉ (", ".intercalate xs).toList := by
  cases xs with
  | nil => decide
  | cons x xs =>
    obtain ⟨hx, hxs⟩ := List.forall_mem_cons.mp hxs
    have hbreak {y : String} (hy : IsName y) : '\n' ∉ y.toList := hy.not_mem (by decide)
    rw [toList_intercalate_cons]
    intro hmem
    rcases List.mem_append.mp hmem with hmem | hmem
    · exact hbreak hx hmem
    · obtain ⟨y, hy, hmem⟩ := List.mem_flatMap.mp hmem
      simp [hbreak (hxs y hy)] at hmem

theorem break_not_mem_params {xs : List String} (hxs : ∀ x ∈ xs, IsName x) :
    '\n' ∉ ("[" ++ ", ".intercalate xs ++ "]").toList := by
  simp only [String.toList_append, List.mem_append, not_or]
  exact ⟨⟨by decide, break_not_mem_names hxs⟩, by decide⟩

theorem break_not_mem_quoted {x : String} (hx : IsName x) : '\n' ∉ (Text.quoted x).toList := by
  have hbreak : '\n' ∉ x.toList := hx.not_mem (by decide)
  simp [Text.quoted_name hx, hbreak]

/-- A quoted name ends at its second quote. -/
theorem quoted_decode {x y : String} (hx : IsName x) (hy : IsName y) {r s : List Char}
    (h : (Text.quoted x).toList ++ r = (Text.quoted y).toList ++ s) : x = y ∧ r = s := by
  have hlist {z : String} (hz : IsName z) (rest : List Char) :
      (Text.quoted z).toList ++ rest = '\'' :: (z.toList ++ '\'' :: rest) := by
    simp [Text.quoted_name hz]
  rw [hlist hx, hlist hy] at h
  obtain ⟨hxy, hrs⟩ := eq_of_append_cons (hx.not_mem (by decide)) (hy.not_mem (by decide))
    (List.cons.inj h).2
  exact ⟨String.toList_injective hxy, hrs⟩

theorem name_eq_of_quoted {x y : String} (hx : IsName x) (hy : IsName y)
    (h : Text.quoted x = Text.quoted y) : x = y := by
  have hlists : (Text.quoted x).toList ++ [] = (Text.quoted y).toList ++ [] := by rw [h]
  exact (quoted_decode hx hy hlists).1

theorem params_eq_of_text {xs ys : List String} (hxs : ∀ x ∈ xs, IsName x)
    (hys : ∀ y ∈ ys, IsName y)
    (h : "[" ++ ", ".intercalate xs ++ "]" = "[" ++ ", ".intercalate ys ++ "]") : xs = ys := by
  have hlists := congrArg String.toList h
  simp only [String.toList_append, List.append_assoc] at hlists
  exact (names_decode (by decide) (by decide) hxs hys (List.append_cancel_left hlists)).1

/-- The name and the parameters of a procedure, as its label shows them. -/
theorem signature_decode {f g : String} {xs ys : List String} (hf : IsName f) (hg : IsName g)
    (hxs : ∀ x ∈ xs, IsName x) (hys : ∀ y ∈ ys, IsName y)
    (h : Text.quoted f ++ ", [" ++ ", ".intercalate xs ++ "]" =
      Text.quoted g ++ ", [" ++ ", ".intercalate ys ++ "]") : f = g ∧ xs = ys := by
  have hlists := congrArg String.toList h
  simp only [String.toList_append, List.append_assoc] at hlists
  obtain ⟨hname, hrest⟩ := quoted_decode hf hg hlists
  exact ⟨hname, (names_decode (by decide) (by decide) hxs hys (List.append_cancel_left hrest)).1⟩

theorem labelText_inj {type detail detail' : String} :
    labelText type detail = labelText type detail' ↔ detail = detail' := by
  unfold labelText
  simp

namespace Outline

variable {type : String} {children : List (String × Outline)}

theorem break_not_mem_letters (htype : type.toList.all Char.isAlpha = true) :
    '\n' ∉ type.toList := by
  intro hmem
  exact absurd (List.all_eq_true.mp htype _ hmem) (by decide)

theorem legible_bare (htype : type.toList.all Char.isAlpha = true)
    (hchildren : ∀ c ∈ children, LegibleName c.1 ∧ c.2.Legible) :
    (node type type children).Legible := by
  refine .node ?_ ?_ (fun c hc => (hchildren c hc).1) fun c hc => (hchildren c hc).2
  · exact List.takeWhile_eq_self_iff.mpr (List.all_eq_true.mp htype)
  · exact break_not_mem_letters htype

theorem legible_labelText {detail : String} (htype : type.toList.all Char.isAlpha = true)
    (hdetail : '\n' ∉ detail.toList) (hchildren : ∀ c ∈ children, LegibleName c.1 ∧ c.2.Legible) :
    (node type (labelText type detail) children).Legible := by
  have hlabel : (labelText type detail).toList =
      type.toList ++ '(' :: (detail.toList ++ [')']) := by
    simp [labelText]
  refine .node ?_ ?_ (fun c hc => (hchildren c hc).1) fun c hc => (hchildren c hc).2
  · rw [hlabel]
    exact takeWhile_append_eq (List.all_eq_true.mp htype) rfl
  · rw [hlabel]
    simp [break_not_mem_letters htype, hdetail]

end Outline

/-- Lists are the same if their images are and the items of the first one are told apart. -/
theorem eq_of_map_eq {α β : Type} {f : α → β} {as bs : List α}
    (hf : ∀ a ∈ as, ∀ b ∈ bs, f a = f b → a = b) (h : as.map f = bs.map f) : as = bs := by
  induction as generalizing bs with
  | nil => exact (List.map_eq_nil_iff.mp h.symm).symm
  | cons a as ih =>
    cases bs with
    | nil => cases h
    | cons b bs =>
      obtain ⟨hfirst, hothers⟩ := List.cons.inj h
      have hab : a = b := hf a List.mem_cons_self b List.mem_cons_self hfirst
      have hrest := ih (fun a ha b hb => hf a (.tail _ ha) b (.tail _ hb)) hothers
      rw [hab, hrest]

theorem OpKind.nodeType_cases (kind : OpKind) : kind.nodeType = "IntOpExp" ∨
    kind.nodeType = "BoolOpExp" ∨ kind.nodeType = "CompOpExp" := by
  cases kind <;> simp [OpKind.nodeType]

theorem Op.eq_of_quoted {op op' : Op} (h : Text.quoted op.symbol = Text.quoted op'.symbol) :
    op = op' := by
  have hquoted (op : Op) : Text.quoted op.symbol = "'" ++ op.symbol ++ "'" := by
    cases op <;> rfl
  rw [hquoted, hquoted] at h
  revert h
  cases op <;> cases op' <;> decide

namespace Exp

theorem outlineBindings_eq_map (bindings : List (String × Exp)) :
    outlineBindings bindings = bindings.map fun b => (b.1, b.2.outline) := by
  induction bindings with
  | nil => rfl
  | cons b bindings ih =>
    rw [outlineBindings, ih]
    rfl

theorem map_snd_outlineArgs (index : Nat) (args : List Exp) :
    (outlineArgs index args).map Prod.snd = args.map outline := by
  induction args generalizing index with
  | nil => rfl
  | cons e args ih =>
    rw [outlineArgs, List.map_cons, List.map_cons, ih]

theorem mem_outlineArgs {index : Nat} {args : List Exp} {c : String × Outline}
    (h : c ∈ outlineArgs index args) :
    ∃ i : Nat, ∃ e ∈ args, c = ("arg" ++ Text.numeral i, e.outline) := by
  induction args generalizing index with
  | nil => cases h
  | cons e args ih =>
    rcases List.mem_cons.mp h with rfl | h
    · exact ⟨index, e, List.mem_cons_self, rfl⟩
    · obtain ⟨i, e', he', hc⟩ := ih h
      exact ⟨i, e', .tail _ he', hc⟩

/-- Arguments are the same if their outlines are. -/
theorem args_eq_of_outlineArgs {args args' : List Exp} {index : Nat}
    (hargs : ∀ e ∈ args, ∀ e' ∈ args', e.outline = e'.outline → e = e')
    (h : outlineArgs index args = outlineArgs index args') : args = args' := by
  apply eq_of_map_eq hargs
  rw [← map_snd_outlineArgs index args, h, map_snd_outlineArgs]

theorem legible_outlineArgs {index : Nat} {args : List Exp}
    (hargs : ∀ e ∈ args, e.outline.Legible) :
    ∀ c ∈ outlineArgs index args, LegibleName c.1 ∧ c.2.Legible := by
  intro c hc
  obtain ⟨i, e, he, rfl⟩ := mem_outlineArgs hc
  exact ⟨legibleName_argument i, hargs e he⟩

/-- The outline of a well-formed expression can be read off its lines. -/
theorem WellFormed.legible {e : Exp} (h : e.WellFormed) : e.outline.Legible := by
  induction h with
  | @int n hn =>
    refine Outline.legible_labelText (by decide) ?_ (by simp)
    intro hmem
    rcases Text.mem_numeral hmem with hsign | hdigit
    · exact absurd hsign (by decide)
    · exact absurd hdigit (by decide)
  | bool b => exact Outline.legible_labelText (by decide) (by cases b <;> decide) (by simp)
  | var hx => exact Outline.legible_labelText (by decide) (break_not_mem_quoted hx) (by simp)
  | fn hparams _ ih =>
    apply Outline.legible_labelText (by decide) (break_not_mem_params hparams)
    simp +decide [ih]
  | letIn hnames _ _ ihbindings ihbody =>
    apply Outline.legible_bare (by decide)
    rw [outlineBindings_eq_map]
    intro c hc
    rcases List.mem_append.mp hc with hc | hc
    · obtain ⟨b, hb, rfl⟩ := List.mem_map.mp hc
      exact ⟨(hnames b hb).legibleName, ihbindings b hb⟩
    · rw [List.mem_singleton.mp hc]
      exact ⟨show LegibleName "body" by decide, ihbody⟩
  | apply _ _ ihf ihargs =>
    apply Outline.legible_bare (by decide)
    have hfunction : LegibleName "function" := by decide
    exact List.forall_mem_cons.mpr ⟨⟨hfunction, ihf⟩, legible_outlineArgs ihargs⟩
  | ite _ _ _ ihc iht ihe =>
    apply Outline.legible_bare (by decide)
    simp +decide [ihc, iht, ihe]
  | binary op _ _ ihl ihr =>
    apply Outline.legible_labelText
    · cases op <;> decide
    · cases op <;> decide
    · simp +decide [ihl, ihr]

/-- Well-formed expressions of the same form, with the same in it besides other expressions. -/
inductive SameForm : Exp → Exp → Prop
  | int (n : Int) : SameForm (.int n) (.int n)
  | bool (b : Bool) : SameForm (.bool b) (.bool b)
  | var (x : String) : SameForm (.var x) (.var x)
  | fn (params : List String) {body body' : Exp} (hbody : body.WellFormed)
      (hbody' : body'.WellFormed) : SameForm (.fn params body) (.fn params body')
  | letIn {bindings bindings' : List (String × Exp)} {body body' : Exp}
      (hbindings : ∀ b ∈ bindings, b.2.WellFormed) (hbindings' : ∀ b ∈ bindings', b.2.WellFormed)
      (hbody : body.WellFormed) (hbody' : body'.WellFormed) :
      SameForm (.letIn bindings body) (.letIn bindings' body')
  | apply {f f' : Exp} {args args' : List Exp} (hf : f.WellFormed) (hf' : f'.WellFormed)
      (hargs : ∀ e ∈ args, e.WellFormed) (hargs' : ∀ e ∈ args', e.WellFormed) :
      SameForm (.apply f args) (.apply f' args')
  | ite {c c' t t' e e' : Exp} (hc : c.WellFormed) (hc' : c'.WellFormed) (ht : t.WellFormed)
      (ht' : t'.WellFormed) (he : e.WellFormed) (he' : e'.WellFormed) :
      SameForm (.ite c t e) (.ite c' t' e')
  | binary (op : Op) {l l' r r' : Exp} (hl : l.WellFormed) (hl' : l'.WellFormed)
      (hr : r.WellFormed) (hr' : r'.WellFormed) : SameForm (.binary op l r) (.binary op l' r')

/-- The type name tells the form, and the label tells what stands in it besides expressions. -/
theorem WellFormed.sameForm {e e' : Exp} (h : e.WellFormed) (h' : e'.WellFormed)
    (htype : e.outline.type = e'.outline.type) (hlabel : e.outline.label = e'.outline.label) :
    SameForm e e' := by
  cases h with
  | int _ =>
    cases h' with
    | int _ =>
      rw [Text.numeral_injective (labelText_inj.mp hlabel)]
      exact .int _
    | _ => grind [outline, Outline.type, OpKind.nodeType_cases]
  | bool b =>
    cases h' with
    | bool b' =>
      have hflags : flagText b = flagText b' → b = b' := by
        cases b <;> cases b' <;> decide
      rw [hflags (labelText_inj.mp hlabel)]
      exact .bool _
    | _ => grind [outline, Outline.type, OpKind.nodeType_cases]
  | var hx =>
    cases h' with
    | var hx' =>
      rw [name_eq_of_quoted hx hx' (labelText_inj.mp hlabel)]
      exact .var _
    | _ => grind [outline, Outline.type, OpKind.nodeType_cases]
  | fn hparams hbody =>
    cases h' with
    | fn hparams' hbody' =>
      rw [params_eq_of_text hparams hparams' (labelText_inj.mp hlabel)]
      exact .fn _ hbody hbody'
    | _ => grind [outline, Outline.type, OpKind.nodeType_cases]
  | letIn _ hbindings hbody =>
    cases h' with
    | letIn _ hbindings' hbody' => exact .letIn hbindings hbindings' hbody hbody'
    | _ => grind [outline, Outline.type, OpKind.nodeType_cases]
  | apply hf hargs =>
    cases h' with
    | apply hf' hargs' => exact .apply hf hf' hargs hargs'
    | _ => grind [outline, Outline.type, OpKind.nodeType_cases]
  | ite hc ht he =>
    cases h' with
    | ite hc' ht' he' => exact .ite hc hc' ht ht' he he'
    | _ => grind [outline, Outline.type, OpKind.nodeType_cases]
  | binary op hl hr =>
    cases h' with
    | binary op' hl' hr' =>
      -- the type name tells the table only, and the label the operator
      simp only [outline, Outline.type] at htype
      simp only [outline, Outline.label, htype, labelText_inj] at hlabel
      rw [Op.eq_of_quoted hlabel]
      exact .binary op' hl hl' hr hr'
    | _ => grind [outline, Outline.type, OpKind.nodeType_cases]

/-- Well-formed expressions with the same outline are the same. -/
theorem WellFormed.eq_of_outline {e e' : Exp} (h : e.WellFormed) (h' : e'.WellFormed)
    (heq : e.outline = e'.outline) : e = e' := by
  have hform {e e' : Exp} (h : e.WellFormed) (h' : e'.WellFormed)
      (heq : e.outline = e'.outline) : SameForm e e' :=
    h.sameForm h' (congrArg Outline.type heq) (congrArg Outline.label heq)
  induction e using Exp.induction generalizing e' with
  | int n => cases hform h h' heq with | int _ => rfl
  | bool b => cases hform h h' heq with | bool _ => rfl
  | var x => cases hform h h' heq with | var _ => rfl
  | fn params body ih =>
    cases hform h h' heq with
    | fn _ hbody hbody' =>
      simp only [outline, Outline.node.injEq, List.cons.injEq, Prod.mk.injEq, true_and,
        and_true] at heq
      rw [ih hbody hbody' heq]
  | letIn bindings body ihbindings ihbody =>
    cases hform h h' heq with
    | letIn hbindings hbindings' hbody hbody' =>
      simp only [outline, Outline.node.injEq, true_and] at heq
      -- only the last child is the body, whatever the names of the others are
      obtain ⟨hinit, hlast⟩ := List.append_inj' heq rfl
      simp only [List.cons.injEq, Prod.mk.injEq, true_and, and_true] at hlast
      rw [outlineBindings_eq_map, outlineBindings_eq_map] at hinit
      have hnames := eq_of_map_eq (fun b hb b' hb' hpairs => by
        obtain ⟨hname, hvalue⟩ := Prod.mk.inj hpairs
        exact Prod.ext hname (ihbindings b hb (hbindings b hb) (hbindings' b' hb') hvalue)) hinit
      rw [hnames, ihbody hbody hbody' hlast]
  | apply f args ihf ihargs =>
    cases hform h h' heq with
    | apply hf hf' hargs hargs' =>
      simp only [outline, Outline.node.injEq, true_and, List.cons.injEq, Prod.mk.injEq] at heq
      have hlist := args_eq_of_outlineArgs
        (fun e he e' he' => ihargs e he (hargs e he) (hargs' e' he')) heq.2
      rw [ihf hf hf' heq.1, hlist]
  | ite c t e ihc iht ihe =>
    cases hform h h' heq with
    | ite hc hc' ht ht' he he' =>
      simp only [outline, Outline.node.injEq, true_and, List.cons.injEq, Prod.mk.injEq,
        and_true] at heq
      rw [ihc hc hc' heq.1, iht ht ht' heq.2.1, ihe he he' heq.2.2]
  | binary op l r ihl ihr =>
    cases hform h h' heq with
    | binary _ hl hl' hr hr' =>
      simp only [outline, Outline.node.injEq, true_and, List.cons.injEq, Prod.mk.injEq,
        and_true] at heq
      rw [ihl hl hl' heq.1, ihr hr hr' heq.2]
  | unknownOp kind symbol l r => cases h
  | foreign thing => cases h

/-- The type names of expressions end in one letter, those of statements in another one. -/
theorem WellFormed.getLast?_type {e : Exp} (h : e.WellFormed) :
    e.outline.type.toList.getLast? = some 'p' := by
  have hkind (kind : OpKind) : kind.nodeType.toList.getLast? = some 'p' := by
    cases kind <;> decide
  cases h with
  | binary op => exact hkind op.kind
  | _ => simp [outline, Outline.type]

end Exp

namespace Stmt

theorem map_snd_outlineList (index : Nat) (stmts : List Stmt) :
    (outlineList index stmts).map Prod.snd = stmts.map outline := by
  induction stmts generalizing index with
  | nil => rfl
  | cons s stmts ih =>
    rw [outlineList, List.map_cons, List.map_cons, ih]

theorem mem_outlineList {index : Nat} {stmts : List Stmt} {c : String × Outline}
    (h : c ∈ outlineList index stmts) :
    ∃ i : Nat, ∃ s ∈ stmts, c = (Text.numeral i, s.outline) := by
  induction stmts generalizing index with
  | nil => cases h
  | cons s stmts ih =>
    rcases List.mem_cons.mp h with rfl | h
    · exact ⟨index, s, List.mem_cons_self, rfl⟩
    · obtain ⟨i, s', hs', hc⟩ := ih h
      exact ⟨i, s', .tail _ hs', hc⟩

/-- The outline of a well-formed statement can be read off its lines. -/
theorem WellFormed.legible {s : Stmt} (h : s.WellFormed) : s.outline.Legible := by
  have hargs {args : List Exp} (hargs : ∀ e ∈ args, e.WellFormed) :
      ∀ c ∈ Exp.outlineArgs 0 args, LegibleName c.1 ∧ c.2.Legible :=
    Exp.legible_outlineArgs fun e he => (hargs e he).legible
  induction h with
  | set hx he =>
    apply Outline.legible_labelText (by decide) (break_not_mem_quoted hx)
    simp +decide [he.legible]
  | print he =>
    apply Outline.legible_bare (by decide)
    simp +decide [he.legible]
  | quit => exact Outline.legible_bare (by decide) (by simp)
  | ite hc _ _ iht ihe =>
    apply Outline.legible_bare (by decide)
    simp +decide [hc.legible, iht, ihe]
  | procedure hf hparams _ ih =>
    apply Outline.legible_labelText (by decide)
    · have hname := break_not_mem_quoted hf
      have hlist := break_not_mem_params hparams
      simp only [String.toList_append, List.mem_append, not_or] at hlist ⊢
      exact ⟨⟨⟨hname, by decide⟩, hlist.1.2⟩, hlist.2⟩
    · simp +decide [ih]
  | call hf hargs' =>
    exact Outline.legible_labelText (by decide) (break_not_mem_quoted hf) (hargs hargs')
  | seq _ _ ih =>
    apply Outline.legible_bare (by decide)
    intro c hc
    obtain ⟨i, s, hs, rfl⟩ := mem_outlineList hc
    exact ⟨legibleName_numeral i, ih s hs⟩

inductive SameForm : Stmt → Stmt → Prop
  | set (x : String) {e e' : Exp} (he : e.WellFormed) (he' : e'.WellFormed) :
      SameForm (.set x e) (.set x e')
  | print {e e' : Exp} (he : e.WellFormed) (he' : e'.WellFormed) : SameForm (.print e) (.print e')
  | quit : SameForm .quit .quit
  | ite {c c' : Exp} {t t' e e' : Stmt} (hc : c.WellFormed) (hc' : c'.WellFormed)
      (ht : t.WellFormed) (ht' : t'.WellFormed) (he : e.WellFormed) (he' : e'.WellFormed) :
      SameForm (.ite c t e) (.ite c' t' e')
  | procedure (f : String) (params : List String) {body body' : Stmt} (hbody : body.WellFormed)
      (hbody' : body'.WellFormed) : SameForm (.procedure f params body) (.procedure f params body')
  | call (f : String) {args args' : List Exp} (hargs : ∀ e ∈ args, e.WellFormed)
      (hargs' : ∀ e ∈ args', e.WellFormed) : SameForm (.call f args) (.call f args')
  | seq {stmts stmts' : List Stmt} (hstmts : ∀ s ∈ stmts, s.WellFormed)
      (hstmts' : ∀ s ∈ stmts', s.WellFormed) : SameForm (.seq stmts) (.seq stmts')

theorem WellFormed.sameForm {s s' : Stmt} (h : s.WellFormed) (h' : s'.WellFormed)
    (htype : s.outline.type = s'.outline.type) (hlabel : s.outline.label = s'.outline.label) :
    SameForm s s' := by
  cases h with
  | set hx he =>
    cases h' with
    | set hx' he' =>
      rw [name_eq_of_quoted hx hx' (labelText_inj.mp hlabel)]
      exact .set _ he he'
    | _ => simp [outline, Outline.type] at htype
  | print he =>
    cases h' with
    | print he' => exact .print he he'
    | _ => simp [outline, Outline.type] at htype
  | quit =>
    cases h' with
    | quit => exact .quit
    | _ => simp [outline, Outline.type] at htype
  | ite hc ht he =>
    cases h' with
    | ite hc' ht' he' => exact .ite hc hc' ht ht' he he'
    | _ => simp [outline, Outline.type] at htype
  | procedure hf hparams hbody =>
    cases h' with
    | procedure hf' hparams' hbody' =>
      obtain ⟨rfl, rfl⟩ := signature_decode hf hf' hparams hparams' (labelText_inj.mp hlabel)
      exact .procedure _ _ hbody hbody'
    | _ => simp [outline, Outline.type] at htype
  | call hf hargs =>
    cases h' with
    | call hf' hargs' =>
      rw [name_eq_of_quoted hf hf' (labelText_inj.mp hlabel)]
      exact .call _ hargs hargs'
    | _ => simp [outline, Outline.type] at htype
  | seq _ hstmts =>
    cases h' with
    | seq _ hstmts' => exact .seq hstmts hstmts'
    | _ => simp [outline, Outline.type] at htype

/-- Well-formed statements with the same outline are the same. -/
theorem WellFormed.eq_of_outline {s s' : Stmt} (h : s.WellFormed) (h' : s'.WellFormed)
    (heq : s.outline = s'.outline) : s = s' := by
  -- type name and label settle the form, so only the children are left to compare
  have hform {s s' : Stmt} (h : s.WellFormed) (h' : s'.WellFormed)
      (heq : s.outline = s'.outline) : SameForm s s' :=
    h.sameForm h' (congrArg Outline.type heq) (congrArg Outline.label heq)
  induction s using Stmt.induction generalizing s' with
  | set x e =>
    cases hform h h' heq with
    | set _ he he' =>
      simp only [outline, Outline.node.injEq, List.cons.injEq, Prod.mk.injEq, true_and,
        and_true] at heq
      rw [he.eq_of_outline he' heq]
  | print e =>
    cases hform h h' heq with
    | print he he' =>
      simp only [outline, Outline.node.injEq, List.cons.injEq, Prod.mk.injEq, true_and,
        and_true] at heq
      rw [he.eq_of_outline he' heq]
  | quit => cases hform h h' heq with | quit => rfl
  | ite c t e iht ihe =>
    cases hform h h' heq with
    | ite hc hc' ht ht' he he' =>
      simp only [outline, Outline.node.injEq, true_and, List.cons.injEq, Prod.mk.injEq,
        and_true] at heq
      rw [hc.eq_of_outline hc' heq.1, iht ht ht' heq.2.1, ihe he he' heq.2.2]
  | procedure f params body ih =>
    cases hform h h' heq with
    | procedure _ _ hbody hbody' =>
      simp only [outline, Outline.node.injEq, List.cons.injEq, Prod.mk.injEq, true_and,
        and_true] at heq
      rw [ih hbody hbody' heq]
  | call f args =>
    cases hform h h' heq with
    | call _ hargs hargs' =>
      simp only [outline, Outline.node.injEq, true_and] at heq
      rw [Exp.args_eq_of_outlineArgs
        (fun e he e' he' => (hargs e he).eq_of_outline (hargs' e' he')) heq]
  | seq stmts ih =>
    cases hform h h' heq with
    | seq hstmts hstmts' =>
      simp only [outline, Outline.node.injEq, true_and] at heq
      have houtlines := congrArg (List.map Prod.snd) heq
      rw [map_snd_outlineList, map_snd_outlineList] at houtlines
      rw [eq_of_map_eq (fun s hs s' hs' => ih s hs (hstmts s hs) (hstmts' s' hs')) houtlines]
  | foreign thing => cases h

theorem WellFormed.getLast?_type {s : Stmt} (h : s.WellFormed) :
    s.outline.type.toList.getLast? = some 't' := by
  cases h <;> simp [outline, Outline.type]

end Stmt

/-- The lines that show a parsed tree determine the tree: two expressions or two statements shown by
the same lines are the same, and no expression is shown as a statement is. -/
theorem eq_of_pretty (nesting nesting' : Nat) (text text' filename filename' : String) :
    (∀ e e', parseExpression nesting text filename = .ok e →
      parseExpression nesting' text' filename' = .ok e' → e.pretty = e'.pretty → e = e') ∧
    (∀ s s', parseStatement nesting text filename = .ok s →
      parseStatement nesting' text' filename' = .ok s' → s.pretty = s'.pretty → s = s') ∧
    (∀ e s, parseExpression nesting text filename = .ok e →
      parseStatement nesting' text' filename' = .ok s → e.pretty ≠ s.pretty) := by
  refine ⟨?_, ?_, ?_⟩
  · intro e e' h h' heq
    have he := wellFormed_of_parseExpression h
    have he' := wellFormed_of_parseExpression h'
    exact he.eq_of_outline he' (he.legible.eq_of_lines he'.legible heq)
  · intro s s' h h' heq
    have hs := wellFormed_of_parseStatement h
    have hs' := wellFormed_of_parseStatement h'
    exact hs.eq_of_outline hs' (hs.legible.eq_of_lines hs'.legible heq)
  · intro e s h h' heq
    have he := wellFormed_of_parseExpression h
    have hs := wellFormed_of_parseStatement h'
    have houtlines := he.legible.eq_of_lines hs.legible heq
    -- the type names of expressions and those of statements end in different letters
    have hlast := he.getLast?_type
    rw [houtlines, hs.getLast?_type] at hlast
    exact absurd hlast (by decide)

/-- A let that binds `body` twice, in two layouts, and the two forms of `if`. -/
theorem eq_of_pretty_bindings : ∃ e e' c s,
    parseExpression 20 "let [body := x; body := left - 2] body end" "" = .ok e ∧
    parseExpression 30 "let[body:=x;body:=(left-2)]body end" "a" = .ok e' ∧
    e.pretty = e'.pretty ∧ e = e' ∧
    parseExpression 20 "if x then left else 1 fi" "" = .ok c ∧
    parseStatement 30 "if x then print left; else quit; fi" "a" = .ok s ∧
    c.pretty ≠ s.pretty := by
  have he : parseExpression 20 "let [body := x; body := left - 2] body end" "" =
      .ok (.letIn [("body", .var "x"), ("body", .binary .sub (.var "left") (.int 2))]
        (.var "body")) := rfl
  have he' : parseExpression 30 "let[body:=x;body:=(left-2)]body end" "a" =
      .ok (.letIn [("body", .var "x"), ("body", .binary .sub (.var "left") (.int 2))]
        (.var "body")) := rfl
  have hc : parseExpression 20 "if x then left else 1 fi" "" =
      .ok (.ite (.var "x") (.var "left") (.int 1)) := rfl
  have hs : parseStatement 30 "if x then print left; else quit; fi" "a" =
      .ok (.ite (.var "x") (.print (.var "left")) .quit) := rfl
  refine ⟨_, _, _, _, he, he', rfl, ?_, hc, hs, ?_⟩
  · exact (eq_of_pretty 20 30 _ _ "" "a").1 _ _ he he' rfl
  · exact (eq_of_pretty 20 30 _ _ "" "a").2.2 _ _ hc hs

end ImpLang
