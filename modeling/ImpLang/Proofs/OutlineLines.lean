import ImpLang.Outline
import ImpLang.Proofs.Decoding

/-! The lines of an outline determine the outline. A child stands one step further to the right than
its parent, so the lines of a node end where a line starts further to the left, and its children
are told apart by the lines that start at their own step. -/
namespace ImpLang

def LegibleName (x : String) : Prop :=
  x.toList ≠ [] ∧ ∀ ch ∈ x.toList, Token.isWordChar ch = true

instance (x : String) : Decidable (LegibleName x) :=
  decidable_of_iff (x.toList ≠ [] ∧ x.toList.all Token.isWordChar = true)
    (by simp only [LegibleName, List.all_eq_true])

namespace Outline

/-- A label is one line that starts with the type name, and every child has a name. -/
inductive Legible : Outline → Prop
  | node {type label : String} {children : List (String × Outline)}
      (htype : label.toList.takeWhile Char.isAlpha = type.toList) (hline : '\n' ∉ label.toList)
      (hnames : ∀ c ∈ children, LegibleName c.1) (hchildren : ∀ c ∈ children, Legible c.2) :
      Legible (.node type label children)

/-- The lines of an outline behind its indentation and its name. -/
def block (step : Nat) (o : Outline) : List Char :=
  o.label.toList ++ '\n' :: (prettyChildren ((step + 1 : Nat) : Int) o.children).toList

def margin (step : Nat) : List Char :=
  List.replicate (2 * step) ' '

def Outdented (step : Nat) (rest : List Char) : Prop :=
  ¬ margin step <+: rest

theorem toList_pretty (step : Nat) (name : String) (o : Outline) :
    (o.pretty step name).toList =
      margin step ++ ((if name = "" then "" else name ++ ": ").toList ++ o.block step) := by
  have hspaces : (Text.spaces (2 * (step : Int))).toList = margin step := by
    unfold Text.spaces margin
    rw [String.toList_ofList, show (2 * (step : Int)).toNat = 2 * step by omega]
  cases o with
  | node type label children =>
    simp only [pretty, String.toList_append, hspaces, List.append_assoc]
    rfl

theorem toList_prettyChildren_cons (step : Nat) {c : String × Outline} (hname : LegibleName c.1)
    (cs : List (String × Outline)) : (prettyChildren step (c :: cs)).toList =
      margin step ++ (c.1.toList ++ ':' :: ' ' ::
        (c.2.block step ++ (prettyChildren step cs).toList)) := by
  have hne : c.1 ≠ "" := by
    intro h
    apply hname.1
    rw [h]
    rfl
  rw [prettyChildren, String.toList_append, toList_pretty, if_neg hne]
  simp

theorem margin_succ (step : Nat) : margin (step + 1) = margin step ++ [' ', ' '] := by
  unfold margin
  rw [Nat.mul_succ, List.replicate_add]
  rfl

theorem Outdented.succ {step : Nat} {rest : List Char} (h : Outdented step rest) :
    Outdented (step + 1) rest := by
  intro hprefix
  apply h
  rw [margin_succ] at hprefix
  exact (List.prefix_append _ _).trans hprefix

/-- What follows a child, another child or the end of them all, starts further to the left than the
children of the child do. -/
theorem outdented_prettyChildren {step : Nat} {cs : List (String × Outline)}
    (hnames : ∀ c ∈ cs, LegibleName c.1) {rest : List Char} (hrest : Outdented step rest) :
    Outdented (step + 1) ((prettyChildren step cs).toList ++ rest) := by
  cases cs with
  | nil => exact hrest.succ
  | cons c cs =>
    -- a name has no blank in it, so that the margin of a child is no longer than its step
    obtain ⟨hne, hword⟩ := hnames c List.mem_cons_self
    obtain ⟨ch, chs, hname⟩ := List.exists_cons_of_ne_nil hne
    intro hprefix
    rw [toList_prettyChildren_cons step ⟨hne, hword⟩, margin_succ, List.append_assoc,
      List.prefix_append_right_inj, hname] at hprefix
    obtain ⟨hspace, -⟩ := List.cons_prefix_cons.mp hprefix
    have hch := hword ch (by simp [hname])
    rw [← hspace] at hch
    exact absurd hch (by decide)

theorem not_outdented_cons (step : Nat) {c : String × Outline} (hname : LegibleName c.1)
    (cs : List (String × Outline)) (rest : List Char) :
    ¬ Outdented step ((prettyChildren step (c :: cs)).toList ++ rest) := by
  intro h
  apply h
  rw [toList_prettyChildren_cons step hname, List.append_assoc]
  exact List.prefix_append _ _

/-- The lines of the outline are told from those of any other, wherever what follows starts further
to the left than its children. -/
def Told (o : Outline) : Prop :=
  ∀ ⦃o' : Outline⦄ ⦃step : Nat⦄ ⦃rest rest' : List Char⦄, o'.Legible → Outdented (step + 1) rest →
    Outdented (step + 1) rest' → o.block step ++ rest = o'.block step ++ rest' →
    o = o' ∧ rest = rest'

theorem prettyChildren_decode {step : Nat} {cs cs' : List (String × Outline)}
    (htold : ∀ c ∈ cs, c.2.Told) (hnames : ∀ c ∈ cs, LegibleName c.1)
    (hnames' : ∀ c ∈ cs', LegibleName c.1) (hlegible' : ∀ c ∈ cs', c.2.Legible)
    {rest rest' : List Char} (hrest : Outdented step rest) (hrest' : Outdented step rest')
    (h : (prettyChildren step cs).toList ++ rest = (prettyChildren step cs').toList ++ rest') :
    cs = cs' ∧ rest = rest' := by
  induction cs generalizing cs' with
  | nil =>
    cases cs' with
    | nil => exact ⟨rfl, h⟩
    | cons c' cs' =>
      have hcontra := not_outdented_cons step (hnames' c' List.mem_cons_self) cs' rest'
      rw [← h] at hcontra
      exact absurd hrest hcontra
  | cons c cs ih =>
    obtain ⟨hname, hnames⟩ := List.forall_mem_cons.mp hnames
    cases cs' with
    | nil =>
      have hcontra := not_outdented_cons step hname cs rest
      rw [h] at hcontra
      exact absurd hrest' hcontra
    | cons c' cs' =>
      obtain ⟨hname', hnames'⟩ := List.forall_mem_cons.mp hnames'
      obtain ⟨hc', hlegible'⟩ := List.forall_mem_cons.mp hlegible'
      obtain ⟨hc, htold⟩ := List.forall_mem_cons.mp htold
      rw [toList_prettyChildren_cons step hname, toList_prettyChildren_cons step hname'] at h
      simp only [List.append_assoc, List.append_cancel_left_eq, List.cons_append] at h
      -- the name ends at the first colon, and the lines of the child where the next child starts
      have hplain {x : String} (hx : LegibleName x) : ':' ∉ x.toList := by
        intro hmem
        exact absurd (hx.2 ':' hmem) (by decide)
      obtain ⟨hnames_eq, h⟩ := eq_of_append_cons (hplain hname) (hplain hname') h
      have hblocks := (List.cons.inj h).2
      obtain ⟨hchild, h⟩ := hc hc' (outdented_prettyChildren hnames hrest)
        (outdented_prettyChildren hnames' hrest') hblocks
      obtain ⟨rfl, hrests⟩ := ih htold hnames hnames' hlegible' h
      have hc_eq : c = c' := Prod.ext (String.toList_injective hnames_eq) hchild
      exact ⟨by rw [hc_eq], hrests⟩

theorem Legible.told {o : Outline} (h : o.Legible) : o.Told := by
  induction h with
  | @node type label children htype hline hnames _ ih =>
    intro o' step rest rest' h' hrest hrest' heq
    cases h' with
    | @node type' label' children' htype' hline' hnames' hchildren' =>
      unfold block at heq
      simp only [List.append_assoc, List.cons_append] at heq
      -- the label ends at the first line break, and the type name at its first other character
      obtain ⟨hlabel, heq⟩ := eq_of_append_cons hline hline' heq
      obtain rfl := String.toList_injective hlabel
      obtain rfl : type = type' := String.toList_injective (htype.symm.trans htype')
      obtain ⟨rfl, hrests⟩ := prettyChildren_decode ih hnames hnames' hchildren' hrest hrest'
        heq
      exact ⟨rfl, hrests⟩

/-- Legible outlines with the same lines are the same. -/
theorem Legible.eq_of_lines {o o' : Outline} (h : o.Legible) (h' : o'.Legible)
    (heq : o.pretty 0 "" = o'.pretty 0 "") : o = o' := by
  have hend : Outdented 1 [] := by
    intro hprefix
    exact absurd (List.prefix_nil.mp hprefix) (by decide)
  have hlists := congrArg String.toList heq
  have hroot (o : Outline) : (o.pretty 0 "").toList = o.block 0 := toList_pretty 0 "" o
  rw [hroot, hroot] at hlists
  exact (h.told h' hend hend (by rw [hlists])).1

end Outline

end ImpLang
