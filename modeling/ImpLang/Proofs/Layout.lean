import ImpLang.Proofs.LongLiteral
import ImpLang.Proofs.Parallel

/-! Layout does not matter. Two texts with the same pieces between their white space are read by the
same steps: each token stands inside one piece, and behind it the same pieces are left. Only the
offsets differ, so the answers agree up to the wording of the reports. -/
namespace ImpLang

open Token ImpLang.Parser

namespace Text

/-- The maximal runs of a text without white space. -/
def pieces (cs : List Char) : List (List Char) :=
  (cs.splitOnP Cursor.isSeparator).filter fun piece => !piece.isEmpty

def front (cs : List Char) : List Char :=
  cs.takeWhile fun ch => !Cursor.isSeparator ch

def behind (cs : List Char) : List Char :=
  cs.dropWhile fun ch => !Cursor.isSeparator ch

variable {cs ds w rest : List Char} {ch : Char}

theorem pieces_append_separator (hch : Cursor.isSeparator ch = true) (cs ds : List Char) :
    pieces (cs ++ ch :: ds) = pieces cs ++ pieces ds := by
  unfold pieces
  rw [List.splitOnP_append_cons cs ds hch, List.filter_append]

theorem pieces_cons_separator (hch : Cursor.isSeparator ch = true) (cs : List Char) :
    pieces (ch :: cs) = pieces cs :=
  pieces_append_separator hch [] cs

theorem pieces_blanks_append {blanks : List Char}
    (hb : ∀ ch ∈ blanks, Cursor.isSeparator ch = true) (cs : List Char) :
    pieces (blanks ++ cs) = pieces cs := by
  induction blanks with
  | nil => rfl
  | cons ch blanks ih =>
    obtain ⟨hch, hblanks⟩ := List.forall_mem_cons.mp hb
    rw [List.cons_append, pieces_cons_separator hch, ih hblanks]

theorem pieces_of_plain (hw : ∀ ch ∈ w, Cursor.isSeparator ch = false) (hne : w ≠ []) :
    pieces w = [w] := by
  unfold pieces
  rw [List.splitOnP_eq_singleton hw]
  simp [hne]

theorem front_plain (cs : List Char) : ∀ ch ∈ front cs, Cursor.isSeparator ch = false := by
  intro ch hch
  simpa using List.mem_takeWhile_imp hch

theorem front_append_behind (cs : List Char) : front cs ++ behind cs = cs :=
  List.takeWhile_append_dropWhile

/-- The front of a text is its first piece, unless it is empty. -/
theorem pieces_eq (cs : List Char) :
    pieces cs = (if front cs = [] then [] else [front cs]) ++ pieces (behind cs) := by
  by_cases hfront : front cs = []
  · have hcs := front_append_behind cs
    rw [hfront, List.nil_append] at hcs
    rw [hcs, if_pos hfront, List.nil_append]
  · rw [if_neg hfront]
    cases hbehind : behind cs with
    | nil =>
      have hcs := front_append_behind cs
      rw [hbehind, List.append_nil] at hcs
      have hpiece := pieces_of_plain (front_plain cs) hfront
      rw [hcs] at hpiece ⊢
      exact hpiece
    | cons ch ds =>
      -- the character that ends the front is white space
      have hch : Cursor.isSeparator ch = true := by
        have hhead := head?_dropWhile_any (fun ch => !Cursor.isSeparator ch) cs
        rw [show cs.dropWhile _ = behind cs from rfl, hbehind] at hhead
        simpa using hhead
      calc pieces cs = pieces (front cs ++ ch :: ds) := by rw [← hbehind, front_append_behind]
        _ = pieces (front cs) ++ pieces ds := pieces_append_separator hch _ _
        _ = [front cs] ++ pieces (ch :: ds) := by
          rw [pieces_of_plain (front_plain cs) hfront, pieces_cons_separator hch]

theorem pieces_congr (hfront : front cs = front ds)
    (hbehind : pieces (behind cs) = pieces (behind ds)) : pieces cs = pieces ds := by
  rw [pieces_eq cs, pieces_eq ds, hfront, hbehind]

theorem pieces_behind_congr (hfront : front cs = front ds) (h : pieces cs = pieces ds) :
    pieces (behind cs) = pieces (behind ds) := by
  rw [pieces_eq cs, pieces_eq ds, hfront] at h
  exact List.append_cancel_left h

theorem eq_nil_of_front (hcs : cs.head?.any Cursor.isSeparator = false) (hfront : front cs = []) :
    cs = [] := by
  cases cs with
  | nil => rfl
  | cons ch cs =>
    rw [List.head?_cons, Option.any_some] at hcs
    simp [front, hcs] at hfront

/-- Texts that start with no white space have the same front if they have the same pieces. -/
theorem front_eq_of_pieces (hcs : cs.head?.any Cursor.isSeparator = false)
    (hds : ds.head?.any Cursor.isSeparator = false) (h : pieces cs = pieces ds) :
    front cs = front ds := by
  have hnil {cs : List Char} (hcs : cs.head?.any Cursor.isSeparator = false)
      (hfront : front cs = []) : pieces cs = [] := by
    rw [eq_nil_of_front hcs hfront]
    rfl
  have hcons {cs : List Char} (hfront : front cs ≠ []) : (pieces cs).head? = some (front cs) := by
    rw [pieces_eq cs, if_neg hfront]
    rfl
  by_cases hc : front cs = []
  · by_contra hne
    have hd : front ds ≠ [] := fun hd => hne (hc.trans hd.symm)
    have hhead := hcons hd
    rw [← h, hnil hcs hc] at hhead
    cases hhead
  · by_cases hd : front ds = []
    · have hhead := hcons hc
      rw [h, hnil hds hd] at hhead
      cases hhead
    · have hheads := hcons hc
      rw [h, hcons hd] at hheads
      exact (Option.some.inj hheads).symm

theorem front_append (hw : ∀ ch ∈ w, Cursor.isSeparator ch = false) :
    front (w ++ rest) = w ++ front rest :=
  List.takeWhile_append_of_pos fun ch hch => by simp [hw ch hch]

theorem behind_append (hw : ∀ ch ∈ w, Cursor.isSeparator ch = false) :
    behind (w ++ rest) = behind rest :=
  List.dropWhile_append_of_pos fun ch hch => by simp [hw ch hch]

/-- A test that no white space passes looks only at the front. -/
theorem takeWhile_front {p : Char → Bool} (hp : ∀ ch, Cursor.isSeparator ch = true → p ch = false)
    (cs : List Char) : (front cs).takeWhile p = cs.takeWhile p := by
  unfold front
  rw [List.takeWhile_takeWhile]
  congr 1
  funext ch
  cases hs : Cursor.isSeparator ch with
  | true => simp [hp ch hs]
  | false => simp

theorem head?_front_any {p : Char → Bool} (hp : ∀ ch, Cursor.isSeparator ch = true → p ch = false)
    (cs : List Char) : (front cs).head?.any p = cs.head?.any p := by
  cases cs with
  | nil => rfl
  | cons ch cs =>
    cases hs : Cursor.isSeparator ch with
    | true => simp [front, hs, hp ch hs]
    | false => simp [front, hs]

theorem front_expandTabsFrom (column : Nat) (cs : List Char) :
    front (expandTabsFrom column cs) = front cs := by
  induction cs generalizing column with
  | nil => rfl
  | cons ch cs ih =>
    by_cases hs : Cursor.isSeparator ch = true
    · have hhead := any_head?_expandTabsFrom (p := fun ch => !Cursor.isSeparator ch) rfl column
        (ch :: cs)
      rw [List.head?_cons, Option.any_some, hs] at hhead
      have hempty : front (ch :: cs) = [] := by simp [front, hs]
      rw [hempty]
      exact takeWhile_eq_nil_of_head hhead
    · have hline : (ch = '\n' || ch = '\r') = false := by
        simp only [Cursor.isSeparator, Bool.or_eq_true, not_or] at hs
        simp [hs.1.1.2, hs.2]
      have htab : ch ≠ '\t' := by
        intro heq
        rw [heq] at hs
        exact hs rfl
      have hkeeps (cs : List Char) : front (ch :: cs) = ch :: front cs := by simp [front, hs]
      rw [expandTabsFrom, if_neg htab, hline]
      simp only [Bool.false_eq_true, ↓reduceIte]
      rw [hkeeps, hkeeps, ih]

theorem pieces_expandTabsFrom (column : Nat) (cs : List Char) :
    pieces (expandTabsFrom column cs) = pieces cs := by
  induction cs generalizing column with
  | nil => rfl
  | cons ch cs ih =>
    have hcons (column : Nat) : pieces (ch :: expandTabsFrom column cs) = pieces (ch :: cs) := by
      cases hs : Cursor.isSeparator ch with
      | true => rw [pieces_cons_separator hs, pieces_cons_separator hs, ih]
      | false =>
        have hplain : ∀ ch' ∈ [ch], Cursor.isSeparator ch' = false := by simp [hs]
        have hfront := front_expandTabsFrom column cs
        apply pieces_congr
        · change front ([ch] ++ _) = front ([ch] ++ _)
          rw [front_append hplain, front_append hplain, hfront]
        · change pieces (behind ([ch] ++ _)) = pieces (behind ([ch] ++ _))
          rw [behind_append hplain, behind_append hplain]
          exact pieces_behind_congr hfront (ih column)
    unfold expandTabsFrom
    split_ifs with htab
    · -- a tab becomes spaces, which separate pieces as the tab does
      have hspaces : ∀ ch' ∈ List.replicate (tabWidth - column % tabWidth) ' ',
          Cursor.isSeparator ch' = true := by
        intro ch' hmem
        rw [List.eq_of_mem_replicate hmem]
        rfl
      dsimp only
      rw [pieces_blanks_append hspaces, ih, htab]
      exact (pieces_cons_separator rfl cs).symm
    · exact hcons 0
    · exact hcons (column + 1)

end Text

open Text

namespace Cursor

variable {c d : Cursor} {w rest : List Char}

theorem pieces_skip (c : Cursor) : pieces c.skip.rest = pieces c.rest := by
  obtain ⟨blanks, hc, hb, -⟩ := c.exists_blanks
  rw [hc]
  exact (pieces_blanks_append hb _).symm

/-- Behind white space, or at the start of a text, no word goes on. -/
theorem skip_previous_of_front (h : front c.rest = []) (hne : c.rest ≠ []) :
    c.skip.previous.any isWordChar = false := by
  obtain ⟨blanks, hc, hb, hr, hprevious⟩ := c.exists_blanks
  have hblanks : blanks ≠ [] := by
    intro hnil
    rw [hnil, List.nil_append] at hc
    rw [← hc] at hr
    exact hne (eq_nil_of_front hr h)
  rw [hprevious, List.getLast?_eq_some_getLast hblanks, Option.some_or, Option.any_some]
  exact isWordChar_eq_false_of_isSeparator (hb _ (List.getLast_mem hblanks))

theorem skip_previous_of_none (h : c.previous = none) :
    c.skip.previous.any isWordChar = false := by
  obtain ⟨blanks, -, hb, -, hprevious⟩ := c.exists_blanks
  rw [hprevious, h, Option.or_none]
  cases hlast : blanks.getLast? with
  | none => rfl
  | some ch => exact isWordChar_eq_false_of_isSeparator (hb ch (List.mem_of_getLast? hlast))

theorem skip_of_front (h : front c.rest ≠ []) : c.skip.previous = c.previous := by
  have hhead : c.rest.head?.any isSeparator = false := by
    cases hcs : c.rest with
    | nil => rfl
    | cons ch cs =>
      cases hs : isSeparator ch with
      | true => simp [front, hcs, hs] at h
      | false => simp [hs]
  have hblanks : ∀ ch ∈ ([] : List Char), isSeparator ch = true := by simp
  have hskip : c.skip = ⟨c.position + 0, c.previous, c.rest⟩ := skip_eq rfl hblanks hhead
  rw [hskip]

/-- The same pieces stand before two cursors, and if there are any, a word goes on into the first of
them at both cursors or at neither. -/
structure Alike (c d : Cursor) : Prop where
  pieces : pieces c.rest = pieces d.rest
  previous : Text.pieces c.rest ≠ [] →
    c.skip.previous.any isWordChar = d.skip.previous.any isWordChar

namespace Alike

theorem symm (h : Alike c d) : Alike d c :=
  ⟨h.pieces.symm, fun hne => (h.previous (h.pieces ▸ hne)).symm⟩

theorem start (text text' : String) (h : Text.pieces text.toList = Text.pieces text'.toList) :
    Alike (Cursor.start (expandTabs text.toList)) (Cursor.start (expandTabs text'.toList)) := by
  constructor
  · simp only [rest_start, expandTabs, pieces_expandTabsFrom, h]
  · intro _
    rw [skip_previous_of_none rfl, skip_previous_of_none rfl]

theorem of_front (hprevious : c.previous = d.previous) (hfront : front c.rest = front d.rest)
    (hbehind : Text.pieces (behind c.rest) = Text.pieces (behind d.rest)) : Alike c d := by
  have hpieces := pieces_congr hfront hbehind
  refine ⟨hpieces, fun hne => ?_⟩
  have hnil {cs : List Char} (hcs : Text.pieces cs ≠ []) : cs ≠ [] := fun h => hcs (by rw [h]; rfl)
  by_cases h : front c.rest = []
  · rw [skip_previous_of_front h (hnil hne),
      skip_previous_of_front (hfront ▸ h) (hnil (hpieces ▸ hne))]
  · rw [skip_of_front h, skip_of_front (hfront ▸ h), hprevious]

theorem front_skip (h : Alike c d) : front c.skip.rest = front d.skip.rest := by
  obtain ⟨-, -, -, hc, -⟩ := c.exists_blanks
  obtain ⟨-, -, -, hd, -⟩ := d.exists_blanks
  apply front_eq_of_pieces hc hd
  rw [pieces_skip, pieces_skip, h.pieces]

/-- What is read at one of two cursors stands at the other, and behind it they are alike again. -/
theorem advance (h : Alike c d) (hw : ∀ ch ∈ w, isSeparator ch = false) (hne : w ≠ [])
    (hc : c.skip.rest = w ++ rest) : ∃ rest', d.skip.rest = w ++ rest' ∧ front rest' = front rest ∧
      c.skip.previous.any isWordChar = d.skip.previous.any isWordChar ∧
      Alike (c.skip.advance w.length) (d.skip.advance w.length) := by
  have hpieces : Text.pieces c.skip.rest = Text.pieces d.skip.rest := by
    rw [pieces_skip, pieces_skip, h.pieces]
  have hbehind := pieces_behind_congr h.front_skip hpieces
  have hfront := h.front_skip
  rw [hc, front_append hw] at hfront
  -- the front at the other cursor is the same, so it starts with what is read as well
  have hd : d.skip.rest = w ++ (front rest ++ behind d.skip.rest) := by
    rw [← List.append_assoc, hfront, front_append_behind]
  have hrest : front (front rest ++ behind d.skip.rest) = front rest := by
    rw [hd, front_append hw] at hfront
    exact (List.append_cancel_left hfront).symm
  have hsome : Text.pieces c.rest ≠ [] := by
    rw [← pieces_skip, pieces_eq, if_neg (by simp [hc, front_append hw, hne])]
    exact List.cons_ne_nil _ _
  refine ⟨_, hd, hrest, h.previous hsome, ?_⟩
  rw [advance_eq hc hne, advance_eq hd hne]
  refine of_front rfl hrest.symm ?_
  rw [hd, behind_append hw, hc, behind_append hw] at hbehind
  exact hbehind

theorem takeWhile (h : Alike c d) {p : Char → Bool}
    (hp : ∀ ch, isSeparator ch = true → p ch = false) :
    c.skip.rest.takeWhile p = d.skip.rest.takeWhile p := by
  rw [← takeWhile_front hp, h.front_skip, takeWhile_front hp]

end Alike

end Cursor

/-- Two readings of texts with the same pieces. Their reports may differ in any way. -/
def Comparison.layout : Comparison where
  cursors := Cursor.Alike
  reports _ _ := True
  renamed _ _ := trivial
  chosen _ _ := trivial

namespace Token

variable {α : Type} {p : Parser α} {c d : Cursor}

/-- A token that is read at one of two cursors that are alike is read at the other. -/
def Transfers (p : Parser α) : Prop :=
  ∀ ⦃c d a c'⦄, Cursor.Alike c d → p c = .ok (a, c') → ∃ d', p d = .ok (a, d') ∧ Cursor.Alike c' d'

theorem Transfers.parallel (h : Transfers p) (htoken : IsToken p) : Parallel .layout p p := by
  intro c d hcd
  cases hc : p c with
  | ok r =>
    obtain ⟨a, c'⟩ := r
    obtain ⟨d', hd, halike⟩ := h hcd hc
    rw [hd]
    exact .ok halike
  | error e =>
    cases hd : p d with
    | ok r =>
      obtain ⟨a, d'⟩ := r
      obtain ⟨c', hc', -⟩ := h hcd.symm hd
      rw [hc] at hc'
      cases hc'
    | error e' =>
      obtain ⟨offset, message, rfl⟩ := htoken.fails hc
      obtain ⟨offset', message', rfl⟩ := htoken.fails hd
      exact .soft trivial

theorem separator_not_isWordChar {q : Char → Bool} (hq : ∀ ch, q ch = true → isWordChar ch = true)
    (ch : Char) (hch : Cursor.isSeparator ch = true) : q ch = false := by
  by_contra h
  have hword := hq ch (by simpa using h)
  rw [isWordChar_eq_false_of_isSeparator hch] at hword
  exact Bool.noConfusion hword

theorem transfers_literal {s : String} (hs : s ∈ symbols) : Transfers (literal s) := by
  intro c d _ c' hcd h
  obtain ⟨⟨rest, hr⟩, rfl⟩ := literal_eq_ok_iff.mp h
  have hplain := fun ch hch => (isWordChar_eq_false_of_mem_symbols hs ch hch).2
  obtain ⟨rest', hr', -, -, halike⟩ := hcd.advance hplain (ne_nil_of_mem_symbols hs) hr
  rw [String.length_toList] at halike
  exact ⟨_, literal_eq_ok_iff.mpr ⟨⟨rest', hr'⟩, rfl⟩, halike⟩

theorem transfers_keyword {w : String} (hw : w ∈ reservedWords) : Transfers (keyword w) := by
  intro c d _ c' hcd h
  obtain ⟨⟨rest, hr, hbefore, hafter⟩, rfl⟩ := keyword_eq_ok_iff.mp h
  have hplain : ∀ ch ∈ w.toList, Cursor.isSeparator ch = false :=
    Lexeme.Proper.not_separator (t := .keyword w) hw
  obtain ⟨rest', hr', hfront, hprevious, halike⟩ :=
    hcd.advance hplain (ne_nil_of_mem_reservedWords hw) hr
  have hword := separator_not_isWordChar (q := isWordChar) fun _ h => h
  rw [← head?_front_any hword, ← hfront, head?_front_any hword] at hafter
  rw [String.length_toList] at halike
  exact ⟨_, keyword_eq_ok_iff.mpr ⟨⟨rest', hr', hprevious ▸ hbefore, hafter⟩, rfl⟩, halike⟩

theorem atReserved_of_alike (h : Cursor.Alike c d) (hc : atReserved c = true) :
    atReserved d = true := by
  obtain ⟨w, hw, c', hk⟩ := atReserved_iff.mp hc
  obtain ⟨d', hk', -⟩ := transfers_keyword hw h hk
  exact atReserved_iff.mpr ⟨w, hw, d', hk'⟩

/-- A token that reads a maximal run of characters of words reads the same run. -/
theorem advance_run (h : Cursor.Alike c d) {q : Char → Bool}
    (hq : ∀ ch, q ch = true → isWordChar ch = true) {w : List Char}
    (hw : c.skip.rest.takeWhile q = w) (hne : w ≠ []) :
    d.skip.rest.takeWhile q = w ∧
      Cursor.Alike (c.skip.advance w.length) (d.skip.advance w.length) := by
  have hplain : ∀ ch ∈ w, Cursor.isSeparator ch = false := by
    intro ch hch
    rw [← hw] at hch
    by_contra hs
    have hfalse := separator_not_isWordChar hq ch (by simpa using hs)
    rw [List.mem_takeWhile_imp hch] at hfalse
    exact Bool.noConfusion hfalse
  have hc : c.skip.rest = w ++ c.skip.rest.dropWhile q := by
    rw [← hw, List.takeWhile_append_dropWhile]
  obtain ⟨-, -, -, -, halike⟩ := h.advance hplain hne hc
  exact ⟨h.takeWhile (separator_not_isWordChar hq) ▸ hw, halike⟩

theorem transfers_identifier : Transfers identifier := by
  intro c d x c' hcd h
  obtain ⟨⟨hres, hrun, hne⟩, rfl⟩ := identifier_eq_ok_iff.mp h
  have hres' : atReserved d = false := by
    rw [Bool.eq_false_iff]
    intro hd
    rw [atReserved_of_alike hcd.symm hd] at hres
    exact Bool.noConfusion hres
  obtain ⟨hrun', halike⟩ := advance_run hcd (fun _ => isWordChar_of_isAlpha) hrun hne
  rw [String.length_toList] at halike
  exact ⟨_, identifier_eq_ok_iff.mpr ⟨⟨hres', hrun', hne⟩, rfl⟩, halike⟩

theorem transfers_integer : Transfers integer := by
  intro c d ds c' hcd h
  obtain ⟨⟨hrun, hne⟩, rfl⟩ := integer_eq_ok_iff.mp h
  obtain ⟨hrun', halike⟩ := advance_run hcd (fun _ => isWordChar_of_isAsciiDigit) hrun hne
  exact ⟨_, integer_eq_ok_iff.mpr ⟨⟨hrun', hne⟩, rfl⟩, halike⟩

theorem isToken_endOfText : IsToken endOfText := by
  constructor
  · intro c u c' h
    exact ⟨0, (endOfText_eq_ok_iff.mp h).2⟩
  · intro c e h
    exact ⟨_, _, endOfText_eq_error h⟩

theorem transfers_endOfText : Transfers endOfText := by
  intro c d _ c' hcd h
  obtain ⟨hc, rfl⟩ := endOfText_eq_ok_iff.mp h
  have hd : d.skip.rest = [] := by
    obtain ⟨-, -, -, hhead, -⟩ := d.exists_blanks
    apply eq_nil_of_front hhead
    rw [← hcd.front_skip, hc]
    rfl
  refine ⟨d.skip, endOfText_eq_ok_iff.mpr ⟨hd, rfl⟩, by rw [hc, hd], fun hne => ?_⟩
  -- there is no piece left before which anything could stand
  rw [hc] at hne
  exact absurd rfl hne

theorem parallel_intLiteral : Parallel .layout Grammar.intLiteral Grammar.intLiteral := by
  refine (transfers_integer.parallel isToken_integer).bind fun ds => ?_
  split_ifs
  · exact .pure _
  · exact fun _ _ _ => .tooLong _

theorem parallel_comparisonOp (hsymbol : Parallel .layout comparisonSymbol comparisonSymbol) :
    Parallel .layout comparisonOp comparisonOp := by
  intro c d hcd
  have h := hsymbol hcd
  unfold comparisonOp
  generalize comparisonSymbol c = answer, comparisonSymbol d = answer' at h
  cases h with
  | limit => exact .limit
  | ok hd => exact .ok hd
  | soft hr => exact .soft trivial
  | fatal hr => exact .fatal trivial
  | tooLong digits => exact .tooLong digits

theorem tokens_layout : Comparison.layout.Tokens where
  literal s hs := (transfers_literal hs).parallel (isToken_literal s)
  keyword w hw := (transfers_keyword hw).parallel (isToken_keyword w)
  identifier := transfers_identifier.parallel isToken_identifier
  intLiteral := parallel_intLiteral
  comparisonOp := by
    have hop (op : Op) (hop : op.symbol ∈ symbols) :
        Parallel .layout (symbolOp op) (symbolOp op) :=
      ((transfers_literal hop).parallel (isToken_literal _)).bind fun _ => .pure op
    apply parallel_comparisonOp
    exact .firstOf (hop .le (by decide)) (.cons (hop .ge (by decide)) (.cons (hop .ne (by decide))
      (.cons (hop .eq (by decide)) (.cons (hop .lt (by decide)) (.cons (hop .gt (by decide))
      .nil)))))

end Token

/-- Two answers of the parser are of one kind: the same tree or the same kind of failure. -/
structure SameKind {α : Type} (filename : String) (x y : Except Fault α) : Prop where
  accepted : ∀ a, x = .ok a ↔ y = .ok a
  rejected : (∃ report, x = .error (.rejected report)) ↔ ∃ report, y = .error (.rejected report)
  nestedTooDeeply : x = .error (.rejected (.nestedTooDeeply filename)) ↔
    y = .error (.rejected (.nestedTooDeeply filename))
  literalTooLong : ∀ digits,
    x = .error (.literalTooLong digits) ↔ y = .error (.literalTooLong digits)

theorem SameKind.refl {α : Type} {filename : String} (x : Except Fault α) : SameKind filename x x :=
  ⟨fun _ => .rfl, .rfl, .rfl, fun _ => .rfl⟩

theorem Parser.Parallel.sameKind {α : Type} {p : Parser α} (h : Parallel .layout p p)
    {text text' : String} (hpieces : pieces text.toList = pieces text'.toList)
    (filename : String) :
    SameKind filename (p.parseAll text filename) (p.parseAll text' filename) := by
  have hwhole : Parallel .layout (do let a ← p; endOfText; return a : Parser α)
      (do let a ← p; endOfText; return a) :=
    h.bind fun a => (transfers_endOfText.parallel isToken_endOfText).bind fun _ => .pure a
  have hagree := hwhole (Cursor.Alike.start text text' hpieces)
  have hagree' := hwhole (Cursor.Alike.start text' text hpieces.symm)
  have hreport (offset : Nat) (message : String) (text : String) (cs : List Char) :
      Report.ofFailure text cs filename offset message ≠ .nestedTooDeeply filename := by
    simp [Report.ofFailure, Report.nestedTooDeeply]
  unfold Parser.parseAll Parser.run
  dsimp only
  generalize (do let a ← p; endOfText; return a : Parser α) = whole at hagree hagree'
  generalize whole (Cursor.start (expandTabs text.toList)) = answer,
    whole (Cursor.start (expandTabs text'.toList)) = answer' at hagree hagree'
  cases hagree with
  | limit =>
    -- the reading that was stopped by the limit agrees with everything, but so does the other
    cases hagree'
    exact .refl _
  | ok hd => exact .refl _
  | tooLong digits => exact .refl _
  | soft hr => constructor <;> simp [hreport]
  | fatal hr => constructor <;> simp [hreport]

/-- Layout does not matter: texts with the same pieces between their white space are both accepted,
and read as the same tree, or both rejected for the same kind of reason. -/
theorem parse_sameKind_of_pieces (nesting : Nat) (text text' filename : String)
    (hpieces : pieces text.toList = pieces text'.toList) :
    SameKind filename (parseStatement nesting text filename)
      (parseStatement nesting text' filename) ∧
    SameKind filename (parseExpression nesting text filename)
      (parseExpression nesting text' filename) :=
  ⟨(Grammar.parallel_statement tokens_layout le_rfl).sameKind hpieces filename,
    (Grammar.parallel_expression tokens_layout le_rfl).sameKind hpieces filename⟩

/-- Two layouts of one statement. -/
theorem parse_sameKind_of_pieces_indented :
    pieces "do print 8/ 2/=a; quit; od;".toList =
      pieces "\n do\n\tprint   8/\t2/=a;\r\n\tquit;\r\nod;\t\n".toList ∧
    parseStatement 9 "\n do\n\tprint   8/\t2/=a;\r\n\tquit;\r\nod;\t\n" standardInput =
      .ok (.seq [.print (.binary .ne (.binary .div (.int 8) (.int 2)) (.var "a")), .quit]) := by
  have hpieces : pieces "do print 8/ 2/=a; quit; od;".toList =
      pieces "\n do\n\tprint   8/\t2/=a;\r\n\tquit;\r\nod;\t\n".toList := by decide
  refine ⟨hpieces, ?_⟩
  exact ((parse_sameKind_of_pieces 9 _ _ standardInput hpieces).1.accepted _).mp rfl

end ImpLang
