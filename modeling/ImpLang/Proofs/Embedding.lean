import ImpLang.Proofs.Sequence

/-! Expressions on their own and inside a statement. Putting `print` or an assignment in front of a
text and a semicolon behind it adds lexemes at both ends and changes none of those in between, so
the text is accepted as an expression exactly if the whole is accepted as the statement of it. -/
namespace ImpLang

open Token (isWordChar)

section Cutting

variable {before : Option Char} {ts us : List Lexeme} {cs rest : List Char}

/-- A text that starts with a lexeme does not start with white space. -/
theorem Lexeme.Proper.not_separator_of_append {t : Lexeme} (ht : t.Proper) {ch : Char}
    (h : t.text ++ rest = ch :: cs) : Cursor.isSeparator ch = false := by
  obtain ⟨first, firsts, htext⟩ := ht.exists_text
  rw [htext, List.cons_append] at h
  rw [← (List.cons.inj h).1]
  exact ht.not_separator first (by simp [htext])

/-- Behind the lexeme that a text starts with, it spells the other lexemes. -/
theorem Spells.cons_iff {t : Lexeme} (hs : t.Stands before rest) :
    Spells before (t :: ts) (t.text ++ rest) ↔ Spells t.text.getLast? ts rest := by
  constructor
  · rintro ⟨blanks, rest', hcs, hb, -, hrest⟩
    cases blanks with
    | nil => rwa [List.append_cancel_left hcs]
    | cons ch blanks =>
      have hfirst := hs.proper.not_separator_of_append hcs
      rw [hb ch List.mem_cons_self] at hfirst
      cases hfirst
  · intro h
    exact ⟨[], rest, rfl, by simp, hs, h⟩

/-- A space in front of a text sets it apart and does nothing else. -/
theorem Spells.space_iff : Spells before ts (' ' :: cs) ↔ Spells none ts cs := by
  constructor
  · intro h
    cases ts with
    | nil => exact fun ch hch => h ch (List.mem_cons_of_mem _ hch)
    | cons t ts =>
      obtain ⟨blanks, rest, hcs, hb, hs, hrest⟩ := h
      cases blanks with
      | nil =>
        have hfirst := hs.proper.not_separator_of_append hcs.symm
        cases hfirst
      | cons ch blanks =>
        obtain ⟨rfl, rfl⟩ := List.cons.inj hcs
        refine ⟨blanks, rest, rfl, fun ch hch => hb ch (List.mem_cons_of_mem _ hch),
          ⟨hs.proper, ?_, hs.apart_after⟩, hrest⟩
        -- without other white space the text now starts with the lexeme itself
        have hbefore := hs.apart_before
        cases blanks with
        | nil => rfl
        | cons ch blanks => exact hbefore
  · intro h
    exact .blank (h.after_separator rfl)

/-- Where its lexemes are cut in two, a text is cut in two. -/
theorem Spells.exists_append (h : Spells before (ts ++ us) cs) : ∃ front back before',
    cs = front ++ back ∧ Spells before ts front ∧ Spells before' us back := by
  induction ts generalizing before cs with
  | nil => exact ⟨[], cs, before, rfl, by simp [Spells], h⟩
  | cons t ts ih =>
    obtain ⟨blanks, rest, rfl, hb, hs, hrest⟩ := h
    obtain ⟨front, back, before', rfl, hfront, hback⟩ := ih hrest
    -- the lexeme stands alone in the front part as well, even if nothing else is left there
    have hafter : front.head?.any t.clings = false := by
      cases front with
      | nil => rfl
      | cons ch front => exact hs.apart_after
    exact ⟨blanks ++ (t.text ++ front), back, before', by simp,
      ⟨blanks, front, rfl, hb, ⟨hs.proper, hs.apart_before, hafter⟩, hfront⟩, hback⟩

/-- A text that does not end with white space ends with its last lexeme. -/
theorem Spells.exists_last {t : Lexeme} {ch : Char} (h : Spells before (ts ++ [t]) (cs ++ [ch]))
    (hch : Cursor.isSeparator ch = false) : ∃ front blanks,
    cs ++ [ch] = front ++ (blanks ++ t.text) ∧ Spells before ts front ∧
      ∀ b ∈ blanks, Cursor.isSeparator b = true := by
  obtain ⟨front, back, before', hcs, hfront, blanks, tail, rfl, hb, -, htail⟩ := h.exists_append
  have hnil : tail = [] := by
    rcases List.eq_nil_or_concat tail with hnil | ⟨tail', last, rfl⟩
    · exact hnil
    · have hlast : some ch = some last := by
        simpa [List.getLast?_append] using congrArg List.getLast? hcs
      have hsep := htail last (by simp)
      cases hlast
      rw [hch] at hsep
      cases hsep
  subst hnil
  exact ⟨front, blanks, by rw [hcs, List.append_nil], hfront, hb⟩

/-- A semicolon at the end of a text is the last lexeme, the text before it spells the others. -/
theorem Spells.semicolon_iff :
    Spells before (ts ++ [.symbol ";"]) (cs ++ [';']) ↔ Spells before ts cs := by
  constructor
  · intro h
    obtain ⟨front, blanks, hcs, hfront, hb⟩ := h.exists_last rfl
    have hcut : cs = front ++ blanks := by
      rw [← List.append_assoc] at hcs
      exact List.append_cancel_right hcs
    subst hcut
    have hblanks : blanks.head?.any isWordChar = false := by
      cases blanks with
      | nil => rfl
      | cons ch blanks => exact isWordChar_eq_false_of_isSeparator (hb ch List.mem_cons_self)
    have hend : Spells none [] blanks := hb
    simpa using hfront.append hblanks hend
  · intro h
    have hend : Spells none [.symbol ";"] [';'] :=
      ⟨[], [], rfl, by simp, ⟨by decide, rfl, rfl⟩, by simp [Spells]⟩
    exact h.append rfl hend

end Cutting

section Embedding

variable {nesting : Nat} {text line filename : String} {e : Exp} {s : Stmt}

/-- A sound and complete parser accepts exactly the texts that spell a phrase, unless a number in it
is too long to be read. -/
theorem Parser.parseAll_eq_ok_iff_short {α : Type} {p : Parser α} {phrase : Phrase α}
    {follow : List Lexeme → Prop} (hsound : Sound p phrase) (hcomplete : Complete p phrase follow)
    (hend : follow [])
    (hdeep : p.parseAll text filename ≠ .error (.rejected (.nestedTooDeeply filename))) {a : α} :
    p.parseAll text filename = .ok a ↔ ∃ ts, phrase ts a ∧ Spells none ts text.toList ∧
      ∀ ds, .number ds ∈ ts → ds.length ≤ Text.maxDigits := by
  constructor
  · exact hsound.of_parseAll
  · rintro ⟨ts, hts, hspells, hshort⟩
    exact hcomplete.parseAll hend hts hspells hshort hdeep

/-- If a line spells the lexemes of the text with others around them, and derives the statement
exactly if the text derives the expression, then both are accepted or none. -/
theorem parseExpression_iff_parseStatement {around : List Lexeme → List Lexeme}
    (hphrase : ∀ us, Phrase.Statement us s ↔ ∃ ts, us = around ts ∧ Phrase.Expression ts e)
    (hspells : ∀ ts, Spells none (around ts) line.toList ↔ Spells none ts text.toList)
    (hnumber : ∀ ts ds, .number ds ∈ around ts ↔ .number ds ∈ ts)
    (htext : parseExpression nesting text filename ≠
      .error (.rejected (.nestedTooDeeply filename)))
    (hline : parseStatement nesting line filename ≠
      .error (.rejected (.nestedTooDeeply filename))) :
    parseExpression nesting text filename = .ok e ↔
      parseStatement nesting line filename = .ok s := by
  have hexp := Parser.parseAll_eq_ok_iff_short (Grammar.sound_expression nesting)
    (Grammar.complete_expression nesting) (stops_nil 5) htext (a := e)
  have hstmt := Parser.parseAll_eq_ok_iff_short (Grammar.sound_statement nesting)
    (Grammar.complete_statement nesting) trivial hline (a := s)
  rw [parseExpression, hexp, parseStatement, hstmt]
  constructor
  · rintro ⟨ts, hts, hread, hshort⟩
    refine ⟨around ts, (hphrase _).mpr ⟨ts, rfl, hts⟩, (hspells ts).mpr hread, fun ds hds => ?_⟩
    exact hshort ds ((hnumber ts ds).mp hds)
  · rintro ⟨us, hus, hread, hshort⟩
    obtain ⟨ts, rfl, hts⟩ := (hphrase us).mp hus
    exact ⟨ts, hts, (hspells ts).mp hread, fun ds hds => hshort ds ((hnumber ts ds).mpr hds)⟩

theorem Phrase.statement_print_iff {us : List Lexeme} : Statement us (.print e) ↔
    ∃ ts, us = .keyword "print" :: (ts ++ [.symbol ";"]) ∧ Expression ts e := by
  constructor
  · rintro ⟨h⟩
    cases h with
    | print h => exact ⟨_, rfl, h⟩
  · rintro ⟨ts, rfl, h⟩
    exact .intro (.print h)

theorem Phrase.statement_set_iff {x : String} {us : List Lexeme} : Statement us (.set x e) ↔
    ∃ ts, us = .name x :: .symbol ":=" :: (ts ++ [.symbol ";"]) ∧ Expression ts e := by
  constructor
  · rintro ⟨h⟩
    cases h with
    | set h => exact ⟨_, rfl, h⟩
  · rintro ⟨ts, rfl, h⟩
    exact .intro (.set h)

theorem spells_print_iff {ts : List Lexeme} :
    Spells none (.keyword "print" :: (ts ++ [.symbol ";"])) ("print " ++ text ++ ";").toList ↔
      Spells none ts text.toList := by
  have hline : ("print " ++ text ++ ";").toList =
      (Lexeme.keyword "print").text ++ ' ' :: (text.toList ++ [';']) := by
    simp [Lexeme.text]
  rw [hline, Spells.cons_iff ⟨by decide, rfl, rfl⟩, Spells.space_iff, Spells.semicolon_iff]

theorem spells_set_iff {x : String} (hx : IsName x) {ts : List Lexeme} :
    Spells none (.name x :: .symbol ":=" :: (ts ++ [.symbol ";"]))
      (x ++ " := " ++ text ++ ";").toList ↔ Spells none ts text.toList := by
  have hline : (x ++ " := " ++ text ++ ";").toList = (Lexeme.name x).text ++
      ' ' :: ((Lexeme.symbol ":=").text ++ ' ' :: (text.toList ++ [';'])) := by
    simp [Lexeme.text]
  have hname : (Lexeme.name x).Stands none
      (' ' :: ((Lexeme.symbol ":=").text ++ ' ' :: (text.toList ++ [';']))) := ⟨hx, rfl, rfl⟩
  rw [hline, Spells.cons_iff hname, Spells.space_iff,
    Spells.cons_iff ⟨by decide, rfl, rfl⟩, Spells.space_iff, Spells.semicolon_iff]

end Embedding

/-- A text is accepted as an expression exactly if it is accepted behind `print`, and exactly if it
is accepted in an assignment, and all three give the same tree, as long as the nesting limit does
not stop them. -/
theorem parseExpression_iff_statements (nesting : Nat) (text filename : String) (e : Exp)
    (x : String) (hx : IsName x)
    (htext : parseExpression nesting text filename ≠
      .error (.rejected (.nestedTooDeeply filename))) :
    (parseStatement nesting ("print " ++ text ++ ";") filename ≠
        .error (.rejected (.nestedTooDeeply filename)) →
      (parseExpression nesting text filename = .ok e ↔
        parseStatement nesting ("print " ++ text ++ ";") filename = .ok (.print e))) ∧
    (parseStatement nesting (x ++ " := " ++ text ++ ";") filename ≠
        .error (.rejected (.nestedTooDeeply filename)) →
      (parseExpression nesting text filename = .ok e ↔
        parseStatement nesting (x ++ " := " ++ text ++ ";") filename = .ok (.set x e))) := by
  constructor
  · exact parseExpression_iff_parseStatement (fun _ => Phrase.statement_print_iff)
      (fun _ => spells_print_iff) (by simp) htext
  · exact parseExpression_iff_parseStatement (fun _ => Phrase.statement_set_iff)
      (fun _ => spells_set_iff hx) (by simp) htext

theorem parseExpression_iff_statements_tab :
    IsName "x" ∧
    parseExpression 9 "8/ 2/=a\n\tand y" standardInput ≠
      .error (.rejected (.nestedTooDeeply standardInput)) ∧
    parseStatement 9 "print 8/ 2/=a\n\tand y;" standardInput = .ok (.print
      (.binary .and (.binary .ne (.binary .div (.int 8) (.int 2)) (.var "a")) (.var "y"))) ∧
    parseStatement 9 "x := 8/ 2/=a\n\tand y;" standardInput = .ok (.set "x"
      (.binary .and (.binary .ne (.binary .div (.int 8) (.int 2)) (.var "a")) (.var "y"))) := by
  have hx : IsName "x" := by decide
  have hparse : parseExpression 9 "8/ 2/=a\n\tand y" standardInput = .ok
      (.binary .and (.binary .ne (.binary .div (.int 8) (.int 2)) (.var "a")) (.var "y")) := rfl
  have htext : parseExpression 9 "8/ 2/=a\n\tand y" standardInput ≠
      .error (.rejected (.nestedTooDeeply standardInput)) := by
    rw [hparse]
    simp
  obtain ⟨hprint, hset⟩ := parseExpression_iff_statements 9 _ _ _ "x" hx htext
  exact ⟨hx, htext, (hprint fun h => by cases h).mp hparse, (hset fun h => by cases h).mp hparse⟩

end ImpLang
