import ImpLang.Proofs.Decoding
import ImpLang.Proofs.Preservation
import ImpLang.Proofs.PrintedForm

/-! The printed form of a value determines the value. A text inside another one ends at a comma or
at a closing character, which can be told from what stands before it: names and numerals have no
commas, the parameters have no brackets, and the source of a body has no braces. -/
namespace ImpLang

/-- Every character that is no white space stands in a lexeme. -/
theorem Spells.exists_lexeme {before : Option Char} {ts : List Lexeme} {cs : List Char} {ch : Char}
    (h : Spells before ts cs) (hch : ch ∈ cs) (hsep : Cursor.isSeparator ch = false) :
    ∃ t : Lexeme, t.Proper ∧ ch ∈ t.text := by
  have hblank {blanks : List Char} (hb : ∀ ch ∈ blanks, Cursor.isSeparator ch = true) :
      ch ∉ blanks := by
    intro hmem
    rw [hb ch hmem] at hsep
    exact Bool.noConfusion hsep
  induction ts generalizing before cs with
  | nil => exact absurd hch (hblank h)
  | cons t ts ih =>
    obtain ⟨blanks, rest, rfl, hb, hs, hrest⟩ := h
    simp only [List.mem_append] at hch
    rcases hch with hmem | hmem | hmem
    · exact absurd hmem (hblank hb)
    · exact ⟨t, hs.proper, hmem⟩
    · exact ih hrest hmem

theorem Lexeme.Proper.brace_not_mem {t : Lexeme} (h : t.Proper) : '\x7b' ∉ t.text := by
  intro hmem
  cases t with
  | number ds => exact absurd (h.2 _ hmem) (by decide)
  | name x => exact h.not_mem (by decide) hmem
  | keyword w => exact absurd (isAlpha_of_mem_reservedWords h _ hmem) (by decide)
  | symbol s =>
    have htable : ∀ s ∈ symbols, '\x7b' ∉ s.toList := by decide
    exact htable s h hmem

namespace Exp

variable {e e' : Exp} {text : String}

/-- No brace stands in the source of an expression. -/
theorem WellFormed.brace_not_mem (he : e.WellFormed) (h : e.render = .ok text) :
    '\x7b' ∉ text.toList := by
  obtain ⟨source, hrenders⟩ := he.renders
  obtain rfl : text = source := Except.ok.inj (h.symm.trans hrenders.render_eq)
  obtain ⟨ts, -, hw⟩ := hrenders.writes
  intro hmem
  have hspells : Spells none (ts ++ []) (text.toList ++ []) := hw.spells rfl rfl (by simp [Spells])
  obtain ⟨t, ht, hbrace⟩ := hspells.exists_lexeme (List.mem_append_left _ hmem) (by decide)
  exact ht.brace_not_mem hbrace

/-- Two expressions with the same source are the tree that is parsed back from it. -/
theorem WellFormed.eq_of_render (he : e.WellFormed) (he' : e'.WellFormed)
    (h : e.render = .ok text) (h' : e'.render = .ok text) : e = e' := by
  have hparse {e : Exp} (he : e.WellFormed) (h : e.render = .ok text) :
      parseExpression (text.length + 1) text standardInput = .ok e := by
    obtain ⟨source, hrenders⟩ := he.renders
    obtain rfl : text = source := Except.ok.inj (h.symm.trans hrenders.render_eq)
    exact (hrenders.expression.parseAll (Grammar.complete_expression _) (stops_nil 5)
      (Grammar.within_expression _) standardInput).2 (Nat.lt_succ_self _)
  have heq := hparse he h
  rw [hparse he' h'] at heq
  exact (Except.ok.inj heq).symm

end Exp

namespace Val

structure Printed (v : Val) (text : String) : Prop where
  wellFormed : v.WellFormed
  form : v.PrintedForm Text.Short text

def IsPlain : Val → Prop
  | .closure .. => False
  | _ => True

variable {v w : Val} {t u : String}

/-- What is printed in one piece has no character in it that ends it or that opens a closure. -/
theorem Printed.plain (h : v.Printed t) (hv : v.IsPlain) :
    t.toList ≠ [] ∧ ∀ ch ∈ t.toList, ch ∉ [',', '\x7d', '<'] := by
  have hword {s : String} (hne : s.toList ≠ [])
      (hs : s.toList.all (fun ch => decide (ch ∉ [',', '\x7d', '<'])) = true) :
      s.toList ≠ [] ∧ ∀ ch ∈ s.toList, ch ∉ [',', '\x7d', '<'] :=
    ⟨hne, fun ch hch => of_decide_eq_true (List.all_eq_true.mp hs ch hch)⟩
  obtain ⟨hwf, hform⟩ := h
  cases hform with
  | @int n hn =>
    refine ⟨Text.numeral_ne_nil n, fun ch hch hmem => ?_⟩
    have hnumeric : ∀ ch ∈ [',', '\x7d', '<'], ch ≠ '-' ∧ ch.isDigit = false := by
      simp only [List.forall_mem_cons]
      simp
    obtain ⟨hsign, hdigit⟩ := hnumeric ch hmem
    rcases Text.mem_numeral hch with rfl | htrue
    · exact hsign rfl
    · rw [htrue] at hdigit
      exact Bool.noConfusion hdigit
  | bool b =>
    apply hword
    · cases b <;> decide
    · cases b <;> decide
  | closure _ _ _ => exact hv.elim
  | exn message =>
    have htable : ∀ m ∈ Complaint.ofEvaluation,
        ("exn: " ++ m).toList.all (fun ch => decide (ch ∉ [',', '\x7d', '<'])) = true := by decide
    cases hwf with
    | exn hmessage => exact hword (by simp) (htable message hmessage)

/-- Among the values printed in one piece, numerals have no letters, and the words differ. -/
theorem Printed.eq_of_plain (h : v.Printed t) (h' : w.Printed t) (hv : v.IsPlain)
    (hw : w.IsPlain) : v = w := by
  -- what tells words from numerals is a letter they all have
  have hletter {n : Int} : 'e' ∉ (Text.numeral n).toList := by
    intro hmem
    rcases Text.mem_numeral hmem with hsign | hdigit
    · exact absurd hsign (by decide)
    · exact absurd hdigit (by decide)
  have hbool (b : Bool) : 'e' ∈ (if b then "True" else "False" : String).toList := by
    cases b <;> decide
  have hexn (m : String) : 'e' ∈ ("exn: " ++ m).toList := by simp
  have hwords : ∀ m ∈ Complaint.ofEvaluation, ∀ b : Bool,
      (if b then "True" else "False" : String) ≠ "exn: " ++ m := by decide
  obtain ⟨hwf, hform⟩ := h
  obtain ⟨hwf', hform'⟩ := h'
  generalize ht : t = u at hform'
  cases hform with
  | closure _ _ _ => exact hv.elim
  | @int n _ =>
    cases hform' with
    | closure _ _ _ => exact hw.elim
    | int _ => rw [Text.numeral_injective ht]
    | bool b => exact absurd (ht ▸ hbool b) hletter
    | exn m => exact absurd (ht ▸ hexn m) hletter
  | bool b =>
    cases hform' with
    | closure _ _ _ => exact hw.elim
    | int _ => exact absurd (ht ▸ hbool b) hletter
    | bool b' => cases b <;> cases b' <;> first | rfl | exact absurd ht (by decide)
    | exn m =>
      cases hwf' with
      | exn hm => exact absurd ht (hwords m hm b)
  | exn m =>
    cases hform' with
    | closure _ _ _ => exact hw.elim
    | int _ => exact absurd (ht ▸ hexn m) hletter
    | bool b =>
      cases hwf with
      | exn hm => exact absurd ht.symm (hwords m hm b)
    | exn m' =>
      have hlists := congrArg String.toList ht
      rw [String.toList_append, String.toList_append] at hlists
      rw [String.toList_injective (List.append_cancel_left hlists)]

/-- What a closure with this body and these bindings is printed as behind its parameters. -/
def behindParams (source : String) (texts : List String) : List Char :=
  ',' :: ' ' :: (source.toList ++ ',' :: ' ' :: '\x7b' ::
    ((", ".intercalate texts).toList ++ ['\x7d', '>']))

def Entry (b : String × Val) (text : String) : Prop :=
  IsName b.1 ∧ ∃ t, b.2.Printed t ∧ text = b.1 ++ ": " ++ t

theorem Printed.of_closure {params : List String} {body : Exp} {captured : List (String × Val)}
    (h : (Val.closure params body captured).Printed t) :
    (∀ x ∈ params, IsName x) ∧ body.WellFormed ∧ ∃ source texts, body.render = .ok source ∧
      List.Forall₂ Entry captured texts ∧
      t.toList = '<' :: '[' :: ((", ".intercalate params).toList ++ ']' ::
        behindParams source texts) := by
  obtain ⟨hwf, hform⟩ := h
  cases hwf with
  | closure hparams hbody hnodup hnames hvalues =>
    cases hform with
    | @closure _ _ _ source texts hsource hlength hcaptured =>
      have hentries : List.Forall₂ Entry captured
          (List.zipWith (fun b t => b.1 ++ ": " ++ t) captured texts) := by
        have hforms := List.forall₂_iff_zip.mpr ⟨hlength, fun {b t} hmem => hcaptured b t hmem⟩
        clear hcaptured hlength hnodup
        induction hforms with
        | nil => exact .nil
        | cons hb _ ih =>
          obtain ⟨hname, hnames⟩ := List.forall_mem_cons.mp hnames
          obtain ⟨hvalue, hvalues⟩ := List.forall_mem_cons.mp hvalues
          exact .cons ⟨hname, _, ⟨hvalue, hb⟩, rfl⟩ (ih hnames hvalues)
      refine ⟨hparams, hbody, source, _, Exp.render_eq_ok_iff.mpr hsource, hentries, ?_⟩
      simp [behindParams]

theorem decodes_entry {b : String × Val} (h : Decodes Printed [',', '\x7d'] b.2) :
    Decodes Entry [',', '\x7d'] b := by
  rintro ⟨y, w⟩ _ _ r s ⟨hx, t, hv, rfl⟩ ⟨hy, u, hw, rfl⟩ hr hs heq
  simp only [String.toList_append, List.append_assoc] at heq
  obtain ⟨hname, hrest⟩ := eq_of_append_cons (c := ':') (hx.not_mem (by decide))
    (hy.not_mem (by decide)) heq
  have hvalues : t.toList ++ r = u.toList ++ s := (List.cons.inj hrest).2
  obtain ⟨hvalue, hrs⟩ := h hv hw hr hs hvalues
  exact ⟨Prod.ext (String.toList_injective hname) hvalue, hrs⟩

/-- The body and the bindings of a closure are told from all others: the first brace stands behind
the source. -/
theorem behindParams_decode {body body' : Exp} {captured captured' : List (String × Val)}
    {source source' : String} {texts texts' : List String} (hbody : body.WellFormed)
    (hbody' : body'.WellFormed) (hsource : body.render = .ok source)
    (hsource' : body'.render = .ok source')
    (hdec : ∀ b ∈ captured, Decodes Printed [',', '\x7d'] b.2)
    (hentries : List.Forall₂ Entry captured texts)
    (hentries' : List.Forall₂ Entry captured' texts') {r s : List Char}
    (h : behindParams source texts ++ r = behindParams source' texts' ++ s) :
    body = body' ∧ captured = captured' ∧ r = s := by
  have hplain {body : Exp} {source : String} (hbody : body.WellFormed)
      (hsource : body.render = .ok source) :
      '\x7b' ∉ source.toList ++ [',', ' '] := by
    have hnot := hbody.brace_not_mem hsource
    simp [hnot]
  have hsplit : (source.toList ++ [',', ' ']) ++ '\x7b' ::
        ((", ".intercalate texts).toList ++ '\x7d' :: '>' :: r) =
      (source'.toList ++ [',', ' ']) ++ '\x7b' ::
        ((", ".intercalate texts').toList ++ '\x7d' :: '>' :: s) := by
    simpa [behindParams] using h
  obtain ⟨hsources, hrest⟩ := eq_of_append_cons (hplain hbody hsource) (hplain hbody' hsource')
    hsplit
  obtain rfl : source = source' := String.toList_injective (List.append_cancel_right hsources)
  have hfirst (b : String × Val) (text : String) (hb : Entry b text) :
      ∃ ch cs, text.toList = ch :: cs ∧ ch ≠ '\x7d' := by
    obtain ⟨hname, t, -, rfl⟩ := hb
    obtain ⟨ch, cs, hcs, hletter⟩ := hname.exists_letter
    refine ⟨ch, cs ++ (": " ++ t).toList, by simp [hcs], fun heq => ?_⟩
    rw [heq] at hletter
    exact absurd hletter (by decide)
  obtain ⟨hcaptured, hend⟩ := listed_decode (by decide) (fun b hb => decodes_entry (hdec b hb))
    hfirst hentries hentries' hrest
  exact ⟨hbody.eq_of_render hbody' hsource hsource', hcaptured, (List.cons.inj hend).2⟩

theorem isPlain_or (v : Val) :
    v.IsPlain ∨ ∃ params body captured, v = closure params body captured := by
  cases v with
  | closure params body captured => exact .inr ⟨params, body, captured, rfl⟩
  | _ => exact .inl trivial

/-- A text that opens a closure is not that of a value printed in one piece. -/
theorem Printed.ne_closure (h : v.Printed t) (hv : v.IsPlain) (r : List Char) (rest : List Char) :
    t.toList ++ r ≠ '<' :: rest := by
  obtain ⟨hne, hplain⟩ := h.plain hv
  obtain ⟨ch, cs, hcs⟩ := List.exists_cons_of_ne_nil hne
  rw [hcs]
  intro heq
  exact hplain ch (by simp [hcs]) (by simp [(List.cons.inj heq).1])

/-- What ends a value is a comma or a brace. -/
theorem decodes (v : Val) : Decodes Printed [',', '\x7d'] v := by
  have hplain (v : Val) (hv : v.IsPlain) : Decodes Printed [',', '\x7d'] v := by
    intro w t u r s ht hu hr hs h
    rcases w.isPlain_or with hw | ⟨params, body, captured, rfl⟩
    · have hrun {v : Val} {t : String} (ht : v.Printed t) (hv : v.IsPlain) :
          ∀ ch ∈ t.toList, ch ∉ [',', '\x7d'] := by
        intro ch hch hmem
        exact (ht.plain hv).2 ch hch (List.mem_append_left ['<'] hmem)
      obtain ⟨htu, hrs⟩ := hr.run_eq hs (hrun ht hv) (hrun hu hw) h
      rw [← String.toList_injective htu] at hu
      exact ⟨ht.eq_of_plain hu hv hw, hrs⟩
    · obtain ⟨-, -, _, _, -, -, hu⟩ := hu.of_closure
      rw [hu] at h
      exact absurd h (ht.ne_closure hv _ _)
  induction v using Val.induction with
  | closure params body captured ih =>
    -- read from the left: the parameters, the body up to the brace, the bindings
    intro w t u r s ht hu hr hs h
    obtain ⟨hparams, hbody, source, texts, hsource, hentries, ht⟩ := ht.of_closure
    rcases w.isPlain_or with hw | ⟨params', body', captured', rfl⟩
    · rw [ht] at h
      exact absurd h.symm (hu.ne_closure hw _ _)
    · obtain ⟨hparams', hbody', source', texts', hsource', hentries', hu⟩ := hu.of_closure
      rw [ht, hu] at h
      simp only [List.cons_append, List.append_assoc, List.cons.injEq, true_and] at h
      obtain ⟨rfl, hrest⟩ := names_decode (by decide) (by decide) hparams hparams' h
      obtain ⟨rfl, rfl, hrs⟩ := behindParams_decode hbody hbody' hsource hsource' ih hentries
        hentries' hrest
      exact ⟨rfl, hrs⟩
  | _ => exact hplain _ trivial

end Val

/-- The printed form of a value determines the value, the bindings of every closure and their order
included. -/
theorem eq_of_displayWithin {v w : Val} (hv : v.WellFormed) (hw : w.WellFormed)
    {depth depth' : Nat} {text : String} (h : v.displayWithin depth = .ok text)
    (h' : w.displayWithin depth' = .ok text) : v = w := by
  have hprinted {v : Val} (hv : v.WellFormed) {depth : Nat} (h : v.displayWithin depth = .ok text) :
      v.Printed text := by
    obtain ⟨-, hdisplay⟩ := Writing.within_eq_ok_iff.mp h
    exact ⟨hv, Val.display_eq_ok_iff.mp hdisplay⟩
  exact (v.decodes (hprinted hv h) (hprinted hw h') (endsAt_nil _) (endsAt_nil _) rfl).1

/-- A closure that captured another one, known by what it is printed as. -/
theorem eq_of_displayWithin_captured : ∃ w,
    (eval false 30 (.letIn [("x", .binary .sub (.int 0) (.int 7)), ("e", .var "z")]
      (.letIn [("f", .fn [] (.letIn [("x", .bool true)] (.var "x")))]
        (.fn ["a", "b"] (.apply (.var "f") [.binary .lt (.var "a") (.int 7), .var "b"]))))
      []).outcome = .ok w ∧
    w.displayWithin 9 =
      .ok ("<[a, b], apply f ((a < 7), b), \x7bx: -7, e: exn: No match in env, " ++
        "f: <[], let [x := true] x end, \x7bx: -7, e: exn: No match in env\x7d>\x7d>") ∧
    w = .closure ["a", "b"] (.apply (.var "f") [.binary .lt (.var "a") (.int 7), .var "b"])
      [("x", .int (-7)), ("e", .exn Complaint.unbound),
        ("f", .closure [] (.letIn [("x", .bool true)] (.var "x"))
          [("x", .int (-7)), ("e", .exn Complaint.unbound)])] := by
  have hletIn : (Exp.letIn [("x", .bool true)] (.var "x")).WellFormed :=
    .letIn (by decide) (List.forall_mem_singleton.mpr (.bool true)) (.var (by decide))
  have hbody : (Exp.apply (.var "f") [.binary .lt (.var "a") (.int 7), .var "b"]).WellFormed := by
    refine .apply (.var (by decide)) (List.forall_mem_cons.mpr ⟨?_, ?_⟩)
    · exact .binary _ (.var (by decide)) (.int (by decide))
    · exact List.forall_mem_singleton.mpr (.var (by decide))
  have hunbound : (Val.exn Complaint.unbound).WellFormed := .exn (by decide)
  have hinner : (Val.closure [] (.letIn [("x", .bool true)] (.var "x"))
      [("x", .int (-7)), ("e", .exn Complaint.unbound)]).WellFormed := by
    refine .closure (by simp) hletIn (by decide) (by decide) ?_
    exact List.forall_mem_cons.mpr ⟨.int _, List.forall_mem_singleton.mpr hunbound⟩
  have houter : (Val.closure ["a", "b"]
      (.apply (.var "f") [.binary .lt (.var "a") (.int 7), .var "b"])
      [("x", .int (-7)), ("e", .exn Complaint.unbound),
        ("f", .closure [] (.letIn [("x", .bool true)] (.var "x"))
          [("x", .int (-7)), ("e", .exn Complaint.unbound)])]).WellFormed := by
    refine .closure (by decide) hbody (by decide) (by decide) ?_
    exact List.forall_mem_cons.mpr ⟨.int _, List.forall_mem_cons.mpr ⟨hunbound,
      List.forall_mem_singleton.mpr hinner⟩⟩
  refine ⟨_, rfl, rfl, ?_⟩
  exact eq_of_displayWithin houter houter (show Val.displayWithin 9 _ = .ok _ from rfl)
    (show Val.displayWithin 12 _ = .ok _ from rfl)

end ImpLang
