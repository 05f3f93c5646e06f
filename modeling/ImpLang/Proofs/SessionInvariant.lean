import ImpLang.Proofs.Preservation
import ImpLang.Repl.Command

namespace ImpLang

open Traced

variable {α : Type} {P : α → Prop}

/-- Parsing has no internal faults: a text is rejected, or a literal in it is too long. -/
theorem Parser.ensures_parseAll {p : Parser α} {text filename : String}
    (h : ∀ a, p.parseAll text filename = .ok a → P a) :
    Ensures P (p.parseAll text filename) := by
  cases hp : p.parseAll text filename with
  | ok a => exact .ok (h a hp)
  | error e =>
    unfold Parser.parseAll at hp
    dsimp only at hp
    split at hp
    all_goals cases hp
    all_goals exact .error rfl

theorem Ensures.recover {x : Traced α} (hx : Ensures P x.outcome) {handler : Fault → Option α}
    (h : ∀ e a, handler e = some a → P a) : Ensures P (x.recover handler).outcome := by
  obtain ⟨trace, outcome⟩ := x
  cases outcome with
  | ok a => exact hx
  | error e =>
    cases he : handler e with
    | none =>
      simp only [Traced.recover, he]
      exact hx
    | some a =>
      simp only [Traced.recover, he]
      exact .ok (h e a he)

theorem readStatement_wellFormed (limits : Limits) (debug : Bool) (line filename : String) :
    Ensures Stmt.WellFormed (readStatement limits debug line filename).outcome := by
  have hparse : Ensures Stmt.WellFormed (parseStatement limits.nesting line filename) :=
    Parser.ensures_parseAll fun _ => wellFormed_of_parseStatement
  refine .bind_outcome hparse fun s hs => ?_
  have hnote : Ensures (fun _ => True)
      (noteParsed limits debug (s.height .record) (.parsedStmt s)).outcome := by
    unfold noteParsed
    split_ifs
    · exact .error rfl
    · exact .ok trivial
  exact .bind_outcome hnote fun _ _ => .ok hs

namespace Session

variable {session : Session}

theorem WellFormed.runStmt (h : session.WellFormed) (limits : Limits) (debug : Bool) {s : Stmt}
    (hs : s.WellFormed) : Ensures (fun reply => reply.session.WellFormed)
      (session.runStmt limits debug s).outcome := by
  have hrun : Ensures (fun reply : Reply => reply.session.WellFormed) (do
      let effect ← exec debug limits.depth s session
      return ⟨effect.output, effect.session, false⟩ : Traced Reply).outcome :=
    .bind_outcome (exec_wellFormed debug limits.depth hs h) fun _ heffect => .ok heffect
  cases s with
  | quit => exact .ok h
  | _ =>
    refine hrun.recover fun e reply hreply => ?_
    cases e <;> cases hreply
    exact h

/-- One line leaves the session well-formed. -/
theorem WellFormed.step (h : session.WellFormed) (limits : Limits) (debug : Bool) (line : String) :
    Ensures (fun reply => reply.session.WellFormed) (session.step limits debug line).outcome := by
  have hread := readStatement_wellFormed limits debug line standardInput
  unfold Session.step
  split
  · rename_i trace s hs
    rw [hs] at hread
    exact h.runStmt limits debug hread.result
  · exact .ok h
  · rename_i trace e _ hs
    rw [hs] at hread
    exact .error hread.fault

/-- So do all lines together. -/
theorem WellFormed.runAll (h : session.WellFormed) (limits : Limits) (debug : Bool)
    (lines : List String) : Ensures (fun final => final.2.WellFormed)
      (session.runAll limits debug lines).outcome := by
  induction lines generalizing session with
  | nil => exact .ok h
  | cons line rest ih =>
    unfold Session.runAll
    split_ifs
    · exact ih h
    · refine .bind_outcome (h.step limits debug line) fun reply hreply => ?_
      split_ifs
      · exact .ok hreply
      · exact .bind_outcome (ih hreply) fun _ hfinal => .ok hfinal

end Session

theorem Listing.ensures_texts {display : α → Except Fault String} {bs : Bindings α}
    (h : ∀ b ∈ bs, Ensures (fun _ => True) (display b.2)) :
    Ensures (fun _ => True) (Listing.texts display bs) := by
  induction bs with
  | nil => exact .ok trivial
  | cons b bs ih =>
    obtain ⟨hb, hbs⟩ := List.forall_mem_cons.mp h
    exact hb.bind fun _ _ => (ih hbs).bind fun _ _ => .ok trivial

theorem Stmt.WellFormed.renderWithin {s : Stmt} (h : s.WellFormed) (depth : Nat) :
    Ensures (fun _ => True) (s.renderWithin depth) := by
  obtain ⟨text, hrenders⟩ := h.renders
  have hok : Ensures (fun _ => True) s.write.outcome := by
    rw [← Stmt.render, hrenders.render_eq]
    exact .ok trivial
  exact hok.within depth

theorem Command.ensures_showTree (limits : Limits) (debug : Bool) (argument : String) :
    Ensures (fun _ => True) (showTree limits debug argument).outcome := by
  have hread := readStatement_wellFormed limits debug argument standardInput
  unfold showTree
  split
  · unfold Stmt.prettyWithin
    split_ifs
    · exact .ok trivial
    · exact .error rfl
  · exact .ok trivial
  · rename_i trace e _ hs
    rw [hs] at hread
    exact .error hread.fault

theorem Command.ensures_body (limits : Limits) (debug : Bool) {session : Session}
    (h : session.WellFormed) (line : String) :
    Ensures (fun _ => True) (body limits debug session line).outcome := by
  unfold body
  generalize split line = parts
  obtain ⟨command, argument⟩ := parts
  dsimp only
  split_ifs
  · exact ensures_showTree limits debug _
  · refine .bind_outcome (Listing.ensures_texts fun b hb => ?_) fun _ _ => .ok trivial
    exact Val.WellFormed.displayWithin (h.vars.entries b hb) limits.depth
  · refine .bind_outcome (Listing.ensures_texts fun b hb => ?_) fun _ _ => .ok trivial
    exact Stmt.WellFormed.renderWithin (h.procedures.entries b hb).1 limits.depth
  · exact .ok trivial
  · exact .ok trivial

/-- A command has no internal fault in a well-formed session. -/
theorem Command.ensures_run (limits : Limits) (debug : Bool) {session : Session}
    (h : session.WellFormed) (line : String) :
    Ensures (fun _ => True) (Command.run limits debug session line).outcome :=
  .bind_outcome (ensures_body limits debug h line) fun _ _ => .ok trivial

/-- In every session that lines lead to, names are distinct and legal, procedures stand under their
own names, and everything that is stored is well-formed all the way down; no line and no command has
an internal fault there. The lines run so far are an arbitrary beginning of those entered. -/
theorem session_invariant (limits : Limits) (debug : Bool) (lines : List String) :
    (∀ entered, entered <+: lines → ∀ texts session,
      (Session.runAll limits debug {} entered).outcome = .ok (texts, session) →
      session.WellFormed ∧
      (∀ line e, (session.step limits debug line).outcome = .error e → e.isInternal = false) ∧
      (∀ line e, (Command.run limits debug session line).outcome = .error e →
        e.isInternal = false)) ∧
    (∀ e, (Session.runAll limits debug {} lines).outcome = .error e → e.isInternal = false) := by
  constructor
  · intro entered _ texts session hrun
    have hfinal := Session.WellFormed.initial.runAll limits debug entered
    rw [hrun] at hfinal
    have hsession : session.WellFormed := hfinal.result
    refine ⟨hsession, fun line e he => ?_, fun line e he => ?_⟩
    · have hstep := hsession.step limits debug line
      rw [he] at hstep
      exact hstep.fault
    · have hcommand := Command.ensures_run limits debug hsession line
      rw [he] at hcommand
      exact hcommand.fault
  · intro e he
    have hrun := Session.WellFormed.initial.runAll limits debug lines
    rw [he] at hrun
    exact hrun.fault

theorem session_invariant_nested : ∃ session,
    (Session.runAll ⟨30, 30⟩ true {}
      ["procedure p(a) procedure q() f := fn [x] a / x end; endproc endproc", "call p(7);",
       "call q();"]).outcome = .ok (["", "", ""], session) ∧
    session.procedures.keys = ["p", "q"] ∧ Bindings.keys session.vars = ["a", "f"] ∧
    session.WellFormed := by
  refine ⟨_, rfl, rfl, rfl, ?_⟩
  exact ((session_invariant ⟨30, 30⟩ true
    ["procedure p(a) procedure q() f := fn [x] a / x end; endproc endproc", "call p(7);",
     "call q();"]).1 _ (List.prefix_refl _) ["", "", ""] _ rfl).1

end ImpLang
