import ImpLang.Proofs.Drivers
import ImpLang.Proofs.SessionInvariant

namespace ImpLang

open Traced

/-- The source texts of the declared procedures, oldest name first. -/
def Session.dump (session : Session) : Except Fault (List String) :=
  Stmt.renderList (session.procedures.map Prod.snd)

namespace Bindings

variable {α : Type}

theorem insert_of_not_mem {bs : Bindings α} {x : String} (hx : x ∉ bs.keys) (v : α) :
    bs.insert x v = bs ++ [(x, v)] := by
  induction bs with
  | nil => rfl
  | cons b bs ih =>
    obtain ⟨y, w⟩ := b
    rw [keys_cons, List.mem_cons] at hx
    push Not at hx
    rw [insert, if_neg (Ne.symm hx.1), ih hx.2, List.cons_append]

/-- Distinct new names are added in their order. -/
theorem insertAll_eq_append {base new : Bindings α} (h : (base ++ new).keys.Nodup) :
    base.insertAll new = base ++ new := by
  induction new generalizing base with
  | nil => rw [insertAll_nil, List.append_nil]
  | cons b new ih =>
    obtain ⟨x, v⟩ := b
    -- the first of the new names moves over to the old ones
    have hassoc : base ++ (x, v) :: new = base ++ [(x, v)] ++ new := by simp
    have hx : x ∉ base.keys := by
      unfold keys at h ⊢
      rw [List.map_append] at h
      intro hmem
      exact (List.nodup_append.mp h).2.2 x hmem x (by simp) rfl
    rw [hassoc] at h ⊢
    rw [insertAll_cons, insert_of_not_mem hx]
    exact ih h

end Bindings

section Declarations

variable {limits : Limits} {debug : Bool}

theorem exec_procedure (debug : Bool) {depth : Nat} (hdepth : 0 < depth) (f : String)
    (params : List String) (body : Stmt) (session : Session) :
    (exec debug depth (.procedure f params body) session).outcome = .ok ⟨"", { session with
      procedures := session.procedures.insert f (.procedure f params body) }⟩ := by
  obtain ⟨depth, rfl⟩ := Nat.exists_eq_add_one_of_ne_zero hdepth.ne'
  rfl

/-- Lines that declare procedures answer nothing and only declare them. -/
theorem runAll_declarations (hdepth : 0 < limits.depth) {entries : Bindings Stmt}
    {sources : List String}
    (hread : List.Forall₂ (fun entry source =>
      parseStatement limits.nesting source standardInput = .ok entry.2) entries sources)
    (hnames : ∀ entry ∈ entries, ∃ params body, entry.2 = .procedure entry.1 params body)
    (hrecord : ∀ entry ∈ entries, limits.Records debug entry.2) (session : Session) :
    (Session.runAll limits debug session sources).outcome =
      .ok (List.replicate sources.length "",
        { session with procedures := session.procedures.insertAll entries }) := by
  induction hread generalizing session with
  | nil => rfl
  | @cons entry source entries sources hsource _ ih =>
    obtain ⟨f, stmt⟩ := entry
    obtain ⟨⟨params, body, hstmt⟩, hothers⟩ := List.forall_mem_cons.mp hnames
    obtain ⟨hrecord, hrecords⟩ := List.forall_mem_cons.mp hrecord
    change stmt = .procedure f params body at hstmt
    subst hstmt
    have hexec := exec_procedure debug hdepth f params body session
    have hstep := Session.step_of_exec hsource (by simp) hrecord hexec
    rw [Session.outcome_runAll_cons (isBlankLine_of_parseStatement hsource), hstep]
    change (Session.runAll limits debug _ sources).outcome.map _ = _
    rw [ih hothers hrecords]
    rfl

/-- Without any levels nothing is executed, so nothing changes. -/
theorem Session.reference_of_depth_zero (hdepth : limits.depth = 0) (session : Session)
    (lines : List String) : session.reference limits debug lines = .ok session := by
  unfold Session.reference
  induction program limits.nesting lines generalizing session with
  | nil => rfl
  | cons s stmts ih =>
    have hafter : session.after limits debug s = .ok session := by
      rw [Session.after, hdepth]
      rfl
    rw [List.foldlM_cons, hafter]
    exact ih session

end Declarations

/-- The procedures of every session that lines lead to can be written out, and the texts declare the
same procedures in the same order in a new session, unless they are nested too deeply to be read. -/
theorem reload_procedures (limits : Limits) (debug : Bool) (lines texts : List String)
    (session : Session)
    (hrun : (Session.runAll limits debug {} lines).outcome = .ok (texts, session)) :
    ∃ sources, session.dump = .ok sources ∧
      ((∀ source ∈ sources, parseStatement limits.nesting source standardInput ≠
          .error (.rejected (.nestedTooDeeply standardInput))) →
        ∀ traced, (∀ entry ∈ session.procedures, limits.Records traced entry.2) →
          (Session.runAll limits traced {} sources).outcome =
            .ok (List.replicate sources.length "", { procedures := session.procedures })) := by
  have hfinal := Session.WellFormed.initial.runAll limits debug lines
  rw [hrun] at hfinal
  have hprocedures := hfinal.result.procedures
  obtain ⟨sources, hrenders⟩ : ∃ sources, List.Forall₂ (fun (entry : String × Stmt) source =>
      entry.2.Renders source) session.procedures sources :=
    exists_forall₂ fun entry hentry => (hprocedures.entries entry hentry).1.renders
  refine ⟨sources, Stmt.renderList_eq (List.forall₂_map_left_iff.mpr hrenders), ?_⟩
  intro hnesting traced hrecord
  rcases Nat.eq_zero_or_pos limits.depth with hdepth | hdepth
  · -- without levels no procedure was ever declared
    have hnone := Session.reference_of_runAll hrun
    rw [Session.reference_of_depth_zero hdepth] at hnone
    cases hnone
    cases hrenders
    rfl
  · have hread : List.Forall₂ (fun (entry : String × Stmt) source =>
        parseStatement limits.nesting source standardInput = .ok entry.2)
        session.procedures sources := by
      rw [List.forall₂_iff_zip] at hrenders ⊢
      refine ⟨hrenders.1, fun {entry source} hpair => ?_⟩
      have hwrites := (hrenders.2 hpair).writes.parseAll (Grammar.complete_statement limits.nesting)
        trivial (Grammar.within_statement limits.nesting) standardInput
      exact hwrites.1 (hnesting source (List.of_mem_zip hpair).2)
    have hload : (Session.runAll limits traced {} sources).outcome =
        .ok (List.replicate sources.length "",
          { procedures := Bindings.insertAll [] session.procedures }) :=
      runAll_declarations hdepth hread (fun entry hentry => (hprocedures.entries entry hentry).2)
        hrecord {}
    have hall : Bindings.insertAll [] session.procedures = session.procedures :=
      Bindings.insertAll_eq_append hprocedures.nodup
    rw [hload, hall]

theorem reload_procedures_redeclared : ∃ session,
    (Session.runAll ⟨99, 30⟩ true {}
      ["procedure p(a) procedure q() f := fn [x] a/x end; endproc endproc", "call p(7);",
       "procedure p() print f; endproc"]).outcome = .ok (["", "", ""], session) ∧
    session.dump = .ok ["procedure p() print f; endproc",
      "procedure q() f := fn [x] (a / x) end; endproc"] ∧
    (Session.runAll ⟨99, 30⟩ false {} ["procedure p() print f; endproc",
      "procedure q() f := fn [x] (a / x) end; endproc"]).outcome =
        .ok (["", ""], { procedures := session.procedures }) := by
  refine ⟨_, rfl, rfl, ?_⟩
  obtain ⟨sources, hdump, hload⟩ := reload_procedures ⟨99, 30⟩ true
    ["procedure p(a) procedure q() f := fn [x] a/x end; endproc endproc", "call p(7);",
     "procedure p() print f; endproc"] _ _ rfl
  obtain rfl : ["procedure p() print f; endproc",
      "procedure q() f := fn [x] (a / x) end; endproc"] = sources := Except.ok.inj hdump
  apply hload
  · intro source hsource
    apply (Grammar.within_statement 99).parseAll_ne
    revert source
    decide
  · intro entry _ hdebug
    exact Bool.noConfusion hdebug

end ImpLang
