import ImpLang.Proofs.Adequacy
import ImpLang.Proofs.Occurrence
import ImpLang.Proofs.Preservation

/-! The frame of execution. A run changes only the variables that are assigned to, or are
parameters, somewhere in the code that it can come upon, and only the procedures that are declared
somewhere in that code. Procedures are declared while others run, so the code is an upper bound that
has to hold for every session on the way. -/
namespace ImpLang

namespace Stmt

/-- The variables that a statement binds itself: the one it assigns to, or the parameters of the
procedure it declares. -/
def binds : Stmt → List String
  | .set x _ => [x]
  | .procedure _ params _ => params
  | .print _ | .quit | .ite _ _ _ | .call _ _ | .seq _ | .foreign _ => []

def isDeclaration : Stmt → Bool
  | .procedure _ _ _ => true
  | .set _ _ | .print _ | .quit | .ite _ _ _ | .call _ _ | .seq _ | .foreign _ => false

theorem isDeclaration_iff {s : Stmt} :
    s.isDeclaration = true ↔ ∃ f params body, s = .procedure f params body := by
  cases s <;> simp [isDeclaration]

end Stmt

namespace Session

variable {session session' session'' : Session} {stmts stmts' : List Stmt} {s s' : Stmt}

/-- What a run of the statement can come upon: the actions of the statement and those of all
declarations that are held, nested declarations included. -/
def code (session : Session) (s : Stmt) : List Stmt :=
  s.actions ++
    (session.procedures.filter fun b => b.2.isDeclaration).flatMap fun b => b.2.actions

theorem mem_code_iff {t : Stmt} : t ∈ session.code s ↔ t ∈ s.actions ∨
    ∃ f g params body, (f, .procedure g params body) ∈ session.procedures ∧
      t ∈ (Stmt.procedure g params body).actions := by
  rw [code, List.mem_append, List.mem_flatMap]
  refine or_congr_right ⟨?_, ?_⟩
  · rintro ⟨⟨f, d⟩, hmem, ht⟩
    obtain ⟨hd, hdecl⟩ := List.mem_filter.mp hmem
    obtain ⟨g, params, body, rfl⟩ := Stmt.isDeclaration_iff.mp hdecl
    exact ⟨f, g, params, body, hd, ht⟩
  · rintro ⟨f, g, params, body, hd, ht⟩
    exact ⟨_, List.mem_filter.mpr ⟨hd, rfl⟩, ht⟩

/-- What stands in a part of the code is part of the code. -/
theorem actions_subset_code {t : Stmt} (h : t ∈ session.code s) : t.actions ⊆ session.code s := by
  intro u hu
  rcases mem_code_iff.mp h with ht | ⟨f, g, params, body, hd, ht⟩
  · exact mem_code_iff.mpr (.inl (Stmt.actions_subset ht hu))
  · exact mem_code_iff.mpr (.inr ⟨f, g, params, body, hd, Stmt.actions_subset ht hu⟩)

/-- A declaration that is held is part of the code. -/
theorem declaration_mem_code {f g : String} {params : List String} {body : Stmt}
    (h : (f, .procedure g params body) ∈ session.procedures) (s : Stmt) :
    .procedure g params body ∈ session.code s :=
  mem_code_iff.mpr (.inr ⟨f, g, params, body, h, List.mem_cons_self⟩)

/-- The code of another statement in another session is no more, if the statement and the
declarations that are held there are part of the code. -/
theorem code_subset (hs : s'.actions ⊆ session.code s)
    (hd : ∀ f g params body, (f, .procedure g params body) ∈ session'.procedures →
      .procedure g params body ∈ session.code s) : session'.code s' ⊆ session.code s := by
  intro t ht
  rcases mem_code_iff.mp ht with ht | ⟨f, g, params, body, hmem, ht⟩
  · exact hs ht
  · exact actions_subset_code (hd f g params body hmem) ht

/-- In particular where the same procedures are held. -/
theorem code_subset_of_procedures (hs : s'.actions ⊆ session.code s)
    (hprocedures : session'.procedures = session.procedures) :
    session'.code s' ⊆ session.code s := by
  refine code_subset hs fun f g params body hmem => ?_
  rw [hprocedures] at hmem
  exact declaration_mem_code hmem s

/-- The second session differs from the first by no more than the statements can do. -/
structure Frame (stmts : List Stmt) (session session' : Session) : Prop where
  vars : ∀ x, (∀ t ∈ stmts, x ∉ t.binds) → session'.vars.get? x = session.vars.get? x
  procedures : ∀ f, (∀ params body, .procedure f params body ∉ stmts) →
    session'.procedures.get? f = session.procedures.get? f
  entries : ∀ f d, (f, d) ∈ session'.procedures → (f, d) ∈ session.procedures ∨
    d ∈ stmts ∧ ∃ params body, d = .procedure f params body

theorem Frame.refl (stmts : List Stmt) (session : Session) : Frame stmts session session :=
  ⟨fun _ _ => rfl, fun _ _ => rfl, fun _ _ => .inl⟩

theorem Frame.trans (h : Frame stmts session session') (h' : Frame stmts session' session'') :
    Frame stmts session session'' := by
  refine ⟨fun x hx => ?_, fun f hf => ?_, fun f d hmem => ?_⟩
  · rw [h'.vars x hx, h.vars x hx]
  · rw [h'.procedures f hf, h.procedures f hf]
  · rcases h'.entries f d hmem with hmem | hcode
    · exact h.entries f d hmem
    · exact .inr hcode

theorem Frame.mono (h : Frame stmts session session') (hsubset : stmts ⊆ stmts') :
    Frame stmts' session session' := by
  refine ⟨fun x hx => h.vars x fun t ht => hx t (hsubset ht),
    fun f hf => h.procedures f fun params body ht => hf params body (hsubset ht),
    fun f d hmem => ?_⟩
  rcases h.entries f d hmem with hmem | ⟨hcode, hd⟩
  · exact .inl hmem
  · exact .inr ⟨hsubset hcode, hd⟩

theorem Frame.bind (new : Env) (hnew : ∀ x ∈ new.keys, ∃ t ∈ stmts, x ∈ t.binds) :
    Frame stmts session { session with vars := session.vars.insertAll new } := by
  refine ⟨fun x hx => ?_, fun _ _ => rfl, fun _ _ => .inl⟩
  apply Bindings.get?_insertAll_of_not_mem
  intro hmem
  obtain ⟨t, ht, hbinds⟩ := hnew x hmem
  exact hx t ht hbinds

theorem Frame.declare {f : String} {params : List String} {body : Stmt}
    (h : .procedure f params body ∈ stmts) : Frame stmts session { session with
      procedures := session.procedures.insert f (.procedure f params body) } := by
  refine ⟨fun _ _ => rfl, fun g hg => ?_, fun g d hmem => ?_⟩
  · have hne : f ≠ g := by
      rintro rfl
      exact hg params body h
    change (session.procedures.insert f (.procedure f params body)).get? g = _
    rw [Bindings.get?_insert, if_neg hne]
  · rcases Bindings.mem_insert hmem with heq | hmem
    · cases heq
      exact .inr ⟨h, params, body, rfl⟩
    · exact .inl hmem

/-- What a run has declared on the way was in the code from the start. -/
theorem Frame.declaration_mem (h : Frame (session.code s) session session') {f g : String}
    {params : List String} {body : Stmt}
    (hmem : (f, .procedure g params body) ∈ session'.procedures) :
    .procedure g params body ∈ session.code s := by
  rcases h.entries f _ hmem with hmem | ⟨hcode, -⟩
  · exact declaration_mem_code hmem s
  · exact hcode

end Session

open Session

/-- The run of a statement changes no more than the code that it can come upon can do. -/
theorem Executes.frame {allowed : Int → Prop} {s : Stmt} {session : Session} {effect : Effect}
    (h : Executes allowed s session effect) :
    Frame (session.code s) session effect.session := by
  induction h with
  | print he hv => exact .refl _ _
  | notBool hc hw => exact .refl _ _
  | quit session => exact .refl _ _
  | undefined hget => exact .refl _ _
  | nil session => exact .refl _ _
  | @set x e session v he =>
    refine Frame.bind [(x, v)] fun y hy => ?_
    refine ⟨.set x e, mem_code_iff.mpr (.inl List.mem_cons_self), ?_⟩
    exact hy
  | procedure f params body session =>
    exact .declare (mem_code_iff.mpr (.inl List.mem_cons_self))
  | @ite c t e session b effect hc _ ih =>
    refine ih.mono (code_subset_of_procedures ?_ rfl)
    intro u hu
    exact mem_code_iff.mpr (.inl (Stmt.actions_branch_subset b c t e hu))
  | @call f g args params body session values effect hget _ _ _ ih =>
    have hmem := Bindings.mem_of_get?_eq_some hget
    have hdecl := declaration_mem_code hmem (.call f args)
    -- the body runs with the parameters bound, and both come from the declaration
    refine Frame.trans (Frame.bind _ fun x hx => ?_) (ih.mono (code_subset_of_procedures ?_ rfl))
    · refine ⟨_, hdecl, ?_⟩
      obtain ⟨b, hb, rfl⟩ := List.mem_map.mp hx
      exact (List.of_mem_zip hb).1
    · exact List.Subset.trans (Stmt.actions_body_subset g params body) (actions_subset_code hdecl)
  | @cons s rest session first others _ _ ihs ihrest =>
    have hfirst : session.code s ⊆ session.code (.seq (s :: rest)) := by
      refine code_subset_of_procedures (fun t ht => ?_) rfl
      exact mem_code_iff.mpr (.inl (List.mem_append_left _ ht))
    -- the other statements run in the session that the first one left
    refine Frame.trans (ihs.mono hfirst) (ihrest.mono (code_subset (fun t ht => ?_) ?_))
    · exact mem_code_iff.mpr (.inl (List.mem_append_right _ ht))
    · exact fun f g params body hmem => hfirst (ihs.declaration_mem hmem)

/-- What a run leaves as it was. A variable stays unless it is assigned to or is a parameter
somewhere in the code, and so does a procedure unless it is declared there. Every procedure that is
held in the end was held before, or is a declaration of the code, under its own name. -/
theorem exec_frame (debug : Bool) (depth : Nat) (s : Stmt) (session : Session) (effect : Effect)
    (h : (exec debug depth s session).outcome = .ok effect) :
    (∀ x, (∀ t ∈ session.code s, x ∉ t.binds) →
      effect.session.vars.get? x = session.vars.get? x) ∧
    (∀ f, (∀ params body, .procedure f params body ∉ session.code s) →
      effect.session.procedures.get? f = session.procedures.get? f) ∧
    (∀ f d, (f, d) ∈ effect.session.procedures → (f, d) ∈ session.procedures ∨
      d ∈ session.code s ∧ ∃ params body, d = .procedure f params body) := by
  have hframe := (Executes.of_exec h).frame
  exact ⟨hframe.vars, hframe.procedures, hframe.entries⟩

/-- A session with a procedure that declares another one when it runs. -/
def declaring : Session :=
  { procedures :=
      [("p", .procedure "p" ["a"]
          (.seq [.set "t" (.var "a"), .procedure "q" [] (.set "u" (.var "t"))])),
       ("r", .procedure "r" ["b"] (.print (.var "b")))]
    vars := [("y", .int 1), ("t", .bool true)] }

def callBoth : Stmt :=
  .seq [.call "p" [.int 7], .call "q" []]

theorem exec_frame_callBoth : ∃ effect,
    (exec false 9 callBoth declaring).outcome = .ok effect ∧
    Bindings.keys effect.session.vars = ["y", "t", "a", "u"] ∧
    effect.session.procedures.keys = ["p", "r", "q"] ∧
    effect.session.vars.get? "y" = some (.int 1) ∧
    effect.session.procedures.get? "s" = none ∧
    ∀ d, ("q", d) ∈ effect.session.procedures → d ∈ declaring.code callBoth := by
  have hrun : (exec false 9 callBoth declaring).outcome = .ok ⟨"",
      { procedures := declaring.procedures ++ [("q", .procedure "q" [] (.set "u" (.var "t")))]
        vars := [("y", .int 1), ("t", .int 7), ("a", .int 7), ("u", .int 7)] }⟩ := rfl
  obtain ⟨hvars, hprocedures, hentries⟩ := exec_frame false 9 callBoth declaring _ hrun
  refine ⟨_, hrun, rfl, rfl, hvars "y" (by decide), ?_, fun d hd => ?_⟩
  · refine hprocedures "s" fun params body hmem => ?_
    simp [declaring, callBoth, Session.code, Stmt.actions, Stmt.actionsList,
      Stmt.isDeclaration] at hmem
  · rcases hentries "q" d hd with hheld | ⟨hcode, -⟩
    · simp [declaring] at hheld
    · exact hcode

end ImpLang
