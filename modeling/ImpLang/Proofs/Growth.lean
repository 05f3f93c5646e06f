import ImpLang.Proofs.Adequacy
import ImpLang.Proofs.Drivers

namespace ImpLang

namespace Bindings

variable {α : Type} {bs bs' bs'' : Bindings α}

/-- The old names come first and in their old order, and if they were distinct, so are all names. -/
structure Grows (bs bs' : Bindings α) : Prop where
  keys : bs.keys <+: bs'.keys
  nodup : bs.keys.Nodup → bs'.keys.Nodup

theorem Grows.refl (bs : Bindings α) : Grows bs bs :=
  ⟨List.prefix_refl _, id⟩

theorem Grows.trans (h : Grows bs bs') (h' : Grows bs' bs'') : Grows bs bs'' :=
  ⟨h.keys.trans h'.keys, fun hnodup => h'.nodup (h.nodup hnodup)⟩

theorem grows_insert (bs : Bindings α) (x : String) (v : α) : Grows bs (bs.insert x v) := by
  refine ⟨?_, fun hnodup => nodup_keys_insert hnodup x v⟩
  rw [keys_insert]
  split_ifs
  · exact List.prefix_refl _
  · exact List.prefix_append _ _

theorem grows_insertAll (bs new : Bindings α) : Grows bs (bs.insertAll new) := by
  induction new generalizing bs with
  | nil => exact .refl bs
  | cons b new ih =>
    rw [insertAll_cons]
    exact (grows_insert bs b.1 b.2).trans (ih _)

end Bindings

namespace Session

variable {session session' session'' : Session}

structure Grows (session session' : Session) : Prop where
  vars : Bindings.Grows session.vars session'.vars
  procedures : Bindings.Grows session.procedures session'.procedures

theorem Grows.refl (session : Session) : Grows session session :=
  ⟨.refl _, .refl _⟩

theorem Grows.trans (h : Grows session session') (h' : Grows session' session'') :
    Grows session session'' :=
  ⟨h.vars.trans h'.vars, h.procedures.trans h'.procedures⟩

theorem grows_bind (session : Session) (new : Env) :
    Grows session { session with vars := session.vars.insertAll new } :=
  ⟨Bindings.grows_insertAll _ new, .refl _⟩

theorem grows_declare (session : Session) (f : String) (s : Stmt) :
    Grows session { session with procedures := session.procedures.insert f s } :=
  ⟨.refl _, Bindings.grows_insert _ f s⟩

end Session

open Session

/-- Running a statement only adds names. -/
theorem Executes.grows {allowed : Int → Prop} {s : Stmt} {session : Session} {effect : Effect}
    (h : Executes allowed s session effect) : session.Grows effect.session := by
  induction h with
  | print he hv => exact .refl _
  | notBool hc hw => exact .refl _
  | quit session => exact .refl _
  | undefined hget => exact .refl _
  | nil session => exact .refl _
  | @set x e session v he => exact session.grows_bind [(x, v)]
  | procedure f params body session => exact session.grows_declare f _
  | ite _ _ ih => exact ih
  -- what the procedure leaves replaces the caller's variables, and it started from these
  | call _ _ _ _ ih => exact (grows_bind _ _).trans ih
  | cons _ _ ihs ihrest => exact ihs.trans ihrest

namespace Session

variable {limits : Limits} {debug : Bool} {session middle last : Session}
  {entered rest texts texts' : List String}

/-- A line leaves the session as it was, or what its statement makes of it. -/
theorem step_grows {line : String} {reply : Reply}
    (h : (session.step limits debug line).outcome = .ok reply) : session.Grows reply.session := by
  have hline := session.step_lineOutcome limits debug line
  rw [h] at hline
  cases hline with
  | rejected _ => exact .refl session
  | quit _ => exact .refl session
  | tooDeep _ _ _ => exact .refl session
  | ran _ _ _ hexec => exact (Executes.of_exec hexec).grows

/-- Lines that were all answered: so was the first, and the others in the session it left. -/
theorem of_feed_cons {line : String}
    (h : session.feed limits debug (line :: rest) = .ok (texts, last)) :
    ∃ reply others, (session.step limits debug line).outcome = .ok reply ∧
      texts = reply.text :: others ∧ reply.session.feed limits debug rest = .ok (others, last) := by
  cases hstep : (session.step limits debug line).outcome with
  | error e =>
    rw [feed_of_error hstep] at h
    cases h
  | ok reply =>
    rw [feed_of_step hstep] at h
    cases hrest : reply.session.feed limits debug rest with
    | error e =>
      rw [hrest] at h
      cases h
    | ok run =>
      rw [hrest] at h
      cases h
      exact ⟨reply, run.1, rfl, rfl, hrest⟩

/-- So lines only add names, one after another. -/
theorem feed_grows (h : session.feed limits debug entered = .ok (texts, last)) :
    session.Grows last := by
  induction entered generalizing session texts with
  | nil =>
    cases h
    exact .refl _
  | cons line entered ih =>
    obtain ⟨reply, others, hstep, -, hrest⟩ := of_feed_cons h
    exact (step_grows hstep).trans (ih hrest)

/-- Lines that are entered after others start from the session that these left. -/
theorem feed_of_append (h : session.feed limits debug entered = .ok (texts, middle))
    (happend : session.feed limits debug (entered ++ rest) = .ok (texts', last)) :
    ∃ others, middle.feed limits debug rest = .ok (others, last) := by
  induction entered generalizing session texts texts' with
  | nil =>
    cases h
    exact ⟨texts', happend⟩
  | cons line entered ih =>
    obtain ⟨reply, others, hstep, -, hentered⟩ := of_feed_cons h
    obtain ⟨reply', others', hstep', -, hrest⟩ := of_feed_cons happend
    rw [hstep] at hstep'
    cases hstep'
    exact ih hentered hrest

end Session

/-- No binding is lost and none is moved. A statement that is run in a session with distinct names
leaves the names where they are and puts new ones behind them, distinct as before; and so it is from
any moment of a dialogue, whatever lines were entered before, to every later one. -/
theorem names_only_grow (debug : Bool) :
    (∀ (depth : Nat) (s : Stmt) (session : Session) (effect : Effect),
      session.vars.keys.Nodup → session.procedures.keys.Nodup →
      (exec debug depth s session).outcome = .ok effect →
      session.vars.keys <+: effect.session.vars.keys ∧
      session.procedures.keys <+: effect.session.procedures.keys ∧
      effect.session.vars.keys.Nodup ∧ effect.session.procedures.keys.Nodup) ∧
    (∀ (limits : Limits) (session middle last : Session) (entered rest texts texts' : List String),
      session.vars.keys.Nodup → session.procedures.keys.Nodup →
      session.feed limits debug entered = .ok (texts, middle) →
      session.feed limits debug (entered ++ rest) = .ok (texts', last) →
      middle.vars.keys <+: last.vars.keys ∧ middle.procedures.keys <+: last.procedures.keys ∧
      last.vars.keys.Nodup ∧ last.procedures.keys.Nodup) := by
  constructor
  · intro depth s session effect hvars hprocedures hexec
    have hgrows := (Executes.of_exec hexec).grows
    exact ⟨hgrows.vars.keys, hgrows.procedures.keys, hgrows.vars.nodup hvars,
      hgrows.procedures.nodup hprocedures⟩
  · intro limits session middle last entered rest texts texts' hvars hprocedures hmiddle hlast
    -- the lines entered later run in the session that the earlier ones left
    obtain ⟨others, hrest⟩ := feed_of_append hmiddle hlast
    have hgrows := feed_grows hrest
    have hall := feed_grows hlast
    exact ⟨hgrows.vars.keys, hgrows.procedures.keys, hall.vars.nodup hvars,
      hall.procedures.nodup hprocedures⟩

/-- A session whose second procedure declares the first one anew, and has a parameter twice. -/
def redeclaring : Session :=
  { procedures := [("q", .procedure "q" [] .quit),
      ("p", .procedure "p" ["x", "z", "z"]
        (.seq [.procedure "r" [] .quit, .procedure "q" ["a"] .quit]))]
    vars := [("y", .int 0), ("x", .int 1)] }

theorem names_only_grow_redeclaring :
    (∃ effect,
      (exec false 9 (.call "p" [.int 5, .int 6, .int 7]) redeclaring).outcome = .ok effect ∧
      effect.session.vars.keys = ["y", "x", "z"] ∧
      effect.session.procedures.keys = ["q", "p", "r"] ∧
      redeclaring.vars.keys <+: effect.session.vars.keys ∧
      redeclaring.procedures.keys <+: effect.session.procedures.keys) ∧
    ∃ texts texts' middle last,
      Session.feed ⟨30, 30⟩ true {} ["y := 1;", "y := ;", "procedure p(x, x) y := x; endproc"] =
        .ok (texts, middle) ∧
      Session.feed ⟨30, 30⟩ true {} ["y := 1;", "y := ;", "procedure p(x, x) y := x; endproc",
        "quit;", "call p(2, 3);"] = .ok (texts', last) ∧
      middle.vars.keys = ["y"] ∧ last.vars.keys = ["y", "x"] ∧
      middle.vars.keys <+: last.vars.keys ∧ middle.procedures.keys <+: last.procedures.keys := by
  constructor
  · have hexec : (exec false 9 (.call "p" [.int 5, .int 6, .int 7]) redeclaring).outcome = .ok ⟨"",
        { procedures := [("q", .procedure "q" ["a"] .quit),
            ("p", .procedure "p" ["x", "z", "z"]
              (.seq [.procedure "r" [] .quit, .procedure "q" ["a"] .quit])),
            ("r", .procedure "r" [] .quit)]
          vars := [("y", .int 0), ("x", .int 5), ("z", .int 7)] }⟩ := rfl
    have hgrow := (names_only_grow false).1 9 _ _ _ (by decide) (by decide) hexec
    exact ⟨_, hexec, rfl, rfl, hgrow.1, hgrow.2.1⟩
  · refine ⟨_, _, _, _, rfl, rfl, rfl, rfl, ?_⟩
    have hgrow := (names_only_grow true).2 ⟨30, 30⟩ {} _ _
      ["y := 1;", "y := ;", "procedure p(x, x) y := x; endproc"] ["quit;", "call p(2, 3);"] _ _
      List.nodup_nil List.nodup_nil rfl rfl
    exact ⟨hgrow.1, hgrow.2.1⟩

end ImpLang
