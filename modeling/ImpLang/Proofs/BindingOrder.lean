import ImpLang.Proofs.Adequacy
import ImpLang.Proofs.Likeness
import ImpLang.Proofs.Lookup
import ImpLang.Proofs.Unanswered

namespace ImpLang

def Scope.whole : Scope where
  counts _ _ := True
  var _ := trivial
  fn h := h
  bound _ h := h
  letBody h _ := h
  function h := h
  argument _ h := h
  condition h := h
  branch _ h := h
  left h := h
  right h := h
  leftOf h := h
  rightOf h := h

/-- What a closure captured is a map: no name is bound twice, at any depth. -/
inductive Val.Keyed : Val → Prop
  | int (n : Int) : Keyed (.int n)
  | bool (b : Bool) : Keyed (.bool b)
  | exn (message : String) : Keyed (.exn message)
  | foreign (thing : Foreign) : Keyed (.foreign thing)
  | closure {params : List String} {body : Exp} {captured : List (String × Val)}
      (hnodup : (Bindings.keys captured).Nodup) (hvalues : ∀ b ∈ captured, Keyed b.2) :
      Keyed (.closure params body captured)

structure Env.Keyed (env : Env) : Prop where
  nodup : env.keys.Nodup
  values : ∀ b ∈ env, b.2.Keyed

def Env.same (env env' : Env) : Bool :=
  env.length == env'.length && Val.sameEntries env env'

theorem Val.Keyed.captured {params : List String} {body : Exp} {captured : Env}
    (h : (Val.closure params body captured).Keyed) : captured.Keyed := by
  cases h with
  | closure hnodup hvalues => exact ⟨hnodup, hvalues⟩

theorem Env.Keyed.of_get? {env : Env} (h : env.Keyed) {x : String} {v : Val}
    (hget : env.get? x = some v) : v.Keyed :=
  h.values _ (Bindings.mem_of_get?_eq_some hget)

theorem Env.Keyed.insertAll {env : Env} (h : env.Keyed) {new : Env}
    (hnew : ∀ b ∈ new, b.2.Keyed) : Env.Keyed (env.insertAll new) := by
  induction new generalizing env with
  | nil => exact h
  | cons b new ih =>
    obtain ⟨hb, hnew⟩ := List.forall_mem_cons.mp hnew
    refine ih ⟨Bindings.nodup_keys_insert h.nodup b.1 b.2, fun c hc => ?_⟩ hnew
    rcases Bindings.mem_insert hc with rfl | hmem
    · exact hb
    · exact h.values c hmem

theorem Val.sameEntries_iff {env env' : Env} : Val.sameEntries env env' = true ↔
    ∀ b ∈ env, ∃ w, env'.get? b.1 = some w ∧ b.2.same w = true := by
  induction env with
  | nil => simp [sameEntries]
  | cons b env ih =>
    rw [sameEntries, Bool.and_eq_true, ih, List.forall_mem_cons]
    cases env'.get? b.1 with
    | none => simp
    | some w => simp

theorem Val.same_iff_eq {v w : Val}
    (hv : ∀ params body captured, v ≠ .closure params body captured) :
    v.same w = true ↔ v = w := by
  cases v with
  | closure params body captured => exact absurd rfl (hv params body captured)
  | _ => cases w <;> simp [same]

theorem Val.Alike.iff_eq {scope : Scope} {v w : Val}
    (hv : ∀ params body captured, v ≠ .closure params body captured) :
    Alike scope v w ↔ v = w := by
  constructor
  · intro h
    cases h with
    | closure h => exact absurd rfl (hv _ _ _)
    | _ => rfl
  · rintro rfl
    exact .refl scope v

theorem Val.same_closure_iff {params params' : List String} {body body' : Exp}
    {captured captured' : Env} :
    (Val.closure params body captured).same (.closure params' body' captured') = true ↔
      params = params' ∧ body = body' ∧ captured.same captured' = true := by
  simp [same, Env.same, and_assoc]

theorem Env.same_iff_rel {env env' : Env} (henv : env.Keyed) (henv' : env'.Keyed)
    (h : ∀ b ∈ env, ∀ w : Val, w.Keyed → (b.2.same w = true ↔ Val.Alike .whole b.2 w)) :
    env.same env' = true ↔ ∀ x, Option.Rel (Val.Alike .whole) (env.get? x) (env'.get? x) := by
  rw [Env.same, Bool.and_eq_true, beq_iff_eq, Val.sameEntries_iff]
  constructor
  · rintro ⟨hlength, hentries⟩ x
    refine Bindings.rel_of_entries henv.nodup hlength (fun b hb => ?_) x
    obtain ⟨w, hw, hsame⟩ := hentries b hb
    exact ⟨w, hw, (h b hb w (henv'.of_get? hw)).mp hsame⟩
  · intro hrel
    refine ⟨Bindings.length_eq_of_rel henv.nodup henv'.nodup hrel, fun b hb => ?_⟩
    obtain ⟨w, hw, halike⟩ := Bindings.entries_of_rel henv.nodup hrel hb
    exact ⟨w, hw, (h b hb w (henv'.of_get? hw)).mpr halike⟩

/-- Values are the same exactly if nothing can tell them apart, whatever name it looks up. -/
theorem Val.same_iff_alike {v w : Val} (hv : v.Keyed) (hw : w.Keyed) :
    v.same w = true ↔ Alike .whole v w := by
  induction v using Val.induction generalizing w with
  | int n => rw [same_iff_eq (by simp), Alike.iff_eq (by simp)]
  | bool b => rw [same_iff_eq (by simp), Alike.iff_eq (by simp)]
  | exn message => rw [same_iff_eq (by simp), Alike.iff_eq (by simp)]
  | foreign thing => rw [same_iff_eq (by simp), Alike.iff_eq (by simp)]
  | closure params body captured ih =>
    have hentries : ∀ b ∈ captured, ∀ w : Val, w.Keyed →
        (b.2.same w = true ↔ Alike .whole b.2 w) :=
      fun b hb w => ih b hb (hv.captured.values b hb)
    constructor
    · intro h
      cases w with
      | closure params' body' captured' =>
        obtain ⟨rfl, rfl, hsame⟩ := same_closure_iff.mp h
        exact .closure fun x _ =>
          (Env.same_iff_rel hv.captured hw.captured hentries).mp hsame x
      | _ => cases h
    · intro h
      cases h with
      | closure hrel =>
        refine same_closure_iff.mpr ⟨rfl, rfl, ?_⟩
        exact (Env.same_iff_rel hv.captured hw.captured hentries).mpr fun x => hrel x trivial

theorem Env.Keyed.bindValues {α : Type} {env : Env} (h : env.Keyed) {as : List α}
    {values : List Val} (hlength : as.length = values.length)
    (hvalues : ∀ a w, (a, w) ∈ as.zip values → w.Keyed) (params : List String) :
    Env.Keyed (env.insertAll (params.zip values)) := by
  refine h.insertAll fun b hb => ?_
  have hmem : b.2 ∈ (as.zip values).map Prod.snd := by
    rw [List.map_snd_zip hlength.ge]
    exact (List.of_mem_zip hb).2
  obtain ⟨⟨a, w⟩, haw, hw⟩ := List.mem_map.mp hmem
  exact hw ▸ hvalues a w haw

theorem Op.Gives.keyed {op : Op} {x y v : Val} (h : op.Gives x y v) : v.Keyed := by
  cases h <;> constructor

theorem Evaluates.keyed {e : Exp} {env : Env} {v : Val} (h : Evaluates e env v)
    (henv : env.Keyed) : v.Keyed := by
  induction h with
  | int n env => exact .int n
  | bool b env => exact .bool b
  | bound hget => exact henv.of_get? hget
  | unbound hget => exact .exn _
  | fn params body env => exact .closure henv.nodup henv.values
  | letIn hlength _ _ ihs ih =>
    exact ih (henv.bindValues hlength (fun b w hmem => ihs b w hmem henv) _)
  | apply _ hlength _ _ ihf ihs ih =>
    exact ih ((ihf henv).captured.bindValues hlength (fun e w hmem => ihs e w hmem henv) _)
  | notClosure _ _ _ => exact .exn _
  | ite _ _ _ ih => exact ih henv
  | notBool _ _ _ => exact .exn _
  | binary _ _ hv _ _ => exact hv.keyed
  | symbol _ _ _ hv _ _ => exact hv.keyed

section

variable {debug : Bool} {depth : Nat} {env env' : Env}

theorem eval_keyed {e : Exp} {v : Val} (h : (eval debug depth e env).outcome = .ok v)
    (henv : env.Keyed) : v.Keyed :=
  (Evaluates.of_eval h).keyed henv

/-- Where every name stands for alike values, an expression has the same value. -/
theorem eval_same_of_rel {e : Exp} (henv : env.Keyed) (henv' : env'.Keyed)
    (h : ∀ x, Option.Rel (Val.Alike .whole) (env.get? x) (env'.get? x)) :
    Agree (fun v w => v.same w = true) (eval debug depth e env).outcome
      (eval debug depth e env').outcome := by
  refine (eval_alike .whole debug depth fun x _ => h x).imp fun v w hv hw halike => ?_
  exact (Val.same_iff_alike (eval_keyed hv henv) (eval_keyed hw henv')).mpr halike

/-- What is related to the elements of a list follows them when they are permuted. -/
theorem exists_forall₂_of_perm {α β : Type} {R : α → β → Prop} {as as' : List α} {bs : List β}
    (hperm : as.Perm as') (h : List.Forall₂ R as bs) :
    ∃ bs', List.Forall₂ R as' bs' ∧ (as.zip bs).Perm (as'.zip bs') := by
  induction hperm generalizing bs with
  | nil => exact ⟨bs, h, .refl _⟩
  | cons a _ ih =>
    cases h with
    | cons hab h =>
      obtain ⟨bs', h', hzip⟩ := ih h
      exact ⟨_ :: bs', .cons hab h', hzip.cons _⟩
  | swap a a' as =>
    cases h with
    | cons hab h =>
      cases h with
      | cons hab' h => exact ⟨_, .cons hab' (.cons hab h), .swap _ _ _⟩
  | trans _ _ ih ih' =>
    obtain ⟨bs', h', hzip⟩ := ih h
    obtain ⟨bs'', h'', hzip'⟩ := ih' h'
    exact ⟨bs'', h'', hzip.trans hzip'⟩

theorem eval_letIn_of_perm {bindings bindings' : List (String × Exp)} {body : Exp} {v : Val}
    (hnodup : (bindings.map Prod.fst).Nodup) (hperm : bindings.Perm bindings')
    (henv : env.Keyed) (h : (eval debug depth (.letIn bindings body) env).outcome = .ok v) :
    ∃ w, (eval debug depth (.letIn bindings' body) env).outcome = .ok w ∧ v.same w = true := by
  obtain ⟨d, values, rfl, hvalues, hbody⟩ := eval_letIn_eq_ok_iff.mp h
  -- the values move along with their bindings, so the names stand for the same as before
  obtain ⟨values', hvalues', hzip⟩ := exists_forall₂_of_perm hperm hvalues
  obtain ⟨hlength, hbound⟩ := List.forall₂_iff_zip.mp hvalues
  obtain ⟨hlength', hbound'⟩ := List.forall₂_iff_zip.mp hvalues'
  have hnew : ((bindings.map Prod.fst).zip values).Perm ((bindings'.map Prod.fst).zip values') := by
    rw [List.zip_map_left, List.zip_map_left]
    exact hzip.map _
  have hkeys : (Bindings.keys ((bindings.map Prod.fst).zip values)).Nodup := by
    rw [Bindings.keys, List.map_fst_zip (by simp [hlength])]
    exact hnodup
  have henv₁ := henv.bindValues hlength (fun b w hmem => eval_keyed (hbound hmem) henv)
    (bindings.map Prod.fst)
  have henv₂ := henv.bindValues hlength' (fun b w hmem => eval_keyed (hbound' hmem) henv)
    (bindings'.map Prod.fst)
  have hagree : Agree (fun v w => v.same w = true) (.ok v)
      (eval debug (d + 1) body
        (env.insertAll ((bindings'.map Prod.fst).zip values'))).outcome := by
    rw [← hbody]
    refine eval_same_of_rel henv₁ henv₂ fun x => ?_
    rw [Bindings.get?_insertAll_of_perm hkeys hnew]
    exact Val.Alike.rel_self .whole _
  generalize hbody' : (eval debug (d + 1) body _).outcome = o at hagree
  cases hagree with
  | ok hsame => exact ⟨_, eval_letIn_eq_ok_iff.mpr ⟨d, values', rfl, hvalues', hbody'⟩, hsame⟩

end

/-- The order of bindings makes no difference. Variables that are the same as maps give every
expression the same value, or let it run too deep in both places; and the distinct names of a let
can be bound in any order. -/
theorem eval_same_of_same (debug : Bool) (depth : Nat) :
    (∀ (e : Exp) (env env' : Env), env.Keyed → env'.Keyed → env.same env' = true →
      Agree (fun v w => v.same w = true) (eval debug depth e env).outcome
        (eval debug depth e env').outcome) ∧
    (∀ (bindings bindings' : List (String × Exp)) (body : Exp) (env : Env),
      (bindings.map Prod.fst).Nodup → bindings.Perm bindings' → env.Keyed →
      (∃ v w, (eval debug depth (.letIn bindings body) env).outcome = .ok v ∧
        (eval debug depth (.letIn bindings' body) env).outcome = .ok w ∧ v.same w = true) ∨
      (∃ f f', (eval debug depth (.letIn bindings body) env).outcome = .error f ∧
        (eval debug depth (.letIn bindings' body) env).outcome = .error f' ∧
        (f = .tooDeep ∨ f.isInternal = true) ∧ (f' = .tooDeep ∨ f'.isInternal = true))) := by
  constructor
  · intro e env env' henv henv' hsame
    refine eval_same_of_rel henv henv' ?_
    refine (Env.same_iff_rel henv henv' fun b hb w hw => ?_).mp hsame
    exact Val.same_iff_alike (henv.values b hb) hw
  · intro bindings bindings' body env hnodup hperm henv
    have hnodup' : (bindings'.map Prod.fst).Nodup := (hperm.map Prod.fst).nodup_iff.mp hnodup
    cases hv : (eval debug depth (.letIn bindings body) env).outcome with
    | ok v =>
      obtain ⟨w, hw, hsame⟩ := eval_letIn_of_perm hnodup hperm henv hv
      exact .inl ⟨v, w, rfl, hw, hsame⟩
    | error f =>
      cases hw : (eval debug depth (.letIn bindings' body) env).outcome with
      | ok w =>
        -- a value in the new order gives one in the old order
        obtain ⟨v, hv', -⟩ := eval_letIn_of_perm hnodup' hperm.symm henv hw
        rw [hv] at hv'
        cases hv'
      | error f' =>
        exact .inr
          ⟨f, f', rfl, rfl, eval_failsBy debug depth _ _ hv, eval_failsBy debug depth _ _ hw⟩

def oneWay : Env :=
  [("f", .closure ["n"] (.binary .add (.var "n") (.var "a")) [("a", .int 1), ("b", .int 2)]),
   ("x", .int 5)]

/-- The same variables, with the order turned round at both depths. -/
def otherWay : Env :=
  [("x", .int 5),
   ("f", .closure ["n"] (.binary .add (.var "n") (.var "a")) [("b", .int 2), ("a", .int 1)])]

theorem eval_same_of_same_turned :
    oneWay.same otherWay = true ∧
    Agree (fun v w => v.same w = true)
      (eval false 5 (.apply (.var "f") [.var "x"]) oneWay).outcome
      (eval false 5 (.apply (.var "f") [.var "x"]) otherWay).outcome ∧
    ∃ v w,
      (eval false 5 (.letIn [("p", .var "f"), ("q", .var "x")] (.fn [] (.var "q")))
        oneWay).outcome = .ok v ∧
      (eval false 5 (.letIn [("q", .var "x"), ("p", .var "f")] (.fn [] (.var "q")))
        oneWay).outcome = .ok w ∧ v.same w = true := by
  have hone : oneWay.Keyed := by
    have hcaptured : ∀ b ∈ ([("a", .int 1), ("b", .int 2)] : Env), b.2.Keyed := by
      simp [Val.Keyed.int]
    refine ⟨by decide, ?_⟩
    simp [oneWay, Val.Keyed.int, Val.Keyed.closure (by decide) hcaptured]
  have hother : otherWay.Keyed := by
    have hcaptured : ∀ b ∈ ([("b", .int 2), ("a", .int 1)] : Env), b.2.Keyed := by
      simp [Val.Keyed.int]
    refine ⟨by decide, ?_⟩
    simp [otherWay, Val.Keyed.int, Val.Keyed.closure (by decide) hcaptured]
  have hsame : oneWay.same otherWay = true := by decide
  refine ⟨hsame, (eval_same_of_same false 5).1 _ oneWay otherWay hone hother hsame, ?_⟩
  rcases (eval_same_of_same false 5).2 _ _ (.fn [] (.var "q")) oneWay (by decide)
    (.swap ("q", .var "x") ("p", .var "f") []) hone with h | ⟨f, f', hf, -⟩
  · exact h
  · cases hf

end ImpLang
