import KeywordScope.Proofs.Registry.Composite

/-!
# Failures of steps

A step on a keyword fails with an error of the table, or of the state, and so do the steps that are
composed of them.

* `KeywordError.Usual τ F`: all such errors satisfy `F`.
* `fails_getEntry`, `fails_bindKeyword`, …: one lemma a step.
* `fails_enterScope`, `fails_leaveScope`: scopes.
* `fails_removeDsl`, `fails_grammar`: removals and registrations of whole languages.
-/

namespace KeywordScope

/-- The errors of steps on one keyword satisfy `F`. -/
structure KeywordError.Usual (τ : Type) [BindingTable τ] (F : KeywordError → Prop) : Prop where
  bind : ∀ (table : τ) (name : String) (binding : Binding) (e : HostError),
    (BindingTable.bind table name binding).1 = .error e → F (.host e)
  publish : ∀ (table : τ) (module name : String) (e : HostError),
    (BindingTable.publish table module name).1 = .error e → F (.host e)
  state : ∀ fault, (∀ expected left, fault ≠ .outOfOrder expected left) → F (.invalidState fault)
  operation : ∀ fault, F (.invalidOperation fault)

namespace Registry

open Step

variable {τ : Type} {F : KeywordError → Prop}

theorem fails_changeBindings {change : τ → Except HostError Unit × τ}
    (h : ∀ table e, (change table).1 = .error e → F (.host e)) :
    Fails F (changeBindings change) := by
  intro r _
  rw [run_changeBindings]
  rcases hchange : (change r.bindings).1 with e | _
  · exact h _ e hchange
  · trivial

theorem fails_attempt {α : Type} (action : Action τ α) : Fails F (attempt action) := by
  intro r _
  rw [run_attempt]
  trivial

variable [BindingTable τ] (hF : KeywordError.Usual τ F)

include hF

theorem fails_getEntry (id : Keyword.Id) : Fails F (getEntry (τ := τ) id) := by
  refine Fails.get.bind fun r => ?_
  cases r.find? id with
  | none => exact Fails.throw (hF.state _ nofun)
  | some entry => exact Fails.pure _

theorem fails_bindKeyword (keyword : Keyword) : Fails F (bindKeyword (τ := τ) keyword) :=
  Fails.get.bind fun _ =>
    Fails.ite (Fails.pure _) (fails_changeBindings fun table => hF.bind table _ _)

theorem fails_rebindStandalones : Fails F (rebindStandalones (τ := τ)) :=
  Fails.get.bind fun _ => Fails.forM (fails_bindKeyword hF)

theorem fails_reveal (id : Keyword.Id) : Fails F (reveal (τ := τ) id) :=
  (fails_getEntry hF id).bind fun _ => (Fails.modify _).bind fun _ => fails_bindKeyword hF _

theorem fails_hide (id : Keyword.Id) : Fails F (hide (τ := τ) id) :=
  (fails_getEntry hF id).bind fun _ =>
    Fails.ite ((Fails.modify _).bind fun _ => Fails.modify _) (Fails.throw (hF.operation _))

theorem fails_insert (entry : Entry) : Fails F (insert (τ := τ) entry) := by
  refine Fails.get.bind fun r => Fails.ite (Fails.throw (hF.state _ nofun)) ?_
  exact Fails.ite ((fails_bindKeyword hF _).bind fun _ => Fails.modify _) (Fails.modify _)

theorem fails_registerMember (dsl : String) (keyword : Keyword) (parent? : Option Keyword.Id)
    (path : String) : Fails F (registerMember (τ := τ) dsl keyword parent? path) := by
  refine Fails.get.bind fun r => ?_
  have hinsert : ∀ entry, Fails F (do
      if (r.entryAt? dsl path).isSome then
        throw (.invalidState (.pathTaken path dsl))
      insert entry
      return keyword : Action τ Keyword) := fun entry =>
    Fails.ite (Fails.throw (hF.state _ nofun)) ((fails_insert hF entry).bind fun _ => Fails.pure _)
  cases parent? with
  | none => exact hinsert _
  | some parent => exact Fails.ite (hinsert _) (Fails.throw (hF.state _ nofun))

theorem fails_unregister (id : Keyword.Id) : Fails F (unregister (τ := τ) id) :=
  (fails_getEntry hF id).bind fun _ => (Fails.modify _).bind fun _ =>
    (Fails.modify _).bind fun _ => Fails.pure _

/-- No keyword may be found, or several ones. -/
theorem fails_loadVisible (hnone : ∀ name, F (.notFound name)) (name : String) :
    Fails F (loadVisible (τ := τ) name) := by
  refine Fails.get.bind fun r => ?_
  have hchoose : Fails F (liftM (choose name (r.visibleNamed name)) : Action τ Entry) := by
    unfold choose
    split
    · exact Fails.throw (hnone name)
    · exact Fails.pure _
    · split
      · exact Fails.pure _
      · exact Fails.throw (hF.state _ nofun)
      · exact Fails.throw (hF.state _ nofun)
  exact hchoose.bind fun entry => (fails_bindKeyword hF entry.keyword).bind fun _ => Fails.pure _

/-! ## Scopes -/

theorem fails_openScope (id : Keyword.Id) : Fails F (openScope (τ := τ) id) :=
  Fails.get.bind fun _ => (Fails.forM (fails_hide hF)).bind fun _ =>
    Fails.get.bind fun _ => Fails.forM (fails_reveal hF)

theorem fails_leaveScope : Fails F (leaveScope (τ := τ)) := by
  refine Fails.get.bind fun r => ?_
  rcases r.scope with _ | ⟨id, outer⟩
  · exact Fails.throw (hF.operation _)
  have hend : Fails F (do rebindStandalones; return id : Action τ Keyword.Id) :=
    (fails_rebindStandalones hF).bind fun _ => Fails.pure _
  refine (Fails.modify _).bind fun _ => Fails.get.bind fun _ => Fails.ite ?_ hend
  refine Fails.get.bind fun _ => (Fails.forM (fails_hide hF)).bind fun _ => ?_
  exact Fails.get.bind fun _ => (Fails.forM (fails_reveal hF)).bind fun _ => hend

theorem fails_enterScope (id : Keyword.Id) : Fails F (enterScope (τ := τ) id) := by
  refine (fails_getEntry hF id).bind fun entry => Fails.ite ?_ (Fails.throw (hF.operation _))
  refine (Fails.modify _).bind fun _ => ?_
  have hopen : Meets (fun _ => True) (attempt (openScope (τ := τ) id))
      (fun answer _ => ∀ e, answer = .error e → F e) fun e _ => F e :=
    Meets.attempt (fails_openScope hF id) (fun _ _ _ => nofun)
      fun e _ he => by rintro _ ⟨⟩; exact he
  refine hopen.bind fun answer => Meets.of_imp fun he => ?_
  cases answer with
  | ok _ => exact Fails.pure _
  | error e => exact (fails_attempt _).discard.bind fun _ => Fails.throw (he e rfl)

/-! ## Whole languages -/

theorem fails_removeDsl (dsl : String) : Fails F (removeDsl (τ := τ) dsl) := by
  refine Fails.get.bind fun r => ?_
  refine Fails.bind (Fails.forM fun keyword => (fails_unregister hF keyword.id).discard) fun _ => ?_
  exact Fails.ite (Fails.pure _) ((fails_rebindStandalones hF).bind fun _ => Fails.pure _)

omit hF

variable {forest : Forest}

mutual

theorem fails_decl (hF : KeywordError.Usual τ F) (parent? : Option Keyword.Id)
    (parentPath? : Option String) :
    ∀ d : KeywordDecl, Fails F (Build.decl (τ := τ) forest parent? parentPath? d)
  | .mk name nameMode body _ => by
    unfold Build.decl
    have hstep : ∀ {α : Type} {action : Action τ α}, Fails F action →
        Fails F (Build.onRegistry action) :=
      fun h => Build.meets_onRegistry h
    refine (hstep fun _ _ => trivial).bind fun id => Fails.get.bind fun s => ?_
    refine (hstep (fails_registerMember hF _ _ _ _)).discard.bind fun _ => ?_
    refine (Fails.modify _).bind fun _ => ?_
    split
    · exact (hstep (fails_changeBindings fun table => hF.publish table _ _)).bind
        fun _ => fails_grammar hF _ _ body
    · exact fails_grammar hF _ _ body

theorem fails_grammar (hF : KeywordError.Usual τ F) (parent? : Option Keyword.Id)
    (parentPath? : Option String) :
    ∀ g : Grammar, Fails F (Build.grammar (τ := τ) forest parent? parentPath? g)
  | .keywords ds _ => by
    unfold Build.grammar
    exact fails_decls hF parent? parentPath? ds
  | .properties _ _ => by
    unfold Build.grammar
    exact Fails.pure _

theorem fails_decls (hF : KeywordError.Usual τ F) (parent? : Option Keyword.Id)
    (parentPath? : Option String) :
    ∀ ds : List KeywordDecl, Fails F (Build.decls (τ := τ) forest parent? parentPath? ds)
  | [] => by
    unfold Build.decls
    exact Fails.pure _
  | first :: rest => by
    unfold Build.decls
    exact (fails_decl hF parent? parentPath? first).bind fun _ =>
      fails_decls hF parent? parentPath? rest

end

/-- An accepted tree is declared, unless a step on a keyword fails. -/
theorem fails_declare (hF : KeywordError.Usual τ F) (output : OutputConfig)
    (findType : String → Option HostType) (dsl : String) (tree : Script.Block)
    (module? : Option String) {r : Registry τ} {g : Grammar}
    (hcheck : Grammar.check (r.rules output dsl) findType none tree = .ok g) :
    Meets (· = r) (declare output findType dsl tree module?) (fun _ _ => True) fun e _ => F e := by
  refine Meets.get_bind fun s hs => ?_
  obtain rfl : s = r := hs
  simp only [hcheck]
  refine Meets.bind (R := fun _ _ => True)
    (fun s _ => (fails_removeDsl hF dsl).discard s trivial) fun _ => ?_
  refine Meets.bind (R := fun answer _ => ∀ e, answer.1 = .error e → F e) ?_ ?_
  · intro s _
    have hgrammar : Fails F (Build.grammar (τ := τ) { dsl, module? } none none g) :=
      fails_grammar hF none none g
    have hbuild := hgrammar (s, []) trivial
    show ∀ e, (((Build.grammar { dsl, module? } none none g).run (s, [])).1.map _) = .error e → F e
    rcases hrun : (Build.grammar { dsl, module? } none none g).run (s, []) with ⟨e | _, _⟩
    · rw [hrun] at hbuild
      rintro _ ⟨⟩
      exact hbuild
    · exact nofun
  · rintro ⟨e | _, _⟩
    · refine Meets.of_imp fun he => ?_
      have hrollback : Fails F (discard (attempt (removeDsl (τ := τ) dsl))) :=
        (Meets.attempt (fails_removeDsl hF dsl) (R := fun _ _ => True) (fun _ _ _ => trivial)
          fun _ _ _ => trivial).discard
      exact hrollback.bind fun _ => Fails.throw (he e rfl)
    · exact Meets.get.bind fun _ => Meets.pure fun _ _ => trivial

end Registry
end KeywordScope
