import KeywordScope.Proofs.Grammar.RoundTrip

/-!
# Words for types in a declaration

A keyword with one required property, all on one line. The word for the type may be any that the
table of types knows, but a word of control flow makes a statement of another kind, which is no
declaration.

* `parse_typeWord`: what is read of such a line.
* `Grammar.check_typeWord`: how it is checked.
-/

namespace KeywordScope

open Script

/-! ## Reading the line -/

namespace Script

/-- The line that declares a keyword with one property. -/
def typeWordLine (keyword token property : String) : String :=
  keyword ++ " \x7b " ++ token ++ " " ++ property ++ " \x7d"

variable {keyword token property : String}

/-- The block of the keyword has the one statement that is read of the word and the name. -/
theorem parse_typeWord {P : Statement → Prop} (hk : Spelled Char.isAlpha keyword)
    (hflow : hasName flowWords keyword = false)
    (hnamed : ∀ word ∈ ["begin", "process", "end"], ¬ sameName word keyword = true)
    (ht : IsWord token.toList) (hplain : ∀ s, P s → NamedBlock.ofStatement? s = none)
    (hstatement : Reads (token.toList ++ ' ' :: property.toList) [' ', '}'] .statement P) :
    ∃ block a body span span', parse (typeWordLine keyword token property) = .ok block ∧
      block.begin? = none ∧ block.process? = none ∧
      block.statements = [.pipeline [.command [.bareword keyword a, .script body] span] span'] ∧
      body.begin? = none ∧ body.process? = none ∧ ∃ s, body.statements = [s] ∧ P s := by
  -- From the inside out: the statement, the block around it, and the keyword in front.
  have hinner : ReadsInside ([' '] ++ (token.toList ++ ' ' :: property.toList ++ [' '])) ['}']
      fun ss => ∃ s, ss = [s] ∧ P s := by
    have hone := readsInside_cons (ht.opens.append _) (separates_space []) hstatement
      (readsInside_nil (.inr rfl))
    rw [List.append_nil] at hone
    refine (hone.spaced (List.forall_mem_singleton.2 rfl)).imp ?_
    rintro _ ⟨s, _, rfl, hs, rfl⟩
    exact ⟨s, rfl, hs⟩
  have hblock := reads_body separates_end.endsStatement hinner
    (Q := fun b => b.begin? = none ∧ b.process? = none ∧ ∃ s, b.statements = [s] ∧ P s) <| by
    rintro _ text span ⟨s, rfl, hs⟩
    exact ⟨_, assemble_plain text span (List.forall_mem_singleton.2 (hplain s hs)), rfl, rfl, s,
      rfl, hs⟩
  have hword := hk.isWord
  have hline := reads_command hword (endsWord_space _) (by rwa [String.ofList_toList])
    separates_end.endsStatement hblock
  have hsource := readsInside_cons (hword.opens.append _) separates_end hline
    (readsInside_nil (.inl rfl))
  obtain ⟨block, hparse, h⟩ := parse_of_readsInside hsource
    (Q := fun b => b.begin? = none ∧ b.process? = none ∧ ∃ a body span span',
      b.statements = [.pipeline [.command [.bareword keyword a, .script body] span] span'] ∧
        body.begin? = none ∧ body.process? = none ∧ ∃ s, body.statements = [s] ∧ P s) <| by
    rintro _ text span ⟨_, _, rfl, ⟨a, _, span', span'', rfl, body, rfl, hbody⟩, rfl⟩
    refine ⟨_, assemble_plain text span ?_, rfl, rfl, a, body, span', span'', ?_, hbody⟩
    · rw [String.ofList_toList]
      refine List.forall_mem_singleton.2 ?_
      simpa [NamedBlock.ofStatement?, BlockKind.ofWord?, BlockKind.word] using hnamed
    · rw [String.ofList_toList]
      rfl
  obtain ⟨hbegin, hprocess, a, body, span, span', hstatements, hbody⟩ := h
  refine ⟨block, a, body, span, span', ?_, hbegin, hprocess, hstatements, hbody⟩
  rw [← hparse, ← String.ofList_toList (s := typeWordLine keyword token property)]
  simp [typeWordLine]

end Script

/-! ## Checking the line -/

section

variable {rules : Rules} {σ : Type} (finder : FindType σ) {word : String} {elements : List Element}
  {span : Span} {body : Block}

/-- A statement of control flow is no declaration. -/
theorem checkBlock_flow {parent? : Option String} (hbegin : body.begin? = none)
    (hprocess : body.process? = none) (hbody : body.statements = [.flow word elements span]) :
    checkBlock rules finder parent? body = throw
      { fault := .format, node := Statement.shown (.flow word elements span), span } := by
  rw [checkBlock, hbegin, hprocess, hbody, checkStatements]
  rfl

theorem checkStatements_flow {name : String} {a span' span'' : Span} {statements : List Statement}
    (hname : Spelled Char.isAlpha name) (hnothing : ∀ name, rules.lookup name = none)
    (hbegin : body.begin? = none) (hprocess : body.process? = none)
    (hbody : body.statements = [.flow word elements span]) :
    checkStatements rules finder none [] []
        (.pipeline [.command [.bareword name a, .script body] span'] span'' :: statements) = throw
      { fault := .format, node := Statement.shown (.flow word elements span), span } := by
  have hkeyword : checkKeyword rules none [] [] ⟨[.bareword name a, .script body], span'⟩
      (.bareword name a) none body = .ok .noName := by
    refine checkKeyword_iff.2 ⟨?_, List.forall_mem_singleton.2 rfl, rfl,
      isKeywordName_iff.2 hname, nofun, ?_, rfl, nofun⟩
    · simp [Block.isEmpty, hbegin, hprocess, hbody]
    · intro _ binding hbinding
      rw [hnothing] at hbinding
      cases hbinding
  rw [checkStatements]
  show (liftM (checkKeyword rules none [] [] ⟨[.bareword name a, .script body], span'⟩
    (.bareword name a) none body) >>= fun mode =>
      checkBlock rules finder (some name) body >>= fun grammar => _) = _
  rw [hkeyword, checkBlock_flow finder hbegin hprocess hbody]
  rfl

end

/-- The grammar of a keyword with one property. -/
theorem BlockSketch.declaredBy_single {findType : String → Option HostType} {type : HostType}
    {keyword token property : String} (hknown : findType token = some type) {g : Grammar}
    (h : (BlockSketch.keywords
      [.mk keyword .noName (.properties [⟨token, property, true⟩])]).DeclaredBy findType g) :
    ∃ s₁ s₂ s₃ s₄, g = .keywords
      [.mk keyword .noName (.properties [⟨⟨property, true, type⟩, s₁⟩] s₂) s₃] s₄ := by
  obtain ⟨decls, s₄, rfl, hdecls⟩ := h.of_keywords
  obtain ⟨decl, _, hdecl, hmore, rfl⟩ := List.forall₂_cons_left_iff.1 hdecls
  obtain rfl := List.forall₂_nil_left_iff.1 hmore
  obtain ⟨body, s₃, rfl, hbody⟩ := hdecl.of_mk
  obtain ⟨properties, s₂, rfl, hproperties⟩ := hbody.of_properties
  obtain ⟨⟨⟨_, _, _⟩, s₁⟩, _, ⟨hname, hrequired, htype⟩, hmore, rfl⟩ :=
    List.forall₂_cons_left_iff.1 hproperties
  obtain rfl := List.forall₂_nil_left_iff.1 hmore
  simp only at hname hrequired htype
  obtain rfl := Option.some.inj (htype.symm.trans hknown)
  subst hname hrequired
  exact ⟨s₁, s₂, s₃, s₄, rfl⟩

namespace Grammar

variable (types : TypeTable) (dsl dispatcher : String) {reserved : List String}
  {keyword token property : String}

/-- A word for a type that is no word of control flow declares the property. -/
theorem check_plainWord {type : HostType} (hk : Spelled Char.isAlpha keyword)
    (hflow : hasName flowWords keyword = false)
    (hnamed : ∀ word ∈ ["begin", "process", "end"], ¬ sameName word keyword = true)
    (hknown : types.find? token = some type)
    (hproperty : PropertySketch.Admissible types.find? reserved ⟨token, property, true⟩) :
    ∃ block, parse (typeWordLine keyword token property) = .ok block ∧ ∃ s₁ s₂ s₃ s₄,
      Grammar.check ⟨dsl, dispatcher, reserved, LayeredTable.lookup {}⟩ types.find? none block =
        .ok (.keywords
          [.mk keyword .noName (.properties [⟨⟨property, true, type⟩, s₁⟩] s₂) s₃] s₄) := by
  have hplain : ∀ s, PropertySketch.ReadAs ⟨token, property, true⟩ s →
      NamedBlock.ofStatement? s = none := by
    rintro _ ⟨_, _, _, _, rfl⟩
    rfl
  obtain ⟨block, a, body, span, span', hparse, hbegin, hprocess, hstatements, hbegin', hprocess',
    s, hbody, hs⟩ := parse_typeWord hk hflow hnamed hproperty.isWord_token hplain
      (PropertySketch.reads hproperty (endsWord_space ['}']) (separates_space []).endsStatement)
  have hforest : KeywordSketch.AllAdmissible types.find? reserved none
      [.mk keyword .noName (.properties [⟨token, property, true⟩])] := by
    simp only [KeywordSketch.AllAdmissible, KeywordSketch.Admissible, BlockSketch.Admissible]
    exact ⟨⟨hk, by rintro _ ⟨⟩, hflow, fun _ => hnamed, List.cons_ne_nil _ _,
      List.forall_mem_singleton.2 hproperty, List.pairwise_singleton _ _⟩, by rintro _ ⟨⟩, trivial⟩
  have hread : KeywordSketch.AllReadAs
      [.mk keyword .noName (.properties [⟨token, property, true⟩])] block.statements := by
    rw [hstatements]
    simp only [KeywordSketch.AllReadAs, KeywordSketch.ReadAs, BlockSketch.ReadAs]
    exact ⟨⟨a, none, body, span, span', rfl, rfl, hbegin', hprocess', hbody ▸ .cons hs .nil⟩,
      trivial⟩
  obtain ⟨g, hcheck, hdeclared⟩ :=
    KeywordSketch.check_read types dsl dispatcher reserved hforest hbegin hprocess hread
  obtain ⟨s₁, s₂, s₃, s₄, rfl⟩ := BlockSketch.declaredBy_single hknown hdeclared
  exact ⟨block, hparse, s₁, s₂, s₃, s₄, hcheck⟩

/-- A word of control flow makes a statement of another kind. -/
theorem check_flowWord (hk : Spelled Char.isAlpha keyword)
    (hflow : hasName flowWords keyword = false)
    (hnamed : ∀ word ∈ ["begin", "process", "end"], ¬ sameName word keyword = true)
    (hword : IsWord token.toList) (htoken : hasName flowWords token = true)
    (hp : Spelled Char.isAlpha property) :
    ∃ block, parse (typeWordLine keyword token property) = .ok block ∧ ∃ span,
      Grammar.check ⟨dsl, dispatcher, reserved, LayeredTable.lookup {}⟩ types.find? none block =
        .error { fault := .format, node := token ++ " " ++ property, span } := by
  have hstatement := reads_flow hword (endsWord_space _) (by rwa [String.ofList_toList])
    (separates_space []).endsStatement
    (reads_lastWord hp.isWord (endsWord_space ['}']) (separates_space []).endsStatement)
  obtain ⟨block, a, body, _, _, hparse, hbegin, hprocess, hstatements, hbegin', hprocess', s, hbody,
    hs⟩ := parse_typeWord hk hflow hnamed hword
      (by rintro _ ⟨_, _, rfl, _⟩; rfl) hstatement
  obtain ⟨_, span, rfl, b, rfl⟩ := hs
  rw [String.ofList_toList] at hbody
  have hnothing : ∀ name, ({} : LayeredTable).lookup name = none := fun _ => rfl
  refine ⟨block, hparse, span, ?_⟩
  rw [Grammar.check, checkBlock, hbegin, hprocess, hstatements,
    checkStatements_flow _ hk hnothing hbegin' hprocess' hbody]
  rfl

/-- The line is read. It declares the keyword with the property, which is required and has the type
that the word stands for, unless the word is one of control flow: then its statement is refused for
its format. -/
theorem check_typeWord (reserved : List String) {type : HostType}
    (hk : Spelled Char.isAlpha keyword) (hflow : hasName flowWords keyword = false)
    (hnamed : ∀ word ∈ ["begin", "process", "end"], ¬ sameName word keyword = true)
    (ht : isTypeWord token = true) (hknown : types.find? token = some type)
    (hp : Spelled Char.isAlpha property)
    (hfree : ∀ field ∈ reserved, ¬ sameName field property = true) :
    ∃ block, parse (typeWordLine keyword token property) = .ok block ∧
      let outcome :=
        Grammar.check ⟨dsl, dispatcher, reserved, LayeredTable.lookup {}⟩ types.find? none block
      (hasName flowWords token = false → ∃ s₁ s₂ s₃ s₄, outcome = .ok (.keywords
        [.mk keyword .noName (.properties [⟨⟨property, true, type⟩, s₁⟩] s₂) s₃] s₄)) ∧
      (hasName flowWords token = true → ∃ span, outcome = .error
        { fault := .format, node := token ++ " " ++ property, span }) := by
  cases htoken : hasName flowWords token with
  | false =>
    have hproperty : PropertySketch.Admissible types.find? reserved ⟨token, property, true⟩ :=
      PropertySketch.admissible_of_isTypeWord ht (by rw [hknown]; rfl) htoken hp hfree
    obtain ⟨block, hparse, hcheck⟩ :=
      check_plainWord types dsl dispatcher hk hflow hnamed hknown hproperty
    exact ⟨block, hparse, fun _ => hcheck, fun h => Bool.noConfusion h⟩
  | true =>
    obtain ⟨block, hparse, hcheck⟩ := check_flowWord types dsl dispatcher hk hflow hnamed
      (isWord_of_isTypeWord ht) htoken hp
    exact ⟨block, hparse, fun h => Bool.noConfusion h, fun _ => hcheck⟩

theorem check_typeWord_sample :
    Spelled Char.isAlpha "Stage" ∧ hasName flowWords "Stage" = false ∧
      isTypeWord "System.Int32" = true ∧
      ({} : TypeTable).find? "System.Int32" = some ⟨"System.Int32"⟩ ∧
      Spelled Char.isAlpha "Retries" ∧
      ∃ block, parse (typeWordLine "Stage" "System.Int32" "Retries") = .ok block ∧
        ∃ s₁ s₂ s₃ s₄, Grammar.check ⟨"Deploy", "dispatch", ["Name"], LayeredTable.lookup {}⟩
          ({} : TypeTable).find? none block = .ok (.keywords
            [.mk "Stage" .noName (.properties [⟨⟨"Retries", true, ⟨"System.Int32"⟩⟩, s₁⟩] s₂) s₃]
            s₄) := by
  have hk : Spelled Char.isAlpha "Stage" := by decide +kernel
  have hflow : hasName flowWords "Stage" = false := by decide +kernel
  have ht : isTypeWord "System.Int32" = true := by decide +kernel
  have hknown : ({} : TypeTable).find? "System.Int32" = some ⟨"System.Int32"⟩ := by decide +kernel
  have hp : Spelled Char.isAlpha "Retries" := by decide +kernel
  obtain ⟨block, hparse, h, -⟩ := Grammar.check_typeWord {} "Deploy" "dispatch" ["Name"] hk hflow
    (by decide +kernel) ht hknown hp (by decide +kernel)
  exact ⟨hk, hflow, ht, hknown, hp, block, hparse, h (by decide +kernel)⟩

/-- A short name of the built-in table that no declaration without brackets can use. -/
theorem check_switch :
    isTypeWord "switch" = true ∧
      ({} : TypeTable).find? "switch" = some ⟨"System.Management.Automation.SwitchParameter"⟩ ∧
      (parse (typeWordLine "Stage" "switch" "Force")).toOption.map (fun block => (Grammar.check
        ⟨"Deploy", "dispatch", ["Name"], LayeredTable.lookup {}⟩ ({} : TypeTable).find? none
        block).isOk) = some false := by
  decide +kernel

end Grammar

end KeywordScope
