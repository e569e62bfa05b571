import KeywordScope.Proofs.Binding.Stacks
import KeywordScope.Proofs.Declaration.Building
import KeywordScope.Proofs.Grammar.Alike
import Mathlib.Data.List.Forall2

/-!
# Registrations side by side

Two grammars that are alike are registered in two registries whose other keywords are not in the way.
Then both registrations succeed, or both find a path or an identity taken, and the new entries are
alike.

* `Keyword.Like`, `Entry.Like`: keywords and entries that differ in the spelling of names, and in
  identities that are later by some number.
* `Tandem`: two languages, and what stands beside them.
* `Tandem.Holds`: the two registries so far.
* `Tandem.agrees_decl`, `Tandem.outcomes_declare`: what becomes of them.
-/

namespace KeywordScope

/-- The identity that is given out so many later. -/
def Keyword.Id.later (id : Keyword.Id) (shift : Nat) : Keyword.Id :=
  ⟨id.number + shift⟩

theorem Keyword.Id.later_beq (id id' : Keyword.Id) (shift : Nat) :
    (id.later shift == id'.later shift) = (id == id') := by
  rw [Bool.eq_iff_iff, beq_iff_eq, beq_iff_eq]
  constructor
  · intro h
    have hnumber := congrArg Keyword.Id.number h
    exact congrArg Keyword.Id.mk (Nat.add_right_cancel hnumber)
  · exact fun h => h ▸ rfl

/-- The keywords differ in the spelling of names, and the second one has a later identity. -/
structure Keyword.Like (S : Spelling) (shift : Nat) (keyword keyword' : Keyword) : Prop where
  id : keyword'.id = keyword.id.later shift
  name : S.same keyword.name keyword'.name
  nameMode : keyword'.nameMode = keyword.nameMode
  body : keyword.body.Like S keyword'.body
  module? : keyword'.module? = keyword.module?

/-- The places differ in the spelling of names, and the second parent has a later identity. -/
structure Membership.Like (S : Spelling) (shift : Nat) (place place' : Membership) : Prop where
  dsl : S.same place.dsl place'.dsl
  path : S.same place.path place'.path
  parent? : place'.parent? = place.parent?.map (·.later shift)

/-- The entries differ in the spelling of names, and the second one has later identities. -/
structure Entry.Like (S : Spelling) (shift : Nat) (entry entry' : Entry) : Prop where
  keyword : entry.keyword.Like S shift entry'.keyword
  visible : entry'.visible = entry.visible
  membership? : Option.Rel (Membership.Like S shift) entry.membership? entry'.membership?
  onInvoking? : entry'.onInvoking? = entry.onInvoking?
  onInvoked? : entry'.onInvoked? = entry.onInvoked?

theorem rel_any {α β : Type} {R : α → β → Prop} {a? : Option α} {b? : Option β} {p : α → Bool}
    {q : β → Bool} (h : Option.Rel R a? b?) (hpq : ∀ {a b}, R a b → p a = q b) :
    a?.any p = b?.any q := by
  cases h with
  | none => rfl
  | some h => exact hpq h

namespace Entry.Like

variable {S : Spelling} {shift : Nat} {entry entry' : Entry}

theorem isMember_eq (h : entry.Like S shift entry') : entry.isMember = entry'.isMember := by
  have hplace := h.membership?
  rw [Entry.isMember, Entry.isMember]
  generalize entry.membership? = place?, entry'.membership? = place?' at hplace
  cases hplace <;> rfl

theorem isIn_eq (h : entry.Like S shift entry') {dsl dsl' : String} (hdsl : S.same dsl dsl') :
    entry.isIn dsl = entry'.isIn dsl' :=
  rel_any h.membership? fun hplace => S.sameName_eq hplace.dsl hdsl

theorem isRoot_eq (h : entry.Like S shift entry') : entry.isRoot = entry'.isRoot := by
  refine rel_any h.membership? fun hplace => ?_
  rw [hplace.parent?, Option.isNone_map]

theorem path (h : entry.Like S shift entry') : S.same entry.path entry'.path := by
  have hplace := h.membership?
  rw [Entry.path, Entry.path]
  generalize entry.membership? = place?, entry'.membership? = place?' at hplace
  cases hplace with
  | none => exact h.keyword.name
  | some hplace => exact hplace.path

theorem parent? (h : entry.Like S shift entry') :
    entry'.parent? = entry.parent?.map (·.later shift) := by
  have hplace := h.membership?
  rw [Entry.parent?, Entry.parent?]
  generalize entry.membership? = place?, entry'.membership? = place?' at hplace
  cases hplace with
  | none => rfl
  | some hplace => exact hplace.parent?

/-- The roots of a language among entries that are alike are alike. -/
theorem roots {entries entries' : List Entry}
    (h : List.Forall₂ (Entry.Like S shift) entries entries') {dsl dsl' : String}
    (hdsl : S.same dsl dsl') : List.Forall₂ (Keyword.Like S shift)
      ((entries.filter fun entry => entry.isRoot && entry.isIn dsl).map (·.keyword))
      ((entries'.filter fun entry => entry.isRoot && entry.isIn dsl').map (·.keyword)) := by
  rw [List.forall₂_map_left_iff, List.forall₂_map_right_iff]
  refine (List.rel_filter (fun entry entry' hentry => ?_) h).imp fun _ _ hentry => hentry.keyword
  show (entry.isRoot && entry.isIn dsl) = true ↔ (entry'.isRoot && entry'.isIn dsl') = true
  rw [hentry.isRoot_eq, hentry.isIn_eq hdsl]

end Entry.Like

namespace Registry

open Step

/-- Two languages whose grammars are alike, and the entries beside them. -/
structure Tandem where
  spelling : Spelling
  shift : Nat
  forest : Forest
  forest' : Forest
  dsl : spelling.same forest.dsl forest'.dsl
  module? : forest'.module? = forest.module?
  base : List Entry
  base' : List Entry
  lacks : ∀ entry ∈ base, entry.isIn forest.dsl = false
  lacks' : ∀ entry ∈ base', entry.isIn forest'.dsl = false

namespace Tandem

variable {τ : Type} (P : Tandem)

/-- The entries so far are alike. The keywords of `way` are registered in both registries. An identity
to come that has a keyword already has one in both, and then the identities are the same. -/
structure Holds (way : List Keyword.Id) (r r' : Registry τ) : Prop where
  spare : ∀ id : Keyword.Id, r.nextId ≤ id.number →
    (r'.find? (id.later P.shift)).isSome = (r.find? id).isSome ∧ (P.shift = 0 ∨ r.find? id = none)
  grown : ∃ new new', r.entries = P.base ++ new ∧ r'.entries = P.base' ++ new' ∧
    List.Forall₂ (Entry.Like P.spelling P.shift) new new'
  nextId : r'.nextId = r.nextId + P.shift
  scope : r'.scope.isEmpty = r.scope.isEmpty
  separator : r'.separator = r.separator
  members : ∀ id ∈ way, r.isMember id = true ∧ r'.isMember (id.later P.shift) = true

/-- Both registrations have found a path taken, or both the same identity. -/
inductive Errors : KeywordError → KeywordError → Prop
  | idTaken (id : Keyword.Id) :
      Errors (.invalidState (.idTaken id)) (.invalidState (.idTaken id))
  | pathTaken {path path' : String} (h : P.spelling.same path path') :
      Errors (.invalidState (.pathTaken path P.forest.dsl))
        (.invalidState (.pathTaken path' P.forest'.dsl))

/-- Both registrations have succeeded, or both have failed. -/
inductive Ends (way : List Keyword.Id) :
    Except KeywordError Unit × (Registry τ × List Keyword.Id) →
      Except KeywordError Unit × (Registry τ × List Keyword.Id) → Prop
  | ok {s s' : Registry τ × List Keyword.Id} (h : P.Holds way s.1 s'.1) :
      Ends way (.ok (), s) (.ok (), s')
  | error {s s' : Registry τ × List Keyword.Id} {e e' : KeywordError} (h : P.Errors e e') :
      Ends way (.error e, s) (.error e', s')

/-- The two steps of a registration keep the registries alike, or fail alike. -/
def Agrees (way : List Keyword.Id) (step step' : Build τ Unit) : Prop :=
  ∀ s s', P.Holds way s.1 s'.1 → P.Ends way (step.run s) (step'.run s')

variable {P} {way : List Keyword.Id} {r r' : Registry τ}

theorem Agrees.pure : P.Agrees (τ := τ) way (pure ()) (pure ()) :=
  fun _ _ h => .ok h

theorem Agrees.bind {step step' next next' : Build τ Unit} (h : P.Agrees way step step')
    (hnext : P.Agrees way next next') :
    P.Agrees way (step >>= fun _ => next) (step' >>= fun _ => next') := by
  intro s s' hs
  have hstep := h s s' hs
  rw [run_bind, run_bind]
  generalize step.run s = p, step'.run s' = p' at hstep
  cases hstep with
  | ok hholds => exact hnext _ _ hholds
  | error herrors => exact .error herrors

namespace Holds

/-- What is known below a keyword is known next to it. -/
theorem up {id : Keyword.Id} (h : P.Holds (id :: way) r r') : P.Holds way r r' :=
  { h with members := fun other ho => h.members other (List.mem_cons_of_mem _ ho) }

theorem next_later (h : P.Holds way r r') :
    (⟨r'.nextId⟩ : Keyword.Id) = Keyword.Id.later ⟨r.nextId⟩ P.shift :=
  congrArg Keyword.Id.mk h.nextId

theorem parent_member (h : P.Holds way r r') {parent? : Option Keyword.Id}
    (hparent : ∀ p, parent? = some p → p ∈ way) :
    (∀ parent, parent? = some parent → r.isMember parent = true) ∧
      ∀ parent, parent?.map (·.later P.shift) = some parent → r'.isMember parent = true := by
  refine ⟨fun parent hp => (h.members parent (hparent parent hp)).1, fun parent hp => ?_⟩
  obtain ⟨id, hid, rfl⟩ := Option.map_eq_some_iff.1 hp
  exact (h.members id (hparent id hid)).2

/-- A path is taken in both registries or in none. -/
theorem taken_eq (h : P.Holds way r r') {path path' : String}
    (hpath : P.spelling.same path path') :
    (r'.entryAt? P.forest'.dsl path').isSome = (r.entryAt? P.forest.dsl path).isSome := by
  obtain ⟨new, new', hentries, hentries', hnew⟩ := h.grown
  have hbase : ∀ {base : List Entry} {dsl path : String},
      (∀ entry ∈ base, entry.isIn dsl = false) →
      (base.any fun entry => entry.isIn dsl && sameName entry.path path) = false := by
    intro base dsl path hlacks
    rw [List.any_eq_false]
    intro entry he
    simp [hlacks entry he]
  rw [entryAt?, entryAt?, List.isSome_find?, List.isSome_find?, hentries, hentries',
    List.any_append, List.any_append, hbase P.lacks, hbase P.lacks']
  congr 1
  clear hentries hentries'
  induction hnew with
  | nil => rfl
  | cons hentry _ ih =>
    rw [List.any_cons, List.any_cons, ih, hentry.isIn_eq P.dsl,
      P.spelling.sameName_eq hentry.path hpath]

/-- The next two keywords are registered, with the next identities. -/
theorem grow (h : P.Holds way r r') {entry entry' : Entry}
    (hentry : entry.Like P.spelling P.shift entry') (hid : entry.id = ⟨r.nextId⟩)
    (hfresh : r.find? entry.id = none) (hmember : entry.isMember = true) (t t' : τ) :
    P.Holds (entry.id :: way) ((r.grow [entry]).withBindings t)
      ((r'.grow [entry']).withBindings t') := by
  have hid' : entry'.id = entry.id.later P.shift := hentry.keyword.id
  have hfresh' : r'.find? entry'.id = none := by
    have hspare := (h.spare entry.id (by rw [hid])).1
    rwa [hfresh, ← hid', Option.isSome_none, Option.isSome_eq_false_iff,
      Option.isNone_iff_eq_none] at hspare
  have hmember' : entry'.isMember = true := hentry.isMember_eq ▸ hmember
  obtain ⟨new, new', hentries, hentries', hnew⟩ := h.grown
  refine ⟨fun id hnext => ?_,
    ⟨new ++ [entry], new' ++ [entry'], ?_, ?_, List.rel_append hnew (.cons hentry .nil)⟩, ?_, h.scope,
    h.separator, ?_⟩
  · have hlt : r.nextId < id.number := hnext
    have hne : entry.id ≠ id := by
      rintro rfl
      rw [hid] at hlt
      exact lt_irrefl _ hlt
    have hne' : entry'.id ≠ id.later P.shift := by
      rw [hid', ← beq_eq_false_iff_ne, Keyword.Id.later_beq, beq_eq_false_iff_ne]
      exact hne
    show ((r'.grow [entry']).find? _).isSome = ((r.grow [entry]).find? id).isSome ∧
      (P.shift = 0 ∨ (r.grow [entry]).find? id = none)
    rw [find?_grow_of_ne hne, find?_grow_of_ne hne']
    exact h.spare id (Nat.le_of_lt hlt)
  · rw [entries_withBindings, entries_grow, hentries, List.append_assoc]
  · rw [entries_withBindings, entries_grow, hentries', List.append_assoc]
  · show r'.nextId + 1 = r.nextId + 1 + P.shift
    rw [h.nextId, Nat.add_right_comm]
  · intro id hmem
    rcases List.mem_cons.1 hmem with rfl | hway
    · exact ⟨isMember_grow_self hfresh hmember, hid' ▸ isMember_grow_self hfresh' hmember'⟩
    · obtain ⟨hm, hm'⟩ := h.members id hway
      exact ⟨isMember_grow hm [entry], isMember_grow hm' [entry']⟩

end Holds

theorem Ends.up {id : Keyword.Id}
    {p p' : Except KeywordError Unit × (Registry τ × List Keyword.Id)}
    (h : P.Ends (id :: way) p p') : P.Ends way p p' := by
  cases h with
  | ok h => exact .ok h.up
  | error h => exact .error h

/-! ## Whole grammars -/

section Grammar

variable [BindingTable τ] {parent? : Option Keyword.Id} {parentPath? parentPath?' : Option String}

theorem pathBelow_like (hpath : Option.Rel P.spelling.same parentPath? parentPath?')
    (separator : String) {name name' : String} (hname : P.spelling.same name name') :
    P.spelling.same (Build.pathBelow separator parentPath? name)
      (Build.pathBelow separator parentPath?' name') := by
  cases hpath with
  | none => exact hname
  | some h => exact P.spelling.append (P.spelling.append h (P.spelling.refl _)) hname

theorem memberEntry_like {keyword keyword' : Keyword}
    (hkeyword : keyword.Like P.spelling P.shift keyword') (parent? : Option Keyword.Id)
    {path path' : String} (hpath : P.spelling.same path path') (visible : Bool) :
    ((memberEntry P.forest.dsl keyword parent? path).withVisible visible).Like P.spelling P.shift
      ((memberEntry P.forest'.dsl keyword' (parent?.map (·.later P.shift)) path').withVisible
        visible) :=
  ⟨hkeyword, rfl, .some ⟨P.dsl, hpath, rfl⟩, rfl, rfl⟩

/-- Two keywords that are alike are registered at paths that are free, with all below them still to
come. -/
theorem run_decl_free [BindingTable.Lenient τ] (h : P.Holds way r r')
    (hparent : ∀ p, parent? = some p → p ∈ way) {name name' : String}
    (hsame : P.spelling.same name name') (hname : name ≠ "") (nameMode : NameMode)
    {body body' : Grammar} (hbody : body.Like P.spelling body') (span span' : Span)
    (hnext : P.spelling.same (Build.pathBelow r.separator parentPath? name)
      (Build.pathBelow r'.separator parentPath?' name'))
    (hfree : r.entryAt? P.forest.dsl (Build.pathBelow r.separator parentPath? name) = none)
    (hfree' : r'.entryAt? P.forest'.dsl (Build.pathBelow r'.separator parentPath?' name') = none)
    (hfresh : r.find? ⟨r.nextId⟩ = none) (hfresh' : r'.find? ⟨r'.nextId⟩ = none)
    (registered registered' : List Keyword.Id) :
    ∃ id path path' s s', P.spelling.same path path' ∧ P.Holds (id :: way) s.1 s'.1 ∧
      (Build.decl P.forest parent? parentPath? (.mk name nameMode body span)).run (r, registered) =
        (Build.grammar P.forest (some id) (some path) body).run s ∧
      (Build.decl P.forest' (parent?.map (·.later P.shift)) parentPath?'
          (.mk name' nameMode body' span')).run (r', registered') =
        (Build.grammar P.forest' (some (id.later P.shift)) (some path') body').run s' := by
  obtain ⟨hmember, hmember'⟩ := h.parent_member hparent
  have hname' : name' ≠ "" := by
    rintro rfl
    exact hname (sameName_empty (P.spelling.sameName hsame))
  obtain ⟨t, hrun⟩ := Build.run_decl hfresh nameMode body span hname hmember hfree registered
  obtain ⟨t', hrun'⟩ :=
    Build.run_decl hfresh' nameMode body' span' hname' hmember' hfree' registered'
  have hvisible : ((parent?.map (·.later P.shift)).isNone && r'.scope.isEmpty) =
      (parent?.isNone && r.scope.isEmpty) := by
    rw [Option.isNone_map, h.scope]
  rw [h.next_later, hvisible] at hrun'
  have hkeyword : Keyword.Like P.spelling P.shift
      ((KeywordDecl.mk name nameMode body span).keyword P.forest ⟨r.nextId⟩)
      ((KeywordDecl.mk name' nameMode body' span').keyword P.forest'
        (Keyword.Id.later ⟨r.nextId⟩ P.shift)) :=
    ⟨rfl, hsame, rfl, hbody.toBody, P.module?⟩
  have hholds := h.grow (memberEntry_like hkeyword parent? hnext
    (parent?.isNone && r.scope.isEmpty)) rfl hfresh rfl t t'
  exact ⟨⟨r.nextId⟩, _, _, (_, _), (_, _), hnext, hholds, hrun, hrun'⟩

/-- Two keywords that are alike are registered, with all below them still to come, or fail alike. -/
theorem run_decl_cases [BindingTable.Lenient τ] (h : P.Holds way r r')
    (hparent : ∀ p, parent? = some p → p ∈ way)
    (hpath : Option.Rel P.spelling.same parentPath? parentPath?') {name name' : String}
    (hsame : P.spelling.same name name') (hname : name ≠ "") (nameMode : NameMode)
    {body body' : Grammar} (hbody : body.Like P.spelling body') (span span' : Span)
    (registered registered' : List Keyword.Id) :
    let run := (Build.decl P.forest parent? parentPath? (.mk name nameMode body span)).run
      (r, registered)
    let run' := (Build.decl P.forest' (parent?.map (·.later P.shift)) parentPath?'
      (.mk name' nameMode body' span')).run (r', registered')
    P.Ends way run run' ∨ ∃ id path path' s s', P.spelling.same path path' ∧
      P.Holds (id :: way) s.1 s'.1 ∧
      run = (Build.grammar P.forest (some id) (some path) body).run s ∧
      run' = (Build.grammar P.forest' (some (id.later P.shift)) (some path') body').run s' := by
  intro run run'
  obtain ⟨hmember, hmember'⟩ := h.parent_member hparent
  have hnext : P.spelling.same (Build.pathBelow r.separator parentPath? name)
      (Build.pathBelow r'.separator parentPath?' name') := by
    rw [h.separator]
    exact pathBelow_like hpath r.separator hsame
  have htaken' := h.taken_eq hnext
  cases htaken : (r.entryAt? P.forest.dsl (Build.pathBelow r.separator parentPath? name)).isSome with
  | true =>
    have hrun : run = _ := Build.run_decl_error nameMode body span
      (run_registerMember_taken hmember htaken) registered
    have hrun' : run' = _ := Build.run_decl_error nameMode body' span'
      (run_registerMember_taken hmember' (htaken'.trans htaken)) registered'
    rw [hrun, hrun']
    exact .inl (.error (.pathTaken hnext))
  | false =>
    have hfree := Option.isSome_eq_false_iff.1 htaken
    have hfree' := Option.isSome_eq_false_iff.1 (htaken'.trans htaken)
    rw [Option.isNone_iff_eq_none] at hfree hfree'
    obtain ⟨hknown', hzero⟩ := h.spare ⟨r.nextId⟩ (Nat.le_refl _)
    rw [← h.next_later] at hknown'
    cases hknown : (r.find? ⟨r.nextId⟩).isSome with
    | true =>
      -- The next identity has a keyword already, in both registries.
      have hrun : run = _ := Build.run_decl_error nameMode body span
        (run_registerMember_known hmember hfree hknown) registered
      have hrun' : run' = _ := Build.run_decl_error nameMode body' span'
        (run_registerMember_known hmember' hfree' (hknown'.trans hknown)) registered'
      have hshift := hzero.resolve_right (Option.isSome_iff_ne_none.1 hknown)
      have hid : (⟨r'.nextId⟩ : Keyword.Id) = ⟨r.nextId⟩ := by
        rw [h.next_later, hshift]
        rfl
      rw [hrun, hrun']
      exact .inl (.error (hid ▸ .idTaken _))
    | false =>
      have hfresh := Option.isSome_eq_false_iff.1 hknown
      have hfresh' := Option.isSome_eq_false_iff.1 (hknown'.trans hknown)
      rw [Option.isNone_iff_eq_none] at hfresh hfresh'
      exact .inr (run_decl_free h hparent hsame hname nameMode hbody span span' hnext hfree hfree'
        hfresh hfresh' registered registered')

mutual

/-- Two keywords that are alike are registered with all below them. -/
theorem agrees_decl [BindingTable.Lenient τ] (way : List Keyword.Id) {parent? : Option Keyword.Id}
    {parentPath? parentPath?' : Option String} (hparent : ∀ p, parent? = some p → p ∈ way)
    (hpath : Option.Rel P.spelling.same parentPath? parentPath?') :
    ∀ {d : KeywordDecl}, d.Proper → ∀ {d' : KeywordDecl}, d.Like P.spelling d' →
      P.Agrees (τ := τ) way (Build.decl P.forest parent? parentPath? d)
        (Build.decl P.forest' (parent?.map (·.later P.shift)) parentPath?' d')
  | .mk name nameMode body span, ⟨hname, _, hproper⟩, .mk name' nameMode' body' span', hlike => by
    obtain ⟨hsame, rfl, hbody⟩ :
        P.spelling.same name name' ∧ nameMode' = nameMode ∧ body.Like P.spelling body' := by
      cases hlike
      exact ⟨‹_›, rfl, ‹_›⟩
    rintro ⟨r, registered⟩ ⟨r', registered'⟩ h
    rcases run_decl_cases h hparent hpath hsame (ne_empty_of_isKeywordName hname) nameMode' hbody span
      span' registered registered' with hends | ⟨id, path, path', s, s', hnext, hs, hrun, hrun'⟩
    · exact hends
    · have hwithin : ∀ p, some id = some p → p ∈ id :: way := by
        rintro _ ⟨⟩
        exact List.mem_cons_self
      have hbelow := agrees_grammar (id :: way) hwithin (.some hnext) hproper hbody s s' hs
      rw [hrun, hrun']
      exact hbelow.up

theorem agrees_grammar [BindingTable.Lenient τ] (way : List Keyword.Id) {parent? : Option Keyword.Id}
    {parentPath? parentPath?' : Option String} (hparent : ∀ p, parent? = some p → p ∈ way)
    (hpath : Option.Rel P.spelling.same parentPath? parentPath?') :
    ∀ {g : Grammar}, g.Proper → ∀ {g' : Grammar}, g.Like P.spelling g' →
      P.Agrees (τ := τ) way (Build.grammar P.forest parent? parentPath? g)
        (Build.grammar P.forest' (parent?.map (·.later P.shift)) parentPath?' g')
  | .keywords ds _, hproper, .keywords ds' _, hlike => by
    unfold Build.grammar
    refine agrees_decls way hparent hpath hproper ?_
    cases hlike
    assumption
  | .properties _ _, _, .properties _ _, _ => by
    unfold Build.grammar
    exact Agrees.pure

theorem agrees_decls [BindingTable.Lenient τ] (way : List Keyword.Id) {parent? : Option Keyword.Id}
    {parentPath? parentPath?' : Option String} (hparent : ∀ p, parent? = some p → p ∈ way)
    (hpath : Option.Rel P.spelling.same parentPath? parentPath?') :
    ∀ {ds : List KeywordDecl}, Grammar.AllProper ds → ∀ {ds' : List KeywordDecl},
      List.Forall₂ (KeywordDecl.Like P.spelling) ds ds' →
      P.Agrees (τ := τ) way (Build.decls P.forest parent? parentPath? ds)
        (Build.decls P.forest' (parent?.map (·.later P.shift)) parentPath?' ds')
  | [], _, [], _ => by
    unfold Build.decls
    exact Agrees.pure
  | d :: ds, ⟨hd, _, hds⟩, d' :: ds', h => by
    obtain ⟨hfirst, hmore⟩ := List.forall₂_cons.1 h
    unfold Build.decls
    exact (agrees_decl way hparent hpath hd hfirst).bind
      (agrees_decls way hparent hpath hds hmore)

end

end Grammar

/-! ## Whole declarations -/

variable (P) in
/-- Both declarations have succeeded, with roots that are alike, or both have failed. -/
inductive Outcomes :
    Except KeywordError (List Keyword) × Registry τ →
      Except KeywordError (List Keyword) × Registry τ → Prop
  | ok {roots roots' : List Keyword} {s s' : Registry τ}
      (hroots : List.Forall₂ (Keyword.Like P.spelling P.shift) roots roots')
      (h : P.Holds [] s s') : Outcomes (.ok roots, s) (.ok roots', s')
  | error {e e' : KeywordError} {s s' : Registry τ} (h : P.Errors e e') :
      Outcomes (.error e, s) (.error e', s')

/-- The roots of the two languages are alike. -/
theorem Holds.roots (h : P.Holds way r r') :
    List.Forall₂ (Keyword.Like P.spelling P.shift) (r.roots P.forest.dsl)
      (r'.roots P.forest'.dsl) := by
  obtain ⟨new, new', hentries, hentries', hnew⟩ := h.grown
  have hbase : ∀ {base : List Entry} {dsl : String},
      (∀ entry ∈ base, entry.isIn dsl = false) →
      base.filter (fun entry => entry.isRoot && entry.isIn dsl) = [] := by
    intro base dsl hlacks
    rw [List.filter_eq_nil_iff]
    intro entry he
    simp [hlacks entry he]
  rw [Registry.roots, Registry.roots, keywordsWhere, keywordsWhere, hentries, hentries',
    List.filter_append, List.filter_append, hbase P.lacks, hbase P.lacks', List.nil_append,
    List.nil_append]
  exact Entry.Like.roots hnew P.dsl

/-- Two grammars that are alike are declared alike, once the former keywords are removed. -/
theorem outcomes_declare [BindingTable τ] [BindingTable.Lenient τ] {s s' : Registry τ}
    {output output' : OutputConfig} {findType findType' : String → Option HostType}
    {tree tree' : Script.Block} {g g' : Grammar} {removed removed' : Nat}
    (hcheck : Grammar.check (r.rules output P.forest.dsl) findType none tree = .ok g)
    (hcheck' : Grammar.check (r'.rules output' P.forest'.dsl) findType' none tree' = .ok g')
    (hlike : g.Like P.spelling g')
    (hremove : (removeDsl P.forest.dsl).run r = (.ok removed, s))
    (hremove' : (removeDsl P.forest'.dsl).run r' = (.ok removed', s')) (h : P.Holds [] s s') :
    P.Outcomes ((declare output findType P.forest.dsl tree P.forest.module?).run r)
      ((declare output' findType' P.forest'.dsl tree' P.forest'.module?).run r') := by
  have hroot : ∀ p : Keyword.Id, none = some p → p ∈ [] := nofun
  have hends := agrees_grammar [] hroot .none (Grammar.check_accepted hcheck).1 hlike (s, []) (s', [])
    h
  rw [run_declare_build hcheck hremove, run_declare_build hcheck' hremove']
  replace hends : P.Ends [] ((Build.grammar P.forest none none g).run (s, []))
    ((Build.grammar P.forest' none none g').run (s', [])) := hends
  generalize hp : (Build.grammar P.forest none none g).run (s, []) = p,
    hp' : (Build.grammar P.forest' none none g').run (s', []) = p' at hends
  cases hends with
  | ok hholds => exact .ok hholds.roots hholds
  | error herrors => exact .error herrors

end Tandem
end Registry
end KeywordScope
