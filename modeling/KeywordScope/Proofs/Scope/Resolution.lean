import KeywordScope.Proofs.Registry.Spelled
import KeywordScope.Proofs.Scope.Lifo
import KeywordScope.Proofs.Scope.Standalones

/-!
# What a name stands for

A name is looked up among all visible keywords. With one language, and any standalone keywords
beside it, what is found is as if the scopes were nested blocks: what stands right below the
innermost entered member goes before the standalone keywords.

* `Registry.atHand`, `Registry.resolve`: the members that can be used, and what a name stands for.
* `choose_eq`: how the choice among visible keywords goes if at most one is a member.
* `Bindable`: every keyword can be bound, or is bound already.
* `Alone`: the registries of one language, with any standalone keywords and entered scopes.
* `Alone.visible_eq`: which keywords are visible then.
* `loadVisible_resolves`: the name is resolved, and bound if it stands for a keyword.
-/

namespace KeywordScope
namespace Registry

open Step
open BindingTable (Stacked)

variable {τ : Type} {r r' : Registry τ} {dsl name : String}

/-! ## Names in a scope -/

/-- The members right below the innermost entered one, or the roots if no scope is entered. -/
def atHand (r : Registry τ) : List Entry :=
  r.entries.filter fun entry => entry.isMember && entry.parent? == r.scope.head?

/-- The keyword that the name stands for: a member at hand, or else the only standalone keyword of
the name. -/
def resolve (r : Registry τ) (name : String) : Except KeywordError Entry :=
  match r.atHand.find? (·.keyword.isNamed name) with
  | some entry => .ok entry
  | none =>
    match r.entries.filter fun entry => !entry.isMember && entry.keyword.isNamed name with
    | [] => .error (.notFound name)
    | [entry] => .ok entry
    | _ => .error (.invalidState (.ambiguousStandalone name))

theorem mem_atHand {entry : Entry} : entry ∈ r.atHand ↔
    entry ∈ r.entries ∧ entry.isMember = true ∧ entry.parent? = r.scope.head? := by
  simp [atHand]

/-- If at most one of the keywords is a member, then this one is chosen, or else the only one. -/
theorem choose_eq {visible : List Entry} (h : (visible.filter Entry.isMember).length ≤ 1) :
    choose name visible =
      match (visible.filter Entry.isMember).head? with
      | some entry => .ok entry
      | none =>
        match visible.filter (!·.isMember) with
        | [] => .error (.notFound name)
        | [entry] => .ok entry
        | _ => .error (.invalidState (.ambiguousStandalone name)) := by
  rcases hmembers : visible.filter Entry.isMember with _ | ⟨member, _ | ⟨other, more⟩⟩
  · -- Without members all keywords are standalone.
    have hall : visible.filter (!·.isMember) = visible := by
      refine List.filter_eq_self.2 fun entry he => ?_
      simpa using List.filter_eq_nil_iff.1 hmembers entry he
    rw [List.head?_nil, hall]
    rcases visible with _ | ⟨first, _ | ⟨second, rest⟩⟩
    · rfl
    · rfl
    · simp only [choose, hmembers]
  · rw [List.head?_cons]
    rcases visible with _ | ⟨first, _ | ⟨second, rest⟩⟩
    · cases hmembers
    · have hfirst : member ∈ [first] := (List.mem_filter.1 (hmembers ▸ List.mem_cons_self)).1
      rw [List.mem_singleton.1 hfirst]
      rfl
    · simp only [choose, hmembers]
  · rw [hmembers] at h
    simp at h

theorem length_le_one_of_nodup {entries : List Entry} (hn : entries.Nodup)
    (h : ∀ a ∈ entries, ∀ b ∈ entries, a = b) : entries.length ≤ 1 := by
  rcases entries with _ | ⟨a, _ | ⟨b, rest⟩⟩
  · exact Nat.zero_le 1
  · exact Nat.le_refl 1
  · have same := h a List.mem_cons_self b (List.mem_cons_of_mem a List.mem_cons_self)
    exact absurd (same ▸ List.mem_cons_self) (List.nodup_cons.1 hn).1

/-! ## Members of one language -/

/-- All members are of this language. -/
def MembersIn (dsl : String) (r : Registry τ) : Prop :=
  ∀ entry ∈ r.entries, entry.isMember = true → entry.isIn dsl = true

theorem outlined_membersIn (dsl : String) : Outlined (τ := τ) (MembersIn dsl) where
  bindings _ _ hr := hr
  entries r entries ho hr entry he hm := by
    obtain ⟨found, hf, same⟩ := exists_mem_of_outline (r := { r with entries }) ho he
    rw [← Entry.isIn_congr same]
    exact hr found hf ((Entry.isMember_congr same).trans hm)

theorem MembersIn.concat (hr : r.MembersIn dsl) {entry : Entry}
    (h : entry.isMember = true → entry.isIn dsl = true) : (r.concat entry).MembersIn dsl := by
  intro other ho hm
  rcases mem_concat.1 ho with ho | rfl
  · exact hr other ho hm
  · exact h hm

theorem grows_membersIn (dsl : String) : Grows (τ := τ) dsl fun _ => MembersIn dsl where
  bindings _ _ _ hr := hr
  up _ _ _ hr := hr
  nextId _ _ hr := hr
  add _ _ _ hr _ _ _ _ _ := MembersIn.concat hr fun _ => sameName_refl dsl

variable [BindingTable τ]

theorem keeps_removeDsl_membersIn (dsl dsl' : String) :
    Keeps (MembersIn (τ := τ) dsl) (removeDsl dsl') := by
  refine keeps_removeDsl_of dsl' (fun id => Keeps.of_run fun r hr entry he => ?_)
    (keeps_rebindStandalones (outlined_membersIn dsl).bindings)
  rw [entries_unregister] at he
  exact hr entry (mem_without.1 he).1

/-! ## Keywords that can be bound -/

/-- Every keyword can be bound: members have names, and a standalone keyword without a name is bound
already. -/
structure Bindable (r : Registry τ) : Prop where
  member_named : ∀ entry ∈ r.entries, entry.isMember = true → entry.keyword.name ≠ ""
  unnamed_bound : r.BoundWhere fun _ keyword => keyword.name = ""

namespace Bindable

theorem ofConfig (config : Config) (bindings : τ) : Bindable (.ofConfig config bindings) where
  member_named _ he := absurd he List.not_mem_nil
  unnamed_bound _ hk := absurd hk List.not_mem_nil

/-- What is visible does not matter, nor do the bindings of other names. -/
theorem of_outline (hr : r.Bindable) (ho : r.outline = r'.outline)
    (hbinds : r.Binds "" → r'.Binds "") : r'.Bindable where
  member_named entry he hm := by
    obtain ⟨found, hf, same⟩ := exists_mem_of_outline ho.symm he
    rw [← Entry.keyword_congr same]
    exact hr.member_named found hf ((Entry.isMember_congr same).trans hm)
  unnamed_bound keyword hk hname := by
    rw [hname]
    exact hbinds (hname ▸ hr.unnamed_bound keyword (standalones_congr ho ▸ hk) hname)

theorem bindName_ok [BindingTable.Lenient τ] (hr : r.Bindable) {entry : Entry}
    (he : entry ∈ r.entries) : (r.bindName entry.keyword).1 = .ok () := by
  by_cases hname : entry.keyword.name = ""
  · have hstand : entry.keyword ∈ r.standalones := by
      refine List.mem_map.2 ⟨entry, List.mem_filter.2 ⟨he, ?_⟩, rfl⟩
      rw [Bool.not_eq_true', Bool.eq_false_iff]
      exact fun hm => hr.member_named entry he hm hname
    have hbound : BindingTable.isBoundTo r.bindings entry.keyword.name r.target = true :=
      hr.unnamed_bound entry.keyword hstand hname
    rw [bindName, if_pos hbound]
  · exact Registry.bindName_ok (BindingTable.Lenient.accepts _ hname)

/-- Loading a name fails only if the name stands for no keyword. -/
theorem run_loadVisible [BindingTable.Lenient τ] (hr : r.Bindable) (name : String) :
    (loadVisible name).run r = (choose name (r.visibleNamed name),
      match choose name (r.visibleNamed name) with
      | .ok entry => r.withBindings (r.bindName entry.keyword).2
      | .error _ => r) := by
  rw [loadVisible, run_bind_ok (run_get r)]
  rcases hchosen : choose name (r.visibleNamed name) with e | entry
  · rfl
  · have he : entry ∈ r.entries := (List.mem_filter.1 (mem_of_choose hchosen)).1
    have hbind : (bindKeyword entry.keyword).run r =
        (.ok (), r.withBindings (r.bindName entry.keyword).2) := by
      rw [run_bindKeyword, hr.bindName_ok he]
      rfl
    exact run_bind_ok hbind

variable [Stacked τ]

theorem not_sameName_empty {name : String} (h : name ≠ "") : sameName name "" = false :=
  Bool.eq_false_iff.2 fun same => h (sameName_empty same)

theorem bindName (hr : r.Bindable) (keyword : Keyword) :
    (r.withBindings (r.bindName keyword).2).Bindable :=
  hr.of_outline rfl fun h => h.bindName keyword

theorem keeps_bindKeyword (keyword : Keyword) : Keeps (Bindable (τ := τ)) (bindKeyword keyword) :=
  Keeps.of_run fun r hr => by
    rw [run_bindKeyword]
    exact hr.bindName keyword

theorem keeps_rebindStandalones : Keeps (Bindable (τ := τ)) rebindStandalones :=
  Keeps.get.bind fun _ => Keeps.forM keeps_bindKeyword

theorem keeps_reveal (id : Keyword.Id) : Keeps (Bindable (τ := τ)) (reveal id) :=
  Keeps.of_run fun r hr => by
    rcases r.reveal_cases id with hrun | ⟨entry, -, -, hrun⟩
    · rwa [hrun]
    · have hshown : (r.setVisible [id] true).Bindable :=
        hr.of_outline (outline_setVisible r [id] true).symm fun h => h
      rw [hrun]
      exact (keeps_bindKeyword entry.keyword).run hshown

/-- Only names of members are purged. -/
theorem keeps_hide (id : Keyword.Id) : Keeps (Bindable (τ := τ)) (hide id) :=
  Keeps.of_run fun r hr => by
    rcases r.hide_cases id with hrun | ⟨entry, he, rfl, hm, hrun⟩
    · rwa [hrun]
    · rw [hrun]
      refine hr.of_outline (outline_setVisible r [entry.id] false).symm fun h => ?_
      exact (binds_purge (r.setVisible [entry.id] false) entry.keyword.name "").2
        ⟨h, not_sameName_empty (hr.member_named entry he hm)⟩

theorem keeps_leaveScope : Keeps (Bindable (τ := τ)) leaveScope :=
  Registry.keeps_leaveScope keeps_hide (fun _ _ _ hr _ => hr.of_outline rfl fun h => h)
    (fun _ _ _ _ _ _ _ sibling _ => keeps_reveal sibling) keeps_rebindStandalones

theorem keeps_enterScope (id : Keyword.Id) : Keeps (Bindable (τ := τ)) (enterScope id) :=
  Registry.keeps_enterScope keeps_hide (fun _ hr => hr.of_outline rfl fun h => h)
    (fun _ _ child _ => keeps_reveal child) keeps_leaveScope

/-- A standalone keyword is registered only if it can be bound. -/
theorem keeps_registerStandalone (keyword : Keyword) :
    Keeps (Bindable (τ := τ)) (registerStandalone keyword) := by
  refine Keeps.bind (Keeps.of_run fun r hr => ?_) fun _ => Keeps.pure _
  have hvisible : ({ keyword, visible := true } : Entry).visible = true := rfl
  rcases r.insert_cases hvisible with hrun | hrun | ⟨hok, hrun⟩
  · rwa [hrun]
  · rw [hrun]
    exact hr.bindName keyword
  · rw [hrun]
    refine ⟨fun entry he hm => ?_, fun other ho hname => ?_⟩
    · rcases mem_concat.1 he with he | rfl
      · exact hr.member_named entry he hm
      · cases hm
    · have hstand : other ∈ r.standalones ∨ other = keyword := by
        simpa [standalones, keywordsWhere, concat, Entry.isMember] using ho
      rcases hstand with ho | rfl
      · exact (hr.bindName keyword).unnamed_bound other ho hname
      · exact isBoundTo_bindName hok

/-- A language takes the bindings of its names along, and all its keywords have names. -/
theorem keeps_removeDsl (dsl : String) :
    Keeps (fun r : Registry τ => r.Settled ∧ r.Bindable) (removeDsl dsl) :=
  Keeps.of_run fun r hr => by
    let purged := (r.without (·.isIn dsl)).withBindings (r.purgeNames (r.members dsl))
    have hunnamed : (r.members dsl).any (·.isNamed "") = false := by
      refine List.any_eq_false.2 fun keyword hk hnamed => ?_
      obtain ⟨entry, he, rfl⟩ := List.mem_map.1 hk
      obtain ⟨he, hin⟩ := List.mem_filter.1 he
      exact hr.2.member_named entry he (Entry.isMember_of_isIn hin) (sameName_empty hnamed)
    have hpurged : purged.Bindable := by
      refine ⟨fun entry he => hr.2.member_named entry (mem_without.1 he).1, ?_⟩
      intro keyword hk hname
      have hk : keyword ∈ r.standalones := r.standalones_without_dsl dsl ▸ hk
      have hbound := hr.2.unnamed_bound keyword hk hname
      rw [hname] at hbound ⊢
      exact (binds_purgeNames r (r.members dsl) "").2 ⟨hbound, hunnamed⟩
    refine ⟨(Registry.keeps_removeDsl dsl).run hr.1, ?_⟩
    exact run_removeDsl_of_purged hr.1.distinct dsl hpurged keeps_rebindStandalones

theorem keeps_declare (output : OutputConfig) (findType : String → Option HostType) (dsl : String)
    (tree : Script.Block) (module? : Option String) :
    Keeps (fun r : Registry τ => r.Settled ∧ r.Bindable)
      (declare output findType dsl tree module?) := by
  refine keeps_declare_of (keeps_removeDsl dsl) (fun g hg => Keeps.of_run fun s hs => ?_) tree
  have hgrows : Grows (τ := τ) ({ dsl, module? } : Forest).dsl (Growing dsl) := grows_growing dsl
  have hsettled := ((hgrows.keeps_grammar [] g hg).run (growing_nil.2 hs.1)).toSettled
  exact ⟨hsettled, hsettled.named,
    (adding_boundWhere.keeps_grammar { dsl, module? } none none g).run hs.2.unnamed_bound⟩

end Bindable

/-! ## One language -/

/-- The registries of one language, which is declared while no scope is entered, and of any
standalone keywords, over a table that may hold anything at first. Visible members only are entered.
A step counts whether it succeeds or not. -/
inductive Alone (dsl : String) : Registry τ → Prop where
  | empty (config : Config) (bindings : τ) : Alone dsl (.ofConfig config bindings)
  | allocate {r : Registry τ} (h : Alone dsl r) : Alone dsl (allocate.run r).2
  | registerStandalone {r : Registry τ} (h : Alone dsl r) (keyword : Keyword) :
      Alone dsl ((registerStandalone keyword).run r).2
  | declare {r : Registry τ} (h : Alone dsl r) (hs : r.scope = []) (output : OutputConfig)
      (findType : String → Option HostType) (tree : Script.Block) (module? : Option String) :
      Alone dsl ((declare output findType dsl tree module?).run r).2
  | declareSource {r : Registry τ} (h : Alone dsl r) (hs : r.scope = []) (output : OutputConfig)
      (findType : String → Option HostType) (source : String) (module? : Option String) :
      Alone dsl ((declareSource output findType dsl source module?).run r).2
  | scope {r r' : Registry τ} (h : Alone dsl r) (hstep : ScopeStep r r') : Alone dsl r'

theorem Alone.reached (h : Alone dsl r) : r.Reached := by
  induction h with
  | empty config bindings => exact .empty config bindings
  | allocate _ ih => exact ih.allocate
  | registerStandalone _ keyword ih => exact ih.registerStandalone keyword
  | declare _ hs output findType tree module? ih =>
    exact ih.declare hs output findType dsl tree module?
  | declareSource _ hs output findType source module? ih =>
    exact ih.declareSource hs output findType dsl source module?
  | scope _ hstep ih => exact ih.scope hstep

variable [Stacked τ]

/-- What holds of one language at any time, besides its scopes being nested. -/
structure Lone (dsl : String) (r : Registry τ) : Prop where
  spelled : r.Spelled
  sound : r.Sound
  members : r.MembersIn dsl
  bindable : r.Bindable

namespace Lone

theorem keeps_registerStandalone (keyword : Keyword) :
    Keeps (Lone (τ := τ) dsl) (registerStandalone keyword) := by
  have hmembers : Keeps (MembersIn (τ := τ) dsl) (registerStandalone keyword) :=
    keeps_registerStandalone_of (outlined_membersIn dsl).bindings keyword fun _ hr _ =>
      hr.concat fun hm => by cases hm
  exact Keeps.of_run fun r hr => ⟨(Spelled.keeps_registerStandalone keyword).run hr.spelled,
    (Sound.keeps_registerStandalone keyword).run hr.sound, hmembers.run hr.members,
    (Bindable.keeps_registerStandalone keyword).run hr.bindable⟩

theorem keeps_declare (output : OutputConfig) (findType : String → Option HostType)
    (tree : Script.Block) (module? : Option String) :
    Keeps (fun r : Registry τ => r.Settled ∧ r.Lone dsl)
      (declare output findType dsl tree module?) :=
  Keeps.of_run fun r hr => by
    have horderly := (keeps_declare_orderly output findType dsl tree module?).run
      (Orderly.mk hr.1 hr.2.spelled hr.2.sound)
    have hmembers := ((grows_membersIn dsl).keeps_declare (keeps_removeDsl_membersIn dsl dsl) output
      findType tree module?).run hr.2.members
    have hbindable := (Bindable.keeps_declare output findType dsl tree module?).run
      ⟨hr.1, hr.2.bindable⟩
    exact ⟨horderly.toSettled, horderly.spelled, horderly.sound, hmembers, hbindable.2⟩

theorem scopeStep (h : ScopeStep r r') (hr : r.Lone dsl) : r'.Lone dsl := by
  have hspelled : ∀ (s : Registry τ) scope, s.Spelled → Spelled { s with scope } :=
    fun _ _ hs => ⟨hs.root, hs.below⟩
  have hmembers := outlined_membersIn (τ := τ) dsl
  cases h with
  | enter id _ _ =>
    exact ⟨(Spelled.outlined.keeps_enterScope hspelled id).run hr.spelled,
      (Sound.durable.keeps_enterScope Sound.durable.scope id).run hr.sound,
      (hmembers.keeps_enterScope (fun _ _ hs => hs) id).run hr.members,
      (Bindable.keeps_enterScope id).run hr.bindable⟩
  | leave _ =>
    exact ⟨(Spelled.outlined.keeps_leaveScope hspelled).run hr.spelled,
      (Sound.durable.keeps_leaveScope Sound.durable.scope).run hr.sound,
      (hmembers.keeps_leaveScope fun _ _ hs => hs).run hr.members,
      Bindable.keeps_leaveScope.run hr.bindable⟩

end Lone

namespace Alone

variable [BindingTable.Lenient τ]

theorem lone (h : Alone dsl r) : r.Lone dsl := by
  induction h with
  | empty config bindings =>
    have horderly := orderly_ofConfig config bindings
    exact ⟨horderly.spelled, horderly.sound, fun _ he => absurd he List.not_mem_nil,
      .ofConfig config bindings⟩
  | allocate _ ih =>
    exact ⟨⟨ih.spelled.root, ih.spelled.below⟩, ih.sound.of_entries rfl, ih.members,
      ih.bindable.of_outline rfl fun h => h⟩
  | registerStandalone _ keyword ih => exact (Lone.keeps_registerStandalone keyword).run ih
  | declare h hs output findType tree module? ih =>
    exact ((Lone.keeps_declare output findType tree module?).run
      ⟨h.reached.nested.settled hs, ih⟩).2
  | declareSource h hs output findType source module? ih =>
    exact ((keeps_declareSource_of (Lone.keeps_declare output findType · module?) source).run
      ⟨h.reached.nested.settled hs, ih⟩).2
  | scope _ hstep ih => exact ih.scopeStep hstep

/-- All members that are entered are of the language. -/
theorem enteredIn_eq (h : Alone dsl r) : r.enteredIn dsl = r.scope := by
  refine List.filter_eq_self.2 fun id hid => ?_
  have hn := h.reached.nested
  obtain ⟨entry, he, rfl, own, hown⟩ := Nested.mem_of_isMember (hn.entered_member id hid)
  have hin : entry.isIn dsl = true := h.lone.members entry he (by rw [Entry.isMember, hown]; rfl)
  obtain ⟨own', hown', same⟩ := Entry.isIn_iff.1 hin
  rw [hn.distinct.membership?_eq he, hown']
  exact same

/-- Standalone keywords are visible, and of the members those at hand. -/
theorem visible_eq (h : Alone dsl r) {entry : Entry} (he : entry ∈ r.entries) :
    entry.visible = (!entry.isMember || entry.parent? == r.scope.head?) := by
  cases hm : entry.isMember with
  | false => exact h.reached.nested.standalone_visible entry he hm
  | true =>
    rw [h.reached.nested.member_visible entry he dsl (h.lone.members entry he hm), h.enteredIn_eq]
    rfl

/-- Members at hand have different names. -/
theorem eq_of_atHand (h : Alone dsl r) {a b : Entry} (ha : a ∈ r.atHand) (hb : b ∈ r.atHand)
    (hna : a.keyword.isNamed name = true) (hnb : b.keyword.isNamed name = true) : a = b := by
  obtain ⟨ha, hma, hpa⟩ := mem_atHand.1 ha
  obtain ⟨hb, hmb, hpb⟩ := mem_atHand.1 hb
  refine h.lone.spelled.eq_of_siblings h.lone.sound.distinct (h.lone.sound.paths dsl) ha hb
    (h.lone.members a ha hma) (h.lone.members b hb hmb) (hpa.trans hpb.symm) ?_
  exact sameName_trans hna (by rwa [sameName_comm])

theorem members_visibleNamed (h : Alone dsl r) (name : String) :
    (r.visibleNamed name).filter Entry.isMember = r.atHand.filter (·.keyword.isNamed name) := by
  rw [visibleNamed, atHand, List.filter_filter, List.filter_filter]
  refine List.filter_congr fun entry he => ?_
  rw [h.visible_eq he]
  cases entry.isMember <;> simp [Bool.and_comm]

theorem standalone_visibleNamed (h : Alone dsl r) (name : String) :
    (r.visibleNamed name).filter (!·.isMember) =
      r.entries.filter fun entry => !entry.isMember && entry.keyword.isNamed name := by
  rw [visibleNamed, List.filter_filter]
  refine List.filter_congr fun entry he => ?_
  rw [h.visible_eq he]
  cases entry.isMember <;> simp

/-- At most one visible member has the name. -/
theorem choose_eq_resolve (h : Alone dsl r) (name : String) :
    choose name (r.visibleNamed name) = r.resolve name := by
  have hone : ((r.visibleNamed name).filter Entry.isMember).length ≤ 1 := by
    have hnodup : r.entries.Nodup := h.lone.sound.distinct.of_map _
    rw [h.members_visibleNamed]
    refine length_le_one_of_nodup ((hnodup.filter _).filter _) fun a ha b hb => ?_
    obtain ⟨ha, hna⟩ := List.mem_filter.1 ha
    obtain ⟨hb, hnb⟩ := List.mem_filter.1 hb
    exact h.eq_of_atHand ha hb hna hnb
  rw [choose_eq hone, h.members_visibleNamed, h.standalone_visibleNamed, List.head?_filter]
  rfl

end Alone

/-- Whatever is entered and left: of the members at hand at most one has the name. The name stands
for it, or else for the only standalone keyword of the name, and is bound to the command then. If
there is none, or several, then this is the error. No entry changes, so nothing that is visible. -/
theorem loadVisible_resolves [BindingTable.Lenient τ] (h : Alone dsl r) (name : String) :
    let after := ((loadVisible name).run r).2
    ((loadVisible name).run r).1 = r.resolve name ∧
      (∀ a ∈ r.atHand, ∀ b ∈ r.atHand,
        a.keyword.isNamed name = true → b.keyword.isNamed name = true → a = b) ∧
      ((r.resolve name).isOk = true → after.Binds name) ∧
      after.entries = r.entries ∧ after.scope = r.scope := by
  intro after
  have hchoose := h.choose_eq_resolve name
  have hrun := h.lone.bindable.run_loadVisible name
  rw [hchoose] at hrun
  refine ⟨congrArg Prod.fst hrun, fun a ha b hb hna hnb => h.eq_of_atHand ha hb hna hnb, ?_⟩
  have hafter : after = _ := congrArg Prod.snd hrun
  rcases hresolve : r.resolve name with e | entry
  · rw [hresolve] at hafter
    rw [hafter]
    exact ⟨fun hok => (by cases hok), rfl, rfl⟩
  · rw [hresolve] at hafter hchoose
    rw [hafter]
    refine ⟨fun _ => ?_, rfl, rfl⟩
    obtain ⟨he, hlike⟩ := List.mem_filter.1 (mem_of_choose hchoose)
    have hnamed : entry.keyword.isNamed name = true := (Bool.and_eq_true_iff.1 hlike).2
    exact (binds_congr hnamed).1 (isBoundTo_bindName (h.lone.bindable.bindName_ok he))

/-- The standalone keyword `Page`, and the language `web`, which has a member of this name. -/
def sampleNamesake : Registry LayeredTable :=
  let page := ((registerStandalone { id := ⟨1⟩, name := "Page" }).run
    (allocate.run (.ofConfig {} {})).2).2
  ((declare {} (fun token => some ⟨token⟩) "web" sampleTree none).run page).2

/-- The name stands for the standalone keyword, and within `Site` for the member below it. -/
theorem loadVisible_resolves_sample :
    let r := ((enterScope ⟨2⟩).run sampleNamesake).2
    let after := ((loadVisible "page").run r).2
    Alone "web" r ∧ (sampleNamesake.resolve "page").toOption.map Entry.id = some ⟨1⟩ ∧
      (r.resolve "page").toOption.map Entry.id = some ⟨3⟩ ∧
      ((loadVisible "page").run r).1 = r.resolve "page" ∧ after.Binds "page" ∧
      after.entries = r.entries ∧ after.scope = r.scope := by
  intro r after
  have halone : Alone "web" sampleNamesake :=
    ((Alone.empty {} ({} : LayeredTable)).allocate.registerStandalone
      { id := ⟨1⟩, name := "Page" }).declare (by decide +kernel) {} (fun token => some ⟨token⟩)
      sampleTree none
  have hentered : Alone "web" r :=
    halone.scope (.enter sampleNamesake ⟨2⟩ (by decide +kernel) (by decide +kernel))
  obtain ⟨hresult, -, hbound, hentries, hscope⟩ := loadVisible_resolves hentered "page"
  exact ⟨hentered, by decide +kernel, by decide +kernel, hresult, hbound (by decide +kernel),
    hentries, hscope⟩

end Registry
end KeywordScope
