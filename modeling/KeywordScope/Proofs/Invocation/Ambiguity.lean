import KeywordScope.Proofs.Invocation.Operations
import KeywordScope.Proofs.Invocation.Transparency
import KeywordScope.Proofs.Registry.Spelled
import KeywordScope.Proofs.Scope.Beneath
import Mathlib.Data.Finset.Card

/-!
# Ambiguous names

A name may stand for members of several languages at once, since each language names its own
keywords apart only. Then no keyword of the name can be used.

* `Registry.loadVisible_ambiguous_iff`: when a name is ambiguous.
* `Session.Reaches.beneath`: over any table, nested uses show members only below what is entered.
* `Session.names_visible`: of one language, the visible members have different names; a name is
  ambiguous if members of two languages have it.
* `Session.roots_ambiguous`: two languages that are declared one after the other, with a name that
  is ambiguous from then on.
-/

namespace KeywordScope

variable {τ ω : Type}

/-- The entry is that of a visible member of a language, and the name is its name. -/
def Entry.answersTo (name : String) (entry : Entry) : Bool :=
  entry.isMember && (entry.visible && entry.keyword.isNamed name)

theorem Entry.answersTo_iff {name : String} {entry : Entry} :
    entry.answersTo name = true ↔ entry.isMember = true ∧ entry.visible = true ∧
      sameName entry.keyword.name name = true := by
  rw [answersTo, Bool.and_eq_true, Bool.and_eq_true]
  rfl

namespace Registry

/-- Of the visible keywords of a name, several are members of languages. -/
theorem choose_ambiguous_iff {name : String} {visible : List Entry} :
    choose name visible = .error (.invalidState (.ambiguousMember name)) ↔
      1 < (visible.filter Entry.isMember).length := by
  rcases visible with _ | ⟨first, _ | ⟨second, rest⟩⟩
  · simp [choose]
  · have hlength : ([first].filter Entry.isMember).length ≤ 1 := List.length_filter_le _ _
    simpa [choose] using hlength
  · simp only [choose]
    generalize (first :: second :: rest).filter Entry.isMember = members
    rcases members with _ | ⟨entry, _ | ⟨entry', more⟩⟩ <;> simp

variable {r : Registry τ}

/-- Below what is entered, the visible members of a language have different names. -/
theorem Orderly.eq_of_visible {r₀ : Registry τ} {S : List Keyword.Id} (ho : r₀.Orderly)
    (hr : Beneath r₀ S r) {a b : Entry} (ha : a ∈ r.entries) (hb : b ∈ r.entries)
    (hva : a.visible = true) (hvb : b.visible = true) {dsl : String} (hina : a.isIn dsl = true)
    (hinb : b.isIn dsl = true) (same : sameName a.keyword.name b.keyword.name = true) : a = b := by
  have hparent : a.parent? = b.parent? :=
    (hr.parent?_eq ho.distinct ha hva hina).trans (hr.parent?_eq ho.distinct hb hvb hinb).symm
  obtain ⟨a₀, ha₀, hlike⟩ := exists_mem_of_outline hr.outline_eq ha
  obtain ⟨b₀, hb₀, hlike'⟩ := exists_mem_of_outline hr.outline_eq hb
  have hsame : a₀ = b₀ := by
    refine ho.eq_of_siblings ha₀ hb₀ ((Entry.isIn_congr hlike dsl).trans hina)
      ((Entry.isIn_congr hlike' dsl).trans hinb) ?_ ?_
    · rw [Entry.parent?_congr hlike, Entry.parent?_congr hlike', hparent]
    · rwa [Entry.keyword_congr hlike, Entry.keyword_congr hlike']
  refine (ho.distinct.congr hr.outline_eq.symm).eq_of_id ha hb ?_
  rw [← Entry.id_congr hlike, ← Entry.id_congr hlike', hsame]

variable [BindingTable τ]

/-- A name is ambiguous if two visible members have it. -/
theorem loadVisible_ambiguous_iff (hd : r.Distinct) (name : String) :
    ((loadVisible name).run r).1 = .error (.invalidState (.ambiguousMember name)) ↔
      ∃ a ∈ r.entries, ∃ b ∈ r.entries, a.answersTo name = true ∧ b.answersTo name = true ∧
        a ≠ b := by
  -- To bind the keyword that is found may fail, too, but with another error.
  have hload : ((loadVisible name).run r).1 = .error (.invalidState (.ambiguousMember name)) ↔
      choose name (r.visibleNamed name) = .error (.invalidState (.ambiguousMember name)) := by
    rw [loadVisible, Step.run_bind_ok (Step.run_get r)]
    cases choose name (r.visibleNamed name) with
    | error e => rfl
    | ok entry =>
      show ((bindKeyword entry.keyword >>= fun _ => pure entry).run r).1 = _ ↔ _
      rw [Step.run_bind, run_bindKeyword]
      rcases (r.bindName entry.keyword).1 with e | _
      · simp [Except.mapError]
      · simp [Except.mapError, Step.run_pure]
  have hmembers : (r.visibleNamed name).filter Entry.isMember =
      r.entries.filter (·.answersTo name) :=
    List.filter_filter
  have hnodup : (r.entries.filter (·.answersTo name)).Nodup :=
    (List.Nodup.of_map Entry.id hd).filter _
  rw [hload, choose_ambiguous_iff, hmembers, ← List.toFinset_card_of_nodup hnodup,
    Finset.one_lt_card]
  simp only [List.mem_toFinset, List.mem_filter]
  grind

end Registry

/-- The operation declares or removes a language. -/
def Operation.Declares : Operation τ ω → Prop
  | .declare _ _ _ | .declareTree _ _ _ | .removeDsl _ => True
  | _ => False

namespace Session

open Registry

variable [BindingTable τ] (session : Session τ ω)

/-- While languages are declared and removed, the registry stays orderly. -/
theorem orderly_perform (operation : Operation τ ω) (h : operation.Declares) (depth : Nat) :
    Run.Keeps Orderly (session.perform depth operation) := by
  cases operation with
  | declare dsl source module? =>
    exact (session.keeps_declare keeps_declare_orderly .free dsl source module?).map
  | declareTree dsl tree module? =>
    exact (session.keeps_declareTree keeps_declare_orderly .free dsl tree module?).map
  | removeDsl dsl => exact (keeps_change .free (keeps_removeDsl_orderly dsl)).map
  | _ => exact h.elim

variable {r₀ : Registry τ}

/-- The parts of a use that begins with a given stack. -/
theorem parts_beneath (hf : r₀.Forested) (hhost : session.host.Asks Operation.OnlyUses)
    {invoke : Request → Run τ ω (List Value)}
    (hinvoke : ∀ S request, Run.Keeps (Beneath r₀ S) (invoke request)) (S : List Keyword.Id) :
    Invocation.Parts (session.runBlock invoke) (Moment.Satisfies fun r => ∃ S, Beneath r₀ S r)
      (Beneath r₀ S) (fun entry => r₀.membership? entry.id = entry.membership? ∧ Under r₀ S entry.id)
      fun entry => Beneath r₀ (entry.id :: S) := by
  have hplace : ∀ {entry : Entry}, r₀.membership? entry.id = entry.membership? →
      entry.isMember = true → ∃ own, r₀.membership? entry.id = some own := by
    intro entry hmem hm
    rw [hmem]
    exact Option.isSome_iff_exists.1 hm
  exact {
    load := meets_loadVisible_beneath hf.distinct
    enter := fun entry hfound hm => by
      obtain ⟨own, hown⟩ := hplace hfound.1 hm
      exact meets_enterScope_beneath hf hown hfound.2
    leave := fun entry hfound hm => by
      obtain ⟨own, hown⟩ := hplace hfound.1 hm
      exact (meets_leaveScope_beneath hf hown hfound.2).conseq (fun _ hr => hr)
        (fun _ _ hr => ⟨.inl hr.1, hr.2⟩) fun _ _ hr => ⟨trivial, hr⟩
    block := session.keeps_block hhost (hinvoke S)
    body := fun entry _ _ block => session.keeps_block hhost (hinvoke (entry.id :: S)) block []
    started_hook := fun _ hr => ⟨⟨S, hr⟩, ⟨S, hr⟩⟩
    started_body := fun _ _ _ _ hr => ⟨S, hr⟩
    started_within := fun entry _ _ _ hr => ⟨entry.id :: S, hr⟩
    released := fun _ => trivial }

variable {session} {first state : State τ ω}

theorem Reaches.orderly {bindings : τ}
    (h : session.Reaches Operation.Declares (session.start bindings) first) :
    first.registry.Orderly := by
  refine h.keeps (orderly_ofConfig session.config bindings) ?_ ?_
  · exact fun depth operation hop => session.orderly_perform operation hop depth
  · exact fun _ _ _ hop => hop.elim

/-- Nested uses show members only below what is entered. -/
theorem Reaches.beneath (hhost : session.host.Asks Operation.OnlyUses)
    (hfirst : first.registry.Settled) (h : session.Reaches Operation.OnlyUses first state) :
    ∃ S, Beneath first.registry S state.registry := by
  have hf := hfirst.toForested
  refine h.keeps (I := fun r => ∃ S, Beneath first.registry S r) ⟨[], hfirst.beneath⟩ ?_ ?_
  · intro depth operation hop
    exact Run.Keeps.of_forall fun S =>
      session.keeps_perform (session.keeps_invoke_of_parts
        (fun _ => session.parts_beneath hf hhost) depth S) operation hop .free
  · rintro depth request state - ⟨S, hs⟩
    exact session.moments_of_parts (fun _ => session.parts_beneath hf hhost) depth request S state hs

/-- Languages are declared and removed, and after that keywords are used. Of one language, the visible
members have different names then. So a name is ambiguous if, and only if, visible members of two
languages have it. -/
theorem names_visible (hhost : session.host.Asks Operation.OnlyUses) {bindings : τ}
    (hfirst : session.Reaches Operation.Declares (session.start bindings) first)
    (h : session.Reaches Operation.OnlyUses first state) :
    (∀ a ∈ state.registry.entries, ∀ b ∈ state.registry.entries, a.visible = true →
      b.visible = true → ∀ dsl, a.isIn dsl = true → b.isIn dsl = true →
        sameName a.keyword.name b.keyword.name = true → a = b) ∧
      ∀ name, ((loadVisible name).run state.registry).1 =
          .error (.invalidState (.ambiguousMember name)) ↔
        ∃ a ∈ state.registry.entries, ∃ b ∈ state.registry.entries,
          a.answersTo name = true ∧ b.answersTo name = true ∧
            ∃ dsl, a.isIn dsl = true ∧ b.isIn dsl = false := by
  have ho := hfirst.orderly
  obtain ⟨S, hr⟩ := h.beneath hhost ho.toSettled
  refine ⟨fun a ha b hb hva hvb dsl => ho.eq_of_visible hr ha hb hva hvb, fun name => ?_⟩
  rw [loadVisible_ambiguous_iff (ho.distinct.congr hr.outline_eq.symm)]
  constructor
  · rintro ⟨a, ha, b, hb, hna, hnb, hne⟩
    obtain ⟨hma, hva, hnameda⟩ := Entry.answersTo_iff.1 hna
    obtain ⟨-, hvb, hnamedb⟩ := Entry.answersTo_iff.1 hnb
    obtain ⟨own, hown⟩ := Option.isSome_iff_exists.1 hma
    have hina : a.isIn own.dsl = true := Entry.isIn_iff.2 ⟨own, hown, sameName_refl _⟩
    refine ⟨a, ha, b, hb, hna, hnb, own.dsl, hina, Bool.eq_false_iff.2 fun hinb => hne ?_⟩
    refine ho.eq_of_visible hr ha hb hva hvb hina hinb (sameName_trans hnameda ?_)
    rwa [sameName_comm]
  · rintro ⟨a, ha, b, hb, hna, hnb, dsl, hina, hinb⟩
    refine ⟨a, ha, b, hb, hna, hnb, ?_⟩
    rintro rfl
    rw [hina] at hinb
    cases hinb

theorem names_visible_sample :
    let session : Session LayeredTable Unit := { host := pagingHost }
    session.host.Asks Operation.OnlyUses ∧ ∃ first state,
      session.Reaches Operation.Declares (session.start {}) first ∧
        session.Reaches Operation.OnlyUses first state ∧
        ∀ a ∈ state.registry.entries, ∀ b ∈ state.registry.entries, a.visible = true →
          b.visible = true → a.isIn "web" = true → b.isIn "web" = true →
            sameName a.keyword.name b.keyword.name = true → a = b := by
  intro session
  have hhost : session.host.Asks Operation.OnlyUses := pagingHost_onlyUses
  have hruns : ((session.perform 0 (.declare "web" "Site { Page { string Title } }" none)).run
      (session.start {})).any (fun declared => ((session.perform 2
        (.invoke (.ofKeyword "Site" (.script ⟨""⟩)))).run declared.2).isSome) = true := by
    decide +kernel
  obtain ⟨⟨roots, first⟩, hdeclare, huse⟩ := (Option.any_eq_true _ _).1 hruns
  obtain ⟨⟨items, state⟩, huse⟩ := Option.isSome_iff_exists.1 huse
  have hfirst : session.Reaches Operation.Declares (session.start {}) first :=
    .performed .refl 0 _ (by exact trivial) roots hdeclare
  have hstate : session.Reaches Operation.OnlyUses first state :=
    .performed .refl 2 _ (by exact trivial) items huse
  have hnames := (names_visible hhost hfirst hstate).1
  exact ⟨hhost, first, state, hfirst, hstate,
    fun a ha b hb hva hvb => hnames a ha b hb hva hvb "web"⟩

/-- Two languages with the root `Page` are declared, each with success. From then on the name is
ambiguous. -/
theorem roots_ambiguous :
    let session : Session LayeredTable Unit := { host := pagingHost }
    let page := "Page { string Title }"
    ∃ roots roots' first state,
      (session.perform 0 (.declare "web" page none)).run (session.start {}) =
          some (.ok roots, first) ∧
        (session.perform 0 (.declare "print" page none)).run first = some (.ok roots', state) ∧
        (∃ a ∈ state.registry.entries, ∃ b ∈ state.registry.entries,
          a.answersTo "Page" = true ∧ b.answersTo "Page" = true ∧ a ≠ b) ∧
        ((loadVisible "Page").run state.registry).1 =
          .error (.invalidState (.ambiguousMember "Page")) := by
  intro session page
  have hruns : ((session.perform 0 (.declare "web" page none)).run (session.start {})).any
      (fun web => web.1.isOk && ((session.perform 0 (.declare "print" page none)).run web.2).any
        fun print => print.1.isOk && decide (∃ a ∈ print.2.registry.entries,
          ∃ b ∈ print.2.registry.entries,
            a.answersTo "Page" = true ∧ b.answersTo "Page" = true ∧ a ≠ b)) = true := by
    decide +kernel
  obtain ⟨⟨roots, first⟩, hweb, hruns⟩ := (Option.any_eq_true _ _).1 hruns
  obtain ⟨hroots, hruns⟩ := Bool.and_eq_true_iff.1 hruns
  obtain ⟨⟨roots', state⟩, hprint, hruns⟩ := (Option.any_eq_true _ _).1 hruns
  obtain ⟨hroots', hambiguous⟩ := Bool.and_eq_true_iff.1 hruns
  have hambiguous := of_decide_eq_true hambiguous
  have hreached : session.Reaches Operation.Declares (session.start {}) state :=
    .performed (.performed .refl 0 _ (by exact trivial) roots hweb) 0 _ (by trivial) roots' hprint
  cases roots with
  | error e => cases hroots
  | ok roots =>
    cases roots' with
    | error e => cases hroots'
    | ok roots' =>
      exact ⟨roots, roots', first, state, hweb, hprint, hambiguous,
        (loadVisible_ambiguous_iff hreached.orderly.distinct "Page").2 hambiguous⟩

end Session
end KeywordScope
