import KeywordScope.Proofs.Registry.Sound
import Mathlib.Data.List.Induction

/-!
# When members form forests

The keyword above a member is looked at when the member is registered, and never again. So members
form forests for as long as no keyword is removed on its own while others stand below it, and no
member is registered below one of another language.

* `Rooted`: following parents from a member leads to a root.
* `IsForest`: every member stands below a member of its language, or is a root, and is rooted.
* `Edit.Spares`: the operation does neither of the two things above.
* `Edit.isForest_iff`: an operation keeps the forests if and only if it spares them.
* `forest_along_iff`: the same for all that is reached by any operations.
* `removal_leaves_child`: a removal that leaves a member without the keyword above it.
-/

namespace KeywordScope
namespace Registry

open Step

variable {τ : Type} {r r' : Registry τ}

/-! ## Forests -/

/-- Following parents from the member leads to a root. -/
inductive Rooted (r : Registry τ) : Keyword.Id → Prop where
  | root {id : Keyword.Id} {own : Membership} (h : r.membership? id = some own)
      (hroot : own.parent? = none) : Rooted r id
  | step {id parent : Keyword.Id} {own : Membership} (h : r.membership? id = some own)
      (hparent : own.parent? = some parent) (habove : Rooted r parent) : Rooted r id

/-- Members that keep their places stay rooted. -/
theorem Rooted.mono (h : ∀ id own, r.membership? id = some own → r'.membership? id = some own)
    {id : Keyword.Id} (hr : r.Rooted id) : r'.Rooted id := by
  induction hr with
  | root hown hroot => exact .root (h _ _ hown) hroot
  | step hown hparent _ ih => exact .step (h _ _ hown) hparent ih

/-- No rooted member stands below itself. -/
theorem Rooted.parent?_ne {id : Keyword.Id} (hr : r.Rooted id) : r.parent? id ≠ some id := by
  induction hr with
  | root hown hroot => simp [parent?, hown, hroot]
  | step hown hparent habove ih =>
    intro hself
    rw [parent?, hown] at hself
    obtain rfl := Option.some.inj (hparent.symm.trans hself)
    exact ih (by rw [parent?, hown]; exact hparent)

/-- The members form forests: each is a root or stands below a registered member of its language,
and following parents from it leads to a root. -/
structure IsForest (r : Registry τ) : Prop where
  parent_in : ∀ entry ∈ r.entries, ∀ parent, entry.parent? = some parent →
    ∀ dsl, entry.isIn dsl = true → ∃ above ∈ r.entries, above.id = parent ∧ above.isIn dsl = true
  rooted : ∀ entry ∈ r.entries, entry.isMember = true → r.Rooted entry.id

theorem isForest_ofConfig (config : Config) (bindings : τ) :
    IsForest (.ofConfig config bindings) where
  parent_in _ he := absurd he List.not_mem_nil
  rooted _ he := absurd he List.not_mem_nil

namespace IsForest

theorem congr (ho : r.outline = r'.outline) (hf : r.IsForest) : r'.IsForest where
  parent_in entry' he' parent hp dsl hin := by
    obtain ⟨entry, he, same⟩ := exists_mem_of_outline ho.symm he'
    obtain ⟨above, ha, hid, hin'⟩ := hf.parent_in entry he parent
      ((Entry.parent?_congr same).trans hp) dsl ((Entry.isIn_congr same dsl).trans hin)
    obtain ⟨above', ha', same'⟩ := exists_mem_of_outline ho ha
    exact ⟨above', ha', (Entry.id_congr same').trans hid, (Entry.isIn_congr same' dsl).trans hin'⟩
  rooted entry' he' hm := by
    obtain ⟨entry, he, same⟩ := exists_mem_of_outline ho.symm he'
    have hrooted := hf.rooted entry he ((Entry.isMember_congr same).trans hm)
    rw [Entry.id_congr same] at hrooted
    exact hrooted.mono fun id own h => (membership?_congr ho id) ▸ h

theorem outlined : Outlined (τ := τ) IsForest where
  bindings _ _ hf := IsForest.congr (by rfl) hf
  entries _ _ h hf := hf.congr h.symm

/-- Scopes and new identities have nothing to do with forests. -/
theorem of_entries (hf : r.IsForest) (h : r.entries = r'.entries) : r'.IsForest :=
  hf.congr (congrArg (List.map Entry.bare) h)

/-- A registered parent is a member of the same language. -/
theorem isIn_of_parent (hf : r.IsForest) (hd : r.Distinct) {entry above : Entry}
    (he : entry ∈ r.entries) (ha : above ∈ r.entries) (hp : entry.parent? = some above.id) :
    ∃ own, entry.membership? = some own ∧ above.isIn own.dsl = true := by
  obtain ⟨own, hown, -⟩ := Entry.parent?_eq_some.1 hp
  obtain ⟨above', ha', hid, hin⟩ := hf.parent_in entry he above.id hp own.dsl
    (Entry.isIn_iff.2 ⟨own, hown, sameName_refl _⟩)
  exact ⟨own, hown, hd.eq_of_id ha' ha hid ▸ hin⟩

/-! ### Fewer entries -/

/-- A member whose way to the root stays is rooted. -/
theorem rooted_without (hf : r.IsForest) (hd : r.Distinct) {p : Entry → Bool}
    (hp : ∀ entry ∈ r.entries, p entry = false → ∀ above ∈ r.entries,
      entry.parent? = some above.id → p above = false) {id : Keyword.Id} (hr : r.Rooted id) :
    ∀ entry ∈ r.entries, entry.id = id → p entry = false → (r.without p).Rooted id := by
  induction hr with
  | root hown hroot =>
    rintro entry he rfl hstay
    exact .root ((membership?_without hd he hstay).trans hown) hroot
  | @step _ parent own hown hparent _ ih =>
    rintro entry he rfl hstay
    have hmem : entry.membership? = some own := (hd.membership?_eq he).symm.trans hown
    have habove : entry.parent? = some parent := by rw [Entry.parent?, hmem]; exact hparent
    obtain ⟨above, ha, rfl, -⟩ := hf.parent_in entry he parent habove own.dsl
      (Entry.isIn_iff.2 ⟨own, hmem, sameName_refl _⟩)
    exact .step ((membership?_without hd he hstay).trans hown) hparent
      (ih above ha rfl (hp entry he hstay above ha habove))

/-- Entries may go if none that stays stands below one that goes. -/
theorem without (hf : r.IsForest) (hd : r.Distinct) {p : Entry → Bool}
    (hp : ∀ entry ∈ r.entries, p entry = false → ∀ above ∈ r.entries,
      entry.parent? = some above.id → p above = false) : (r.without p).IsForest where
  parent_in entry he parent hpar dsl hin := by
    obtain ⟨he, hstay⟩ := mem_without.1 he
    obtain ⟨above, ha, rfl, hin'⟩ := hf.parent_in entry he parent hpar dsl hin
    exact ⟨above, mem_without.2 ⟨ha, hp entry he hstay above ha hpar⟩, rfl, hin'⟩
  rooted entry he hm := by
    obtain ⟨he, hstay⟩ := mem_without.1 he
    exact hf.rooted_without hd hp (hf.rooted entry he hm) entry he rfl hstay

/-- A language goes as a whole. -/
theorem without_dsl (hf : r.IsForest) (hd : r.Distinct) (dsl : String) :
    (r.without (·.isIn dsl)).IsForest := by
  refine hf.without hd fun entry he hstay above ha hp => ?_
  obtain ⟨own, hown, hin⟩ := hf.isIn_of_parent hd he ha hp
  rw [Bool.eq_false_iff] at hstay ⊢
  intro hgo
  exact hstay (Entry.isIn_iff.2 ⟨own, hown, (Entry.isIn_iff_sameName hin).1 hgo⟩)

/-- Nothing stands below a keyword that is no member. -/
theorem children_eq_nil (hf : r.IsForest) {id : Keyword.Id}
    (h : ∀ entry ∈ r.entries, entry.id = id → entry.isMember = false) : r.children id = [] := by
  refine List.eq_nil_iff_forall_not_mem.2 fun child hc => ?_
  obtain ⟨entry, he, hp, -⟩ := mem_children.1 hc
  obtain ⟨own, hown, -⟩ := Entry.parent?_eq_some.1 hp
  obtain ⟨above, ha, hid, hin⟩ := hf.parent_in entry he id hp own.dsl
    (Entry.isIn_iff.2 ⟨own, hown, sameName_refl _⟩)
  have hmember := Entry.isMember_of_isIn hin
  rw [h above ha hid] at hmember
  cases hmember

/-! ### One entry more -/

/-- A keyword may be registered below a member of its language, or as a root. -/
theorem concat (hf : r.IsForest) (hd : r.Distinct) {entry : Entry}
    (hfresh : r.find? entry.id = none)
    (hparent : ∀ parent, entry.parent? = some parent → ∀ dsl, entry.isIn dsl = true →
      ∃ above ∈ r.entries, above.id = parent ∧ above.isIn dsl = true) :
    (r.concat entry).IsForest := by
  have hmono : ∀ id own, r.membership? id = some own →
      (r.concat entry).membership? id = some own := by
    intro id own hown
    rw [membership?_concat (by rw [isMember_eq, hown]; rfl), hown]
  refine ⟨?_, ?_⟩
  · intro other ho parent hp dsl hin
    obtain ⟨above, ha, hlike⟩ : ∃ above ∈ r.entries, above.id = parent ∧ above.isIn dsl = true := by
      rcases mem_concat.1 ho with ho | rfl
      · exact hf.parent_in other ho parent hp dsl hin
      · exact hparent parent hp dsl hin
    exact ⟨above, mem_concat.2 (.inl ha), hlike⟩
  · intro other ho hm
    rcases mem_concat.1 ho with ho | rfl
    · exact (hf.rooted other ho hm).mono hmono
    obtain ⟨own, hown⟩ := Option.isSome_iff_exists.1 hm
    have hmem := (hd.concat hfresh).membership?_eq ho
    rw [hown] at hmem
    cases hp : own.parent? with
    | none => exact .root hmem hp
    | some parent =>
      obtain ⟨above, ha, rfl, hin⟩ := hparent parent (Entry.parent?_eq_some.2 ⟨own, hown, hp⟩)
        own.dsl (Entry.isIn_iff.2 ⟨own, hown, sameName_refl _⟩)
      exact .step hmem hp ((hf.rooted above ha (Entry.isMember_of_isIn hin)).mono hmono)

variable [BindingTable τ]

theorem registerStandalone (hf : r.IsForest) (hd : r.Distinct) (keyword : Keyword) :
    ((registerStandalone keyword).run r).2.IsForest := by
  have hI : BindingFree fun s : Registry τ => s.IsForest ∧ s.Distinct :=
    fun _ _ hs => ⟨hs.1.of_entries rfl, hs.2⟩
  have hmeets : Meets (fun s : Registry τ => s.IsForest ∧ s.Distinct)
      (Registry.registerStandalone keyword) (fun _ => IsForest) fun _ => IsForest := by
    refine Meets.conseq (meets_registerStandalone hI keyword) (fun _ h => h) ?_ fun _ _ h => h.1
    rintro _ _ ⟨s, hs, hfresh, rfl⟩
    exact hs.1.concat hs.2 hfresh fun _ hp => by cases hp
  have h := hmeets r ⟨hf, hd⟩
  rcases hrun : (Registry.registerStandalone keyword).run r with ⟨_ | _, _⟩ <;> rw [hrun] at h <;>
    exact h

/-- A keyword may be registered below a member if, and only if, that one is of the same
language. -/
theorem registerMember_iff (hf : r.IsForest) (hd : r.Distinct) (dsl : String) (keyword : Keyword)
    (parent? : Option Keyword.Id) (path : String) :
    ((registerMember dsl keyword parent? path).run r).2.IsForest ↔
      ((registerMember dsl keyword parent? path).run r).1.isOk = true →
        ∀ parent, parent? = some parent →
          ∃ above ∈ r.entries, above.id = parent ∧ above.isIn dsl = true := by
  have hmeets := meets_registerMember (bindingFree_withBindings r) dsl keyword parent? path r
    ⟨r.bindings, rfl⟩
  rcases hrun : (registerMember dsl keyword parent? path).run r with ⟨e | answer, s⟩ <;>
    rw [hrun] at hmeets
  · obtain ⟨t, rfl⟩ := hmeets
    exact ⟨fun _ hok => (by cases hok), fun _ => hf.of_entries rfl⟩
  obtain ⟨_, ⟨t, rfl⟩, hfresh, hmember, -, rfl⟩ := hmeets
  constructor
  · intro hafter _ parent hp
    obtain ⟨found, hfind, -⟩ := isMember_iff.1 (hmember parent hp)
    obtain ⟨hfound, rfl⟩ := mem_of_find? hfind
    obtain ⟨above, ha, hid, hin⟩ := hafter.parent_in _ (mem_concat.2 (.inr rfl)) found.id hp dsl
      (sameName_refl dsl)
    have hd' : ((r.withBindings t).concat ((memberEntry dsl keyword parent? path).withVisible
        (parent?.isNone && r.scope.isEmpty))).Distinct := Distinct.concat hd hfresh
    rw [hd'.eq_of_id ha (mem_concat.2 (.inl hfound)) hid] at hin
    exact ⟨found, hfound, rfl, hin⟩
  · intro hsame
    refine concat (r := r.withBindings t) (hf.of_entries rfl) hd hfresh fun parent hp dsl' hin => ?_
    obtain ⟨above, ha, hid, hin'⟩ := hsame rfl parent hp
    exact ⟨above, ha, hid, (Entry.isIn_iff_sameName hin').2 hin⟩

/-- A keyword may be removed on its own if, and only if, nothing stands below it. -/
theorem unregister_iff (hf : r.IsForest) (hd : r.Distinct) (id : Keyword.Id) :
    ((unregister id).run r).2.IsForest ↔ r.children id = [] := by
  have hentries := r.entries_unregister id
  constructor
  · intro hafter
    refine List.eq_nil_iff_forall_not_mem.2 fun child hc => ?_
    obtain ⟨entry, he, hp, rfl⟩ := mem_children.1 hc
    obtain ⟨own, hown, -⟩ := Entry.parent?_eq_some.1 hp
    have hne : (entry.id == id) = false := by
      refine beq_false_of_ne fun same => ?_
      have hrooted := hf.rooted entry he (by rw [Entry.isMember, hown]; rfl)
      exact hrooted.parent?_ne ((hd.parent?_eq he).trans (same ▸ hp))
    -- The entry is left, but what was above it is gone.
    have hleft : entry ∈ ((unregister id).run r).2.entries :=
      hentries ▸ mem_without.2 ⟨he, hne⟩
    obtain ⟨above, ha, hid, -⟩ := hafter.parent_in entry hleft id hp own.dsl
      (Entry.isIn_iff.2 ⟨own, hown, sameName_refl _⟩)
    rw [hentries] at ha
    have hgone := (mem_without.1 ha).2
    simp [hid] at hgone
  · intro hnone
    refine of_entries (hf.without hd fun entry he _ above ha hp => ?_) hentries.symm
    refine beq_false_of_ne fun same => ?_
    have hchild : entry.id ∈ r.children id := mem_children.2 ⟨entry, he, same ▸ hp, rfl⟩
    rw [hnone] at hchild
    cases hchild

/-- Nothing stands below a standalone keyword. -/
theorem removeStandalone (hf : r.IsForest) (hd : r.Distinct) (name : String) :
    ((removeStandalone name).run r).2.IsForest := by
  rcases run_removeStandalone hd name with ⟨-, hrun⟩ | ⟨entry, he, hfound, hrun⟩
  · rwa [hrun]
  · rw [hrun]
    refine (hf.unregister_iff hd entry.id).2 (hf.children_eq_nil fun other ho hid => ?_)
    obtain rfl := hd.eq_of_id ho he hid
    obtain ⟨found, hf', hk⟩ := List.mem_map.1 (List.mem_of_find?_eq_some hfound)
    obtain ⟨hf', hm⟩ := List.mem_filter.1 hf'
    rw [← hd.eq_of_id hf' ho (congrArg Keyword.id hk)]
    simpa using hm

end IsForest

end Registry

/-! ## Operations that spare the forests -/

namespace Edit

open Registry Step

variable {τ : Type} [BindingTable τ] {r : Registry τ}

/-- The operation registers no member below one of another language, and it does not remove a
keyword on its own while others stand below it. -/
def Spares (r : Registry τ) : Edit τ → Prop
  | registerMember dsl keyword parent? path =>
    ((Registry.registerMember dsl keyword parent? path).run r).1.isOk = true →
      ∀ parent, parent? = some parent →
        ∃ above ∈ r.entries, above.id = parent ∧ above.isIn dsl = true
  | unregister id => r.children id = []
  | _ => True

/-- An operation keeps the forests if, and only if, it spares them. -/
theorem isForest_iff (hf : r.IsForest) (hd : r.Distinct) (edit : Edit τ) :
    (edit.perform.run r).2.IsForest ↔ edit.Spares r := by
  have hscope : ∀ (r : Registry τ) scope, r.IsForest → IsForest { r with scope } :=
    fun _ _ hf => hf.of_entries rfl
  cases edit with
  | registerMember dsl keyword parent? path =>
    rw [perform, run_map]
    exact hf.registerMember_iff hd dsl keyword parent? path
  | unregister id =>
    rw [perform, run_map]
    exact hf.unregister_iff hd id
  -- All others keep the forests.
  | allocate => exact iff_of_true (hf.of_entries rfl) trivial
  | registerStandalone keyword =>
    rw [perform, run_map]
    exact iff_of_true (hf.registerStandalone hd keyword) trivial
  | removeDsl dsl =>
    rw [perform, run_map]
    refine iff_of_true ?_ trivial
    obtain ⟨t, hrun⟩ := run_removeDsl hd dsl
    rw [hrun]
    exact (hf.without_dsl hd dsl).of_entries rfl
  | removeStandalone name =>
    rw [perform, run_map]
    exact iff_of_true (hf.removeStandalone hd name) trivial
  | reveal id =>
    rw [perform, run_map]
    exact iff_of_true ((IsForest.outlined.keeps_reveal id).run hf) trivial
  | hide id =>
    rw [perform, run_map]
    exact iff_of_true ((IsForest.outlined.keeps_hide id).run hf) trivial
  | enterScope id =>
    rw [perform, run_map]
    exact iff_of_true ((IsForest.outlined.keeps_enterScope hscope id).run hf) trivial
  | leaveScope =>
    rw [perform, run_map]
    exact iff_of_true ((IsForest.outlined.keeps_leaveScope hscope).run hf) trivial
  | loadVisible name =>
    rw [perform, run_map]
    exact iff_of_true ((IsForest.outlined.keeps_loadVisible name).run hf) trivial
  | subscribe dsl path event handler =>
    rw [perform, run_map]
    exact iff_of_true ((IsForest.outlined.keeps_subscribe dsl path event handler).run hf) trivial
  | publish module name =>
    rw [perform, run_map]
    exact iff_of_true ((keeps_publish IsForest.outlined.bindings module name).run hf) trivial
  | rebind bindings => exact iff_of_true (hf.of_entries rfl) trivial

end Edit

namespace Registry

variable {τ : Type} [BindingTable τ]

/-- Of all registries that are reached by operations one after the other, with any arguments and
any outcome, the members form forests if, and only if, each operation spares the forests. -/
theorem forest_along_iff (config : Config) (bindings : τ) (edits : List (Edit τ)) :
    (∀ before, before <+: edits →
      (Edit.runAll Edit.perform before (.ofConfig config bindings)).2.IsForest) ↔
      ∀ before edit, before ++ [edit] <+: edits →
        edit.Spares (Edit.runAll Edit.perform before (.ofConfig config bindings)).2 := by
  have hdistinct : ∀ before,
      (Edit.runAll Edit.perform before (.ofConfig config bindings)).2.Distinct :=
    fun before => (Edit.runAll_edited before (.empty config bindings)).sound.distinct
  constructor
  · intro hall before edit hprefix
    have hbefore := hall before ((List.prefix_append _ _).trans hprefix)
    have hafter := hall (before ++ [edit]) hprefix
    rw [Edit.runAll_concat] at hafter
    exact (Edit.isForest_iff hbefore (hdistinct before) edit).1 hafter
  · intro hspares before
    induction before using List.reverseRecOn with
    | nil => exact fun _ => isForest_ofConfig config bindings
    | append_singleton before edit ih =>
      intro hprefix
      rw [Edit.runAll_concat]
      exact (Edit.isForest_iff (ih ((List.prefix_append _ _).trans hprefix)) (hdistinct before)
        edit).2 (hspares before edit hprefix)

/-- A root is registered with a member below it, and then removed on its own. -/
def rootRemoval : List (Edit LayeredTable) :=
  [.allocate, .registerMember "web" { id := ⟨1⟩, name := "Site" } none "Site",
    .allocate, .registerMember "web" { id := ⟨2⟩, name := "Page" } (some ⟨1⟩) "Site/Page",
    .unregister ⟨1⟩]

/-- The member stays, and what was above it is gone. -/
theorem removal_leaves_child :
    ¬ (Edit.runAll Edit.perform rootRemoval (.ofConfig {} {})).2.IsForest := by
  intro hforest
  have hpage : memberEntry "web" { id := ⟨2⟩, name := "Page" } (some ⟨1⟩) "Site/Page" ∈
      (Edit.runAll Edit.perform rootRemoval (.ofConfig {} {})).2.entries := by decide +kernel
  obtain ⟨above, ha, hid, -⟩ := hforest.parent_in _ hpage ⟨1⟩ rfl "web" (by decide)
  revert above
  decide +kernel

end Registry
end KeywordScope
