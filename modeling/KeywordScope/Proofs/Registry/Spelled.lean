import KeywordScope.Proofs.Registry.Sound
import KeywordScope.Proofs.Scope.Registration
import KeywordScope.Proofs.Text.Joined

/-!
# Paths spell names

A grammar names its keywords apart within each block only. That the paths of a language are distinct
makes more of this: siblings have different names, whatever was declared before.

* `Spelled`: the path of a member is that of the keyword above it, with its own name behind.
* `Spelled.eq_of_siblings`: siblings with one name are the same member.
* `Orderly`: a settled registry with such paths, which are distinct. Declaring and removing
  languages keeps this (`keeps_declare_orderly`, `keeps_removeDsl_orderly`).
-/

namespace KeywordScope
namespace Registry

open Step

variable {τ : Type} {r : Registry τ} {dsl : String}

/-- The path of a member is that of the keyword above it, with its own name behind; that of a root
is its name. -/
structure Spelled (r : Registry τ) : Prop where
  root : ∀ entry ∈ r.entries, entry.parent? = none → entry.path = entry.keyword.name
  below : ∀ entry ∈ r.entries, ∀ parent, entry.parent? = some parent →
    ∃ above ∈ r.entries, above.id = parent ∧
      entry.path = above.path ++ r.separator ++ entry.keyword.name

namespace Spelled

/-- Siblings with one name are the same member. -/
theorem eq_of_siblings (hr : r.Spelled) (hd : r.Distinct) (hpaths : PathsDistinct dsl r.entries)
    {a b : Entry} (ha : a ∈ r.entries) (hb : b ∈ r.entries) (hina : a.isIn dsl = true)
    (hinb : b.isIn dsl = true) (hparent : a.parent? = b.parent?)
    (same : sameName a.keyword.name b.keyword.name = true) : a = b := by
  refine hpaths.eq_of_path ha hb hina hinb (sameName_iff.2 ?_)
  have same := sameName_iff.1 same
  cases hpb : b.parent? with
  | none => rw [hr.root a ha (hparent.trans hpb), hr.root b hb hpb, same]
  | some parent =>
    obtain ⟨above, habove, hid, hpath⟩ := hr.below a ha parent (hparent.trans hpb)
    obtain ⟨above', habove', hid', hpath'⟩ := hr.below b hb parent hpb
    obtain rfl := hd.eq_of_id habove habove' (hid.trans hid'.symm)
    rw [hpath, hpath', foldCase_append, foldCase_append _ b.keyword.name, same]

/-- A language goes. -/
theorem without_dsl (hr : r.Spelled) (hf : r.Forested) (dsl : String) :
    (r.without (·.isIn dsl)).Spelled where
  root entry he := hr.root entry (mem_without.1 he).1
  below entry he parent hp := by
    obtain ⟨he, hstay⟩ := mem_without.1 he
    obtain ⟨above, ha, rfl, hpath⟩ := hr.below entry he parent hp
    refine ⟨above, mem_without.2 ⟨ha, ?_⟩, rfl, hpath⟩
    rw [Bool.eq_false_iff] at hstay ⊢
    exact fun hin => hstay (hf.isIn_of_parent he ha hp hin)

/-- A standalone keyword comes. -/
theorem concat_standalone (hr : r.Spelled) {entry : Entry} (hm : entry.isMember = false) :
    (r.concat entry).Spelled := by
  have hown : entry.membership? = none := by simpa [Entry.isMember] using hm
  refine ⟨fun other ho hp => ?_, fun other ho parent hp => ?_⟩
  · rcases mem_concat.1 ho with ho | rfl
    · exact hr.root other ho hp
    · rw [Entry.path, hown]
      rfl
  · rcases mem_concat.1 ho with ho | rfl
    · obtain ⟨above, ha, hlike⟩ := hr.below other ho parent hp
      exact ⟨above, mem_concat.2 (.inl ha), hlike⟩
    · rw [Entry.parent?, hown] at hp
      cases hp

theorem outlined : Outlined (τ := τ) Spelled where
  bindings _ _ hr := ⟨hr.root, hr.below⟩
  entries r entries ho hr := by
    have hlike : ∀ entry ∈ entries, ∃ found ∈ r.entries, found.bare = entry.bare := fun entry he =>
      exists_mem_of_outline (r := { r with entries }) ho he
    have hkept : r.outline = ({ r with entries } : Registry τ).outline := ho.symm
    refine ⟨fun entry he hp => ?_, fun entry he parent hp => ?_⟩
    · obtain ⟨found, hf, same⟩ := hlike entry he
      rw [← Entry.path_congr same, ← Entry.keyword_congr same]
      exact hr.root found hf ((Entry.parent?_congr same).trans hp)
    · obtain ⟨found, hf, same⟩ := hlike entry he
      obtain ⟨above, ha, hid, hpath⟩ := hr.below found hf parent
        ((Entry.parent?_congr same).trans hp)
      obtain ⟨above', ha', same'⟩ := exists_mem_of_outline hkept ha
      refine ⟨above', ha', (Entry.id_congr same').trans hid, ?_⟩
      rw [← Entry.path_congr same, hpath, Entry.path_congr same', Entry.keyword_congr same]

theorem keeps_registerStandalone [BindingTable τ] (keyword : Keyword) :
    Keeps (Spelled (τ := τ)) (registerStandalone keyword) :=
  keeps_registerStandalone_of outlined.bindings keyword fun _ hr _ => hr.concat_standalone rfl

end Spelled

/-- While a language grows: its paths are spelled, and so are the paths on the way down. -/
theorem grows_spelled : Grows (τ := τ) dsl fun way r => r.Spelled ∧
    ∀ place ∈ way, ∃ entry ∈ r.entries, entry.id = place.1 ∧ entry.path = place.2 where
  bindings _ _ _ hr := ⟨⟨hr.1.root, hr.1.below⟩, hr.2⟩
  up _ _ _ hr := ⟨hr.1, fun place hplace => hr.2 place (List.mem_cons_of_mem _ hplace)⟩
  nextId _ _ hr := ⟨⟨hr.1.root, hr.1.below⟩, hr.2⟩
  add way keyword r hr _ _ _ _ _ := by
    obtain ⟨hr, hway⟩ := hr
    refine ⟨⟨?_, ?_⟩, ?_⟩
    · intro entry he hp
      rcases mem_concat.1 he with he | rfl
      · exact hr.root entry he hp
      · cases way with
        | nil => rfl
        | cons place way => cases hp
    · intro entry he parent hp
      rcases mem_concat.1 he with he | rfl
      · obtain ⟨above, ha, hlike⟩ := hr.below entry he parent hp
        exact ⟨above, mem_concat.2 (.inl ha), hlike⟩
      · cases way with
        | nil => cases hp
        | cons place way =>
          obtain rfl : place.1 = parent := Option.some.inj hp
          obtain ⟨above, ha, hid, hpath⟩ := hway place List.mem_cons_self
          refine ⟨above, mem_concat.2 (.inl ha), hid, ?_⟩
          rw [hpath]
          rfl
    · intro place hplace
      rcases List.mem_cons.1 hplace with rfl | hplace
      · exact ⟨r.nextEntry dsl way keyword, mem_concat.2 (.inr rfl), rfl, rfl⟩
      · obtain ⟨entry, he, hlike⟩ := hway place hplace
        exact ⟨entry, mem_concat.2 (.inl he), hlike⟩

/-! ## Registries at rest -/

/-- The registry is settled, and its paths spell names and are distinct. -/
structure Orderly (r : Registry τ) : Prop extends r.Settled where
  spelled : r.Spelled
  sound : r.Sound

theorem Orderly.parts : r.Orderly ↔ (r.Settled ∧ r.Spelled) ∧ r.Sound :=
  ⟨fun hr => ⟨⟨hr.toSettled, hr.spelled⟩, hr.sound⟩, fun hr => ⟨hr.1.1, hr.1.2, hr.2⟩⟩

theorem orderly_ofConfig (config : Config) (bindings : τ) :
    Orderly (.ofConfig config bindings) where
  toSettled := settled_ofConfig config bindings
  spelled := ⟨fun _ he => absurd he List.not_mem_nil, fun _ he => absurd he List.not_mem_nil⟩
  sound := .ofConfig config bindings

/-- Of a language, siblings with one name are the same member. -/
theorem Orderly.eq_of_siblings (hr : r.Orderly) {a b : Entry} (ha : a ∈ r.entries)
    (hb : b ∈ r.entries) (hina : a.isIn dsl = true) (hinb : b.isIn dsl = true)
    (hparent : a.parent? = b.parent?) (same : sameName a.keyword.name b.keyword.name = true) :
    a = b :=
  hr.spelled.eq_of_siblings hr.distinct (hr.sound.paths dsl) ha hb hina hinb hparent same

variable [BindingTable τ]

theorem keeps_removeDsl_spelled (dsl : String) :
    Keeps (fun r : Registry τ => r.Settled ∧ r.Spelled) (removeDsl dsl) :=
  Keeps.of_run fun r hr => by
    obtain ⟨t, ht⟩ := run_removeDsl hr.1.distinct dsl
    rw [ht]
    have hspelled := hr.2.without_dsl hr.1.toForested dsl
    exact ⟨bindingFree_settled _ t (hr.1.without_dsl dsl), hspelled.root, hspelled.below⟩

theorem keeps_removeDsl_orderly (dsl : String) : Keeps (Orderly (τ := τ)) (removeDsl dsl) :=
  ((keeps_removeDsl_spelled dsl).and (Sound.steady.keeps_removeDsl dsl)).conseq
    (fun _ => Orderly.parts.1) (fun _ _ => Orderly.parts.2) fun _ _ => Orderly.parts.2

theorem keeps_declare_orderly (output : OutputConfig) (findType : String → Option HostType)
    (dsl : String) (tree : Script.Block) (module? : Option String) :
    Keeps (Orderly (τ := τ)) (declare output findType dsl tree module?) := by
  -- At the top of the grammar nothing stands above.
  have htop : ∀ r : Registry τ, (r.Growing dsl [] ∧ r.Spelled ∧ ∀ place ∈ ([] : Way),
      ∃ entry ∈ r.entries, entry.id = place.1 ∧ entry.path = place.2) ↔
      r.Settled ∧ r.Spelled := by
    simp [growing_nil]
  have hremove := (keeps_removeDsl_spelled (τ := τ) dsl).conseq (fun r => (htop r).1)
    (fun _ r => (htop r).2) fun _ r => (htop r).2
  have hdeclare := (((grows_growing dsl).and grows_spelled).keeps_declare hremove output findType
    tree module?).conseq (fun r => (htop r).2) (fun _ r => (htop r).1) fun _ r => (htop r).1
  exact (hdeclare.and (Sound.steady.keeps_declare output findType dsl tree module?)).conseq
    (fun _ => Orderly.parts.1) (fun _ _ => Orderly.parts.2) fun _ _ => Orderly.parts.2

end Registry
end KeywordScope
