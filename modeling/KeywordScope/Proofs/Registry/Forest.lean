import KeywordScope.Proofs.Registry.Lasting
import KeywordScope.Registry.Forest

/-!
# Forests and their entries

The members of a language are registered one after the other, parents before what is below them. A
forest is read back from the parents alone.

* `KeywordTree.entries`: the entries of a tree, in order of registration.
* `Registry.Part`: entries that follow each other, with nothing else below them.
* `Registry.tree?_of_entries`: a tree is read back from a registry with its entries, if nothing else
  stands below them.
* `Registry.forest_of_entries`, `Registry.roots_of_entries`: the same for all trees of a language.
-/

namespace KeywordScope

open Registry

namespace KeywordTree

/-- The keyword at the top. -/
def root : KeywordTree → Keyword
  | node _ keyword _ => keyword

/-- The path of the keyword at the top. -/
def path : KeywordTree → String
  | node path _ _ => path

mutual

/-- The entries of a tree below a parent, or of a root. -/
def entries (dsl : String) (parent? : Option Keyword.Id) : KeywordTree → List Entry
  | node path keyword children =>
    memberEntry dsl keyword parent? path :: entriesAll dsl (some keyword.id) children

/-- The entries of trees with one parent. -/
def entriesAll (dsl : String) (parent? : Option Keyword.Id) : List KeywordTree → List Entry
  | [] => []
  | tree :: trees => tree.entries dsl parent? ++ entriesAll dsl parent? trees

end

mutual

/-- The paths of the keywords of a tree, from the top downwards. -/
def paths : KeywordTree → List String
  | node path _ children => path :: pathsAll children

/-- The paths of the keywords of trees. -/
def pathsAll : List KeywordTree → List String
  | [] => []
  | tree :: trees => tree.paths ++ pathsAll trees

end

variable {dsl : String}

mutual

theorem map_path_entries (parent? : Option Keyword.Id) :
    ∀ tree : KeywordTree, (tree.entries dsl parent?).map Entry.path = tree.paths
  | node path keyword children => by
    rw [entries, paths, List.map_cons, map_path_entriesAll (some keyword.id) children]
    rfl

theorem map_path_entriesAll (parent? : Option Keyword.Id) :
    ∀ trees : List KeywordTree, (entriesAll dsl parent? trees).map Entry.path = pathsAll trees
  | [] => rfl
  | tree :: trees => by
    rw [entriesAll, pathsAll, List.map_append, map_path_entries parent? tree,
      map_path_entriesAll parent? trees]

end

mutual

theorem isIn_of_mem_entries (dsl' : String) (parent? : Option Keyword.Id) :
    ∀ (tree : KeywordTree), ∀ entry ∈ tree.entries dsl parent?,
      entry.isIn dsl' = sameName dsl dsl'
  | node path keyword children => by
    intro entry he
    rw [entries] at he
    rcases List.mem_cons.1 he with rfl | he
    · simp [memberEntry, Entry.isIn]
    · exact isIn_of_mem_entriesAll dsl' (some keyword.id) children entry he

theorem isIn_of_mem_entriesAll (dsl' : String) (parent? : Option Keyword.Id) :
    ∀ (trees : List KeywordTree), ∀ entry ∈ entriesAll dsl parent? trees,
      entry.isIn dsl' = sameName dsl dsl'
  | [] => by
    intro entry he
    rw [entriesAll] at he
    cases he
  | tree :: trees => by
    intro entry he
    rw [entriesAll] at he
    rcases List.mem_append.1 he with he | he
    · exact isIn_of_mem_entries dsl' parent? tree entry he
    · exact isIn_of_mem_entriesAll dsl' parent? trees entry he

end

mutual

/-- No parent is outside of the tree but that of the root. -/
theorem parent?_of_mem_entries (parent? : Option Keyword.Id) :
    ∀ (tree : KeywordTree), ∀ entry ∈ tree.entries dsl parent?, entry.parent? = parent? ∨
      ∃ above ∈ tree.entries dsl parent?, entry.parent? = some above.id
  | node path keyword children => by
    intro entry he
    rw [entries] at he ⊢
    rcases List.mem_cons.1 he with rfl | he
    · exact .inl rfl
    rcases parent?_of_mem_entriesAll (some keyword.id) children entry he with hp | ⟨above, ha, hp⟩
    · exact .inr ⟨_, List.mem_cons_self, hp⟩
    · exact .inr ⟨above, List.mem_cons_of_mem _ ha, hp⟩

theorem parent?_of_mem_entriesAll (parent? : Option Keyword.Id) :
    ∀ (trees : List KeywordTree), ∀ entry ∈ entriesAll dsl parent? trees,
      entry.parent? = parent? ∨
        ∃ above ∈ entriesAll dsl parent? trees, entry.parent? = some above.id
  | [] => by
    intro entry he
    rw [entriesAll] at he
    cases he
  | tree :: trees => by
    intro entry he
    rw [entriesAll] at he ⊢
    rcases List.mem_append.1 he with he | he
    · rcases parent?_of_mem_entries parent? tree entry he with hp | ⟨above, ha, hp⟩
      · exact .inl hp
      · exact .inr ⟨above, List.mem_append_left _ ha, hp⟩
    · rcases parent?_of_mem_entriesAll parent? trees entry he with hp | ⟨above, ha, hp⟩
      · exact .inl hp
      · exact .inr ⟨above, List.mem_append_right _ ha, hp⟩

end

/-- The parent is none of these entries. -/
def Outside (parent? : Option Keyword.Id) (entries : List Entry) : Prop :=
  ∀ entry ∈ entries, parent? ≠ some entry.id

theorem Outside.append {parent? : Option Keyword.Id} {entries entries' : List Entry} :
    Outside parent? (entries ++ entries') ↔ Outside parent? entries ∧ Outside parent? entries' :=
  List.forall_mem_append

theorem Outside.tail {parent? : Option Keyword.Id} {entry : Entry} {entries : List Entry}
    (h : Outside parent? (entry :: entries)) : Outside parent? entries :=
  (List.forall_mem_cons.1 h).2

/-- Below a parent there are the tops of the trees, and nothing of what is below them. -/
theorem filter_parent?_entriesAll (parent? : Option Keyword.Id) (trees : List KeywordTree)
    (h : Outside parent? (entriesAll dsl parent? trees)) :
    (entriesAll dsl parent? trees).filter (·.parent? == parent?) =
      trees.map fun tree => memberEntry dsl tree.root parent? tree.path := by
  induction trees with
  | nil => rfl
  | cons tree trees ih =>
    obtain ⟨path, keyword, children⟩ := tree
    rw [entriesAll, entries] at h ⊢
    obtain ⟨htree, htrees⟩ := Outside.append.1 h
    have hbelow :
        (entriesAll dsl (some keyword.id) children).filter (·.parent? == parent?) = [] := by
      rw [List.filter_eq_nil_iff]
      intro entry he hp
      have hp : entry.parent? = parent? := by simpa using hp
      rcases parent?_of_mem_entriesAll (some keyword.id) children entry he with
        hp' | ⟨above, ha, hp'⟩
      · exact htree _ List.mem_cons_self (hp.symm.trans hp')
      · exact htree above (List.mem_cons_of_mem _ ha) (hp.symm.trans hp')
    have htop : ((memberEntry dsl keyword parent? path).parent? == parent?) = true := by
      simp [memberEntry, Entry.parent?]
    rw [List.filter_append, List.filter_cons, if_pos htop, hbelow, ih htrees]
    rfl

end KeywordTree

namespace Registry

open KeywordTree

variable {τ : Type} {r : Registry τ} {dsl : String}

theorem children_eq (r : Registry τ) (id : Keyword.Id) :
    r.children id = (r.entries.filter (·.parent? == some id)).map Entry.id := by
  rw [children, idsWhere]
  congr 2
  funext entry
  unfold Entry.parent?
  cases entry.membership? <;> simp

/-- The entries follow each other in the registry. No other entry stands below them, nor does their
own parent. -/
def Part (r : Registry τ) (parent? : Option Keyword.Id) (part : List Entry) : Prop :=
  ∃ before after, r.entries = before ++ part ++ after ∧ Outside parent? part ∧
    (∀ other ∈ before, Outside other.parent? part) ∧ ∀ other ∈ after, Outside other.parent? part

section Part

variable {parent? : Option Keyword.Id}

/-- The entries of the first of some trees. -/
theorem Part.first (hd : r.Distinct) {tree : KeywordTree} {trees : List KeywordTree}
    (h : r.Part parent? (entriesAll dsl parent? (tree :: trees))) :
    r.Part parent? (tree.entries dsl parent?) := by
  obtain ⟨before, after, hr, hparent, hbefore, hafter⟩ := h
  rw [entriesAll] at hr hparent hbefore hafter
  refine ⟨before, entriesAll dsl parent? trees ++ after, by rw [hr]; simp,
    (Outside.append.1 hparent).1, fun other ho => (Outside.append.1 (hbefore other ho)).1, ?_⟩
  refine List.forall_mem_append.2 ⟨?_, fun other ho => (Outside.append.1 (hafter other ho)).1⟩
  -- The other trees have the same parent, or parents among themselves.
  intro other ho entry he same
  rcases parent?_of_mem_entriesAll parent? trees other ho with hp | ⟨above, ha, hp⟩
  · exact (Outside.append.1 hparent).1 entry he (hp.symm.trans same)
  · exact hd.ne_of_append hr he ha (Option.some.inj (same.symm.trans hp))

/-- The entries of the other trees. -/
theorem Part.rest (hd : r.Distinct) {tree : KeywordTree} {trees : List KeywordTree}
    (h : r.Part parent? (entriesAll dsl parent? (tree :: trees))) :
    r.Part parent? (entriesAll dsl parent? trees) := by
  obtain ⟨before, after, hr, hparent, hbefore, hafter⟩ := h
  rw [entriesAll] at hr hparent hbefore hafter
  refine ⟨before ++ tree.entries dsl parent?, after, by rw [hr]; simp,
    (Outside.append.1 hparent).2, ?_, fun other ho => (Outside.append.1 (hafter other ho)).2⟩
  refine List.forall_mem_append.2 ⟨fun other ho => (Outside.append.1 (hbefore other ho)).2, ?_⟩
  intro other ho entry he same
  rcases parent?_of_mem_entries parent? tree other ho with hp | ⟨above, ha, hp⟩
  · exact (Outside.append.1 hparent).2 entry he (hp.symm.trans same)
  · exact hd.ne_of_append hr ha he (Option.some.inj (hp.symm.trans same))

section Node

variable {path : String} {keyword : Keyword} {children : List KeywordTree}

/-- The entries below the top of a tree. -/
theorem Part.below (hd : r.Distinct)
    (h : r.Part parent? ((node path keyword children).entries dsl parent?)) :
    r.Part (some keyword.id) (entriesAll dsl (some keyword.id) children) := by
  obtain ⟨before, after, hr, hparent, hbefore, hafter⟩ := h
  rw [KeywordTree.entries] at hr hparent hbefore hafter
  refine ⟨before ++ [memberEntry dsl keyword parent? path], after, by rw [hr]; simp, ?_, ?_,
    fun other ho => (hafter other ho).tail⟩
  · intro entry he same
    have hr' : r.entries = before ++ ([memberEntry dsl keyword parent? path] ++
        entriesAll dsl (some keyword.id) children) ++ after := hr
    exact hd.ne_of_append hr' List.mem_cons_self he (Option.some.inj same)
  · refine List.forall_mem_append.2 ⟨fun other ho => (hbefore other ho).tail, ?_⟩
    exact List.forall_mem_singleton.2 hparent.tail

/-- What stands below the top of a tree are the tops of the trees below it. -/
theorem Part.children_eq (hd : r.Distinct)
    (h : r.Part parent? ((node path keyword children).entries dsl parent?)) :
    r.children keyword.id = children.map (·.root.id) := by
  obtain ⟨-, -, -, hown, -⟩ := h.below hd
  obtain ⟨before, after, hr, hparent, hbefore, hafter⟩ := h
  rw [KeywordTree.entries] at hr hparent hbefore hafter
  have hnone : ∀ others : List Entry,
      (∀ other ∈ others, other.parent? ≠ some keyword.id) →
        others.filter (·.parent? == some keyword.id) = [] := by
    intro others ho
    rw [List.filter_eq_nil_iff]
    exact fun other hm same => ho other hm (by simpa using same)
  have htop : ((memberEntry dsl keyword parent? path).parent? == some keyword.id) = false :=
    beq_false_of_ne (hparent _ List.mem_cons_self)
  rw [Registry.children_eq, hr, List.filter_append, List.filter_append, List.filter_cons, htop,
    hnone before fun other ho => hbefore other ho _ List.mem_cons_self,
    hnone after fun other ho => hafter other ho _ List.mem_cons_self]
  simp only [Bool.false_eq_true, ↓reduceIte]
  rw [filter_parent?_entriesAll _ _ hown]
  simp [memberEntry, Entry.id, Function.comp_def]

theorem Part.find?_eq (hd : r.Distinct)
    (h : r.Part parent? ((node path keyword children).entries dsl parent?)) :
    r.find? keyword.id = some (memberEntry dsl keyword parent? path) := by
  obtain ⟨before, after, hr, -⟩ := h
  have hmem : memberEntry dsl keyword parent? path ∈ r.entries := by
    rw [hr, KeywordTree.entries]
    simp
  exact hd.find?_eq hmem

end Node

end Part

mutual

/-- A tree is read back from its entries, if no other entry stands below them. -/
theorem tree?_of_entries (hd : r.Distinct) (parent? : Option Keyword.Id) :
    ∀ tree : KeywordTree, r.Part parent? (tree.entries dsl parent?) →
      ∀ height, (tree.entries dsl parent?).length ≤ height →
        r.tree? height tree.root.id = some tree
  | node path keyword children, h, 0, hheight => by
    rw [KeywordTree.entries, List.length_cons] at hheight
    omega
  | node path keyword children, h, height + 1, hheight => by
    rw [KeywordTree.entries, List.length_cons] at hheight
    have hbelow := trees?_of_entries hd (some keyword.id) children (h.below hd) height (by omega)
    rw [tree?, root, h.find?_eq hd, Option.map_some, h.children_eq hd, hbelow]
    rfl

theorem trees?_of_entries (hd : r.Distinct) (parent? : Option Keyword.Id) :
    ∀ trees : List KeywordTree, r.Part parent? (entriesAll dsl parent? trees) →
      ∀ height, (entriesAll dsl parent? trees).length ≤ height →
        (trees.map (·.root.id)).filterMap (r.tree? height) = trees
  | [], _, _, _ => rfl
  | tree :: trees, h, height, hheight => by
    rw [entriesAll, List.length_append] at hheight
    have hfirst := tree?_of_entries hd parent? tree (h.first hd) height (by omega)
    have hrest := trees?_of_entries hd parent? trees (h.rest hd) height (by omega)
    rw [List.map_cons, List.filterMap_cons_some hfirst, hrest]

end

/-- The roots of a language are the tops of its trees. -/
theorem roots_of_entries {trees : List KeywordTree} {before : List Entry}
    (hr : r.entries = before ++ entriesAll dsl none trees)
    (hbefore : ∀ other ∈ before, other.isIn dsl = false) : r.roots dsl = trees.map root := by
  have hnone : before.filter (fun entry => entry.isRoot && entry.isIn dsl) = [] := by
    rw [List.filter_eq_nil_iff]
    intro other ho
    simp [hbefore other ho]
  have hroot : ∀ entry ∈ entriesAll dsl none trees,
      (entry.isRoot && entry.isIn dsl) = (entry.parent? == none) := by
    intro entry he
    have hin : entry.isIn dsl = true := by
      rw [isIn_of_mem_entriesAll dsl none trees entry he]
      exact sameName_refl dsl
    rw [hin, Bool.and_true, Bool.eq_iff_iff, Entry.isRoot_iff]
    simp [Entry.isMember_of_isIn hin]
  rw [roots, keywordsWhere, hr, List.filter_append, hnone, List.filter_congr hroot,
    filter_parent?_entriesAll none trees fun _ _ h => by cases h]
  simp [memberEntry, Function.comp_def]

/-- The trees of a language are read back from its entries, if it has no others, and nothing else
stands below them. -/
theorem forest_of_entries (hd : r.Distinct) {trees : List KeywordTree} {before : List Entry}
    (hr : r.entries = before ++ entriesAll dsl none trees)
    (hbefore : ∀ other ∈ before, other.isIn dsl = false)
    (hothers : ∀ other ∈ before, Outside other.parent? (entriesAll dsl none trees)) :
    r.forest dsl = trees := by
  have hheight : (entriesAll dsl none trees).length ≤ r.entries.length := by
    rw [hr, List.length_append]
    omega
  have hpart : r.Part none (entriesAll dsl none trees) :=
    ⟨before, [], by rw [hr, List.append_nil], fun _ _ h => (by cases h), hothers,
      fun _ ho => absurd ho List.not_mem_nil⟩
  have hread := trees?_of_entries hd none trees hpart r.entries.length hheight
  rw [forest, roots_of_entries hr hbefore, List.filterMap_map]
  rwa [List.filterMap_map] at hread

end Registry
end KeywordScope
