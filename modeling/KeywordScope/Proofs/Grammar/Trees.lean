import KeywordScope.Proofs.Grammar.Proper
import KeywordScope.Proofs.Registry.Forest
import KeywordScope.Proofs.Text.Joined

/-!
# The trees of a grammar

* `Grammar.trees`: the trees as which a grammar is registered, with consecutive identities.
* `Grammar.Shown`: what trees say of a grammar, whatever their identities are.
* `Grammar.shown_trees`: the trees of a grammar say what it declares.
* `Grammar.Proper.separated`: their paths are distinct, up to case.
-/

namespace KeywordScope

open KeywordTree

/-- The keyword that is declared, with an identity. -/
def KeywordDecl.keyword (forest : Forest) (id : Keyword.Id) (decl : KeywordDecl) : Keyword where
  id
  name := decl.name
  nameMode := decl.nameMode
  body := decl.body.toBody
  module? := forest.module?

mutual

/-- The tree of a keyword below the names `above`, with identities from `next` on. -/
def KeywordDecl.tree (forest : Forest) (separator : String) (above : List String) (next : Nat) :
    KeywordDecl → KeywordTree
  | .mk name nameMode body span =>
    .node (separator.intercalate (above ++ [name]))
      ((KeywordDecl.mk name nameMode body span).keyword forest ⟨next⟩)
      (body.trees forest separator (above ++ [name]) (next + 1))

/-- The trees of the keywords of a block. -/
def Grammar.trees (forest : Forest) (separator : String) (above : List String) (next : Nat) :
    Grammar → List KeywordTree
  | .keywords decls _ => Grammar.treesAll forest separator above next decls
  | .properties _ _ => []

/-- The trees of keywords in order. -/
def Grammar.treesAll (forest : Forest) (separator : String) (above : List String) (next : Nat) :
    List KeywordDecl → List KeywordTree
  | [] => []
  | decl :: decls =>
    decl.tree forest separator above next ::
      Grammar.treesAll forest separator above (next + decl.count) decls

end

mutual

/-- The tree has the path, the name, the mode and the body of the declaration, and below it there is
what the block of the declaration says. -/
def KeywordDecl.Shown (separator : String) (above : List String) :
    KeywordDecl → KeywordTree → Prop
  | .mk name nameMode body _, .node path keyword children =>
    path = separator.intercalate (above ++ [name]) ∧ keyword.name = name ∧
      keyword.nameMode = nameMode ∧ body.Shown separator (above ++ [name]) keyword.body children

/-- Where the block declares properties, the body is a map of just these, and there is nothing below
it. Otherwise the body is executable, and there is a tree for each keyword, and at least one. -/
def Grammar.Shown (separator : String) (above : List String) :
    Grammar → Keyword.Body → List KeywordTree → Prop
  | .keywords decls _, body, trees =>
    body = .executable ∧ trees ≠ [] ∧ Grammar.AllShown separator above decls trees
  | .properties decls _, body, trees => body = .map (decls.map (·.property)) ∧ trees = []

/-- There is a tree for each keyword, in order. -/
def Grammar.AllShown (separator : String) (above : List String) :
    List KeywordDecl → List KeywordTree → Prop
  | [], [] => True
  | decl :: decls, tree :: trees =>
    decl.Shown separator above tree ∧ Grammar.AllShown separator above decls trees
  | _, _ => False

end

mutual

/-- The names from the root to each keyword of a tree, below the names `above`. -/
def KeywordDecl.routes (above : List String) : KeywordDecl → List (List String)
  | .mk name _ body _ => (above ++ [name]) :: body.routes (above ++ [name])

/-- The names from the root to each keyword of a block. -/
def Grammar.routes (above : List String) : Grammar → List (List String)
  | .keywords decls _ => Grammar.routesAll above decls
  | .properties _ _ => []

/-- The names from the root to each keyword of several trees. -/
def Grammar.routesAll (above : List String) : List KeywordDecl → List (List String)
  | [] => []
  | decl :: decls => decl.routes above ++ Grammar.routesAll above decls

end

/-! ## What the trees say -/

theorem Grammar.trees_eq (forest : Forest) (separator : String) (above : List String) (next : Nat)
    (g : Grammar) : g.trees forest separator above next =
      Grammar.treesAll forest separator above next g.keywordDecls := by
  cases g <;> rfl

theorem Grammar.Proper.keywordDecls {g : Grammar} (hg : g.Proper) :
    Grammar.AllProper g.keywordDecls := by
  cases g with
  | keywords decls _ => exact hg
  | properties decls _ => trivial

section Shown

variable (forest : Forest) (separator : String) (above : List String) (next : Nat)

theorem KeywordDecl.root_tree (decl : KeywordDecl) :
    (decl.tree forest separator above next).root.name = decl.name := by
  obtain ⟨_, _, _, _⟩ := decl
  rw [KeywordDecl.tree]
  rfl

theorem Grammar.map_root_treesAll (decls : List KeywordDecl) :
    (Grammar.treesAll forest separator above next decls).map (·.root.name) =
      decls.map KeywordDecl.name := by
  induction decls generalizing next with
  | nil => rfl
  | cons decl decls ih =>
    rw [Grammar.treesAll, List.map_cons, List.map_cons, ih, KeywordDecl.root_tree]

end Shown

mutual

theorem KeywordDecl.shown_tree (forest : Forest) (separator : String) (above : List String)
    (next : Nat) : ∀ decl : KeywordDecl, decl.Proper →
      decl.Shown separator above (decl.tree forest separator above next)
  | .mk name nameMode body _, ⟨_, hdeclares, hbody⟩ => by
    rw [KeywordDecl.tree, KeywordDecl.Shown]
    exact ⟨rfl, rfl, rfl, Grammar.shown_trees forest separator _ _ body hbody hdeclares⟩

theorem Grammar.shown_trees (forest : Forest) (separator : String) (above : List String)
    (next : Nat) : ∀ g : Grammar, g.Proper → g.Declares →
      g.Shown separator above g.toBody (g.trees forest separator above next)
  | .keywords decls _, hproper, hdeclares => by
    have hne : decls ≠ [] := by simpa [Grammar.Declares, Grammar.keywordDecls,
      Grammar.propertyDecls] using hdeclares
    rw [Grammar.Shown, Grammar.trees]
    refine ⟨rfl, ?_, Grammar.allShown_treesAll forest separator above next decls hproper⟩
    obtain ⟨decl, decls, rfl⟩ := List.exists_cons_of_ne_nil hne
    rw [Grammar.treesAll]
    exact List.cons_ne_nil _ _
  | .properties decls _, hproper, _ => by
    rw [Grammar.Shown, Grammar.trees]
    refine ⟨?_, rfl⟩
    rw [Grammar.toBody, if_neg]
    · rfl
    · rw [Grammar.Proper] at hproper
      simpa [Grammar.propertyList, Grammar.propertyDecls] using hproper

theorem Grammar.allShown_treesAll (forest : Forest) (separator : String) (above : List String)
    (next : Nat) : ∀ decls : List KeywordDecl, Grammar.AllProper decls →
      Grammar.AllShown separator above decls (Grammar.treesAll forest separator above next decls)
  | [], _ => by
    rw [Grammar.treesAll, Grammar.AllShown]
    trivial
  | decl :: decls, ⟨hdecl, _, hdecls⟩ => by
    rw [Grammar.treesAll, Grammar.AllShown]
    exact ⟨KeywordDecl.shown_tree forest separator above next decl hdecl,
      Grammar.allShown_treesAll forest separator above _ decls hdecls⟩

end

/-! ## Identities -/

mutual

theorem KeywordDecl.map_id_entries (forest : Forest) (separator : String) (above : List String)
    (next : Nat) (dsl : String) (parent? : Option Keyword.Id) : ∀ decl : KeywordDecl,
      ((decl.tree forest separator above next).entries dsl parent?).map (·.id.number) =
        List.range' next decl.count
  | .mk name nameMode body _ => by
    rw [KeywordDecl.tree, KeywordTree.entries, List.map_cons, KeywordDecl.count,
      Nat.add_comm 1, List.range'_succ, Grammar.map_id_entriesAll forest separator _ _ dsl _ body]
    rfl

theorem Grammar.map_id_entriesAll (forest : Forest) (separator : String) (above : List String)
    (next : Nat) (dsl : String) (parent? : Option Keyword.Id) : ∀ g : Grammar,
      (entriesAll dsl parent? (g.trees forest separator above next)).map (·.id.number) =
        List.range' next g.count
  | .keywords decls _ => by
    rw [Grammar.trees, Grammar.count]
    exact Grammar.map_id_entriesAll_treesAll forest separator above next dsl parent? decls
  | .properties _ _ => by
    rw [Grammar.trees, Grammar.count]
    rfl

theorem Grammar.map_id_entriesAll_treesAll (forest : Forest) (separator : String)
    (above : List String) (next : Nat) (dsl : String) (parent? : Option Keyword.Id) :
    ∀ decls : List KeywordDecl,
      (entriesAll dsl parent? (Grammar.treesAll forest separator above next decls)).map
        (·.id.number) = List.range' next (Grammar.countAll decls)
  | [] => by
    rw [Grammar.treesAll, Grammar.countAll]
    rfl
  | decl :: decls => by
    rw [Grammar.treesAll, Grammar.countAll, entriesAll, List.map_append,
      KeywordDecl.map_id_entries forest separator above next dsl parent? decl,
      Grammar.map_id_entriesAll_treesAll forest separator above _ dsl parent? decls,
      List.range'_append_1]

end

theorem KeywordDecl.length_entries (forest : Forest) (separator : String) (above : List String)
    (next : Nat) (dsl : String) (parent? : Option Keyword.Id) (decl : KeywordDecl) :
    ((decl.tree forest separator above next).entries dsl parent?).length = decl.count := by
  have hids := congrArg List.length
    (decl.map_id_entries forest separator above next dsl parent?)
  simpa using hids

/-! ## Paths -/

mutual

theorem KeywordDecl.paths_tree (forest : Forest) (separator : String) (above : List String)
    (next : Nat) : ∀ decl : KeywordDecl,
      (decl.tree forest separator above next).paths =
        (decl.routes above).map separator.intercalate
  | .mk name nameMode body _ => by
    rw [KeywordDecl.tree, KeywordTree.paths, KeywordDecl.routes, List.map_cons,
      Grammar.pathsAll_trees forest separator _ _ body]

theorem Grammar.pathsAll_trees (forest : Forest) (separator : String) (above : List String)
    (next : Nat) : ∀ g : Grammar,
      pathsAll (g.trees forest separator above next) = (g.routes above).map separator.intercalate
  | .keywords decls _ => by
    rw [Grammar.trees, Grammar.routes]
    exact Grammar.pathsAll_treesAll forest separator above next decls
  | .properties _ _ => by
    rw [Grammar.trees, Grammar.routes]
    rfl

theorem Grammar.pathsAll_treesAll (forest : Forest) (separator : String) (above : List String)
    (next : Nat) : ∀ decls : List KeywordDecl,
      pathsAll (Grammar.treesAll forest separator above next decls) =
        (Grammar.routesAll above decls).map separator.intercalate
  | [] => by
    rw [Grammar.treesAll, Grammar.routesAll]
    rfl
  | decl :: decls => by
    rw [Grammar.treesAll, Grammar.routesAll, pathsAll, List.map_append,
      KeywordDecl.paths_tree forest separator above next decl,
      Grammar.pathsAll_treesAll forest separator above _ decls]

end

mutual

/-- The way to each keyword of a tree begins with its root, and all names on it are names of
keywords. -/
theorem KeywordDecl.mem_routes {above : List String} : ∀ decl : KeywordDecl, decl.Proper →
    ∀ route ∈ decl.routes above, ∃ below, route = above ++ decl.name :: below ∧
      ∀ name ∈ decl.name :: below, isKeywordName name = true
  | .mk name _ body _, ⟨hname, _, hbody⟩ => by
    intro route hroute
    rw [KeywordDecl.routes] at hroute
    rcases List.mem_cons.1 hroute with rfl | hroute
    · exact ⟨[], rfl, by simpa [KeywordDecl.name] using hname⟩
    · obtain ⟨first, below, rfl, hnames⟩ := Grammar.mem_routes body hbody route hroute
      refine ⟨first :: below, by simp [KeywordDecl.name], ?_⟩
      exact List.forall_mem_cons.2 ⟨hname, hnames⟩

theorem Grammar.mem_routes {above : List String} : ∀ g : Grammar, g.Proper →
    ∀ route ∈ g.routes above, ∃ first below, route = above ++ first :: below ∧
      ∀ name ∈ first :: below, isKeywordName name = true
  | .keywords decls _, hproper => by
    intro route hroute
    rw [Grammar.routes] at hroute
    obtain ⟨decl, _, below, h⟩ := Grammar.mem_routesAll decls hproper route hroute
    exact ⟨decl.name, below, h⟩
  | .properties _ _, _ => by
    intro route hroute
    rw [Grammar.routes] at hroute
    cases hroute

theorem Grammar.mem_routesAll {above : List String} : ∀ decls : List KeywordDecl,
    Grammar.AllProper decls → ∀ route ∈ Grammar.routesAll above decls, ∃ decl ∈ decls, ∃ below,
      route = above ++ decl.name :: below ∧
        ∀ name ∈ decl.name :: below, isKeywordName name = true
  | [], _ => by
    intro route hroute
    rw [Grammar.routesAll] at hroute
    cases hroute
  | decl :: decls, ⟨hdecl, _, hdecls⟩ => by
    intro route hroute
    rw [Grammar.routesAll] at hroute
    rcases List.mem_append.1 hroute with hroute | hroute
    · exact ⟨decl, List.mem_cons_self, KeywordDecl.mem_routes decl hdecl route hroute⟩
    · obtain ⟨other, ho, h⟩ := Grammar.mem_routesAll decls hdecls route hroute
      exact ⟨other, List.mem_cons_of_mem _ ho, h⟩

end

mutual

/-- The ways to the keywords of a tree are distinct, up to case. -/
theorem KeywordDecl.nodup_routes (above : List String) : ∀ decl : KeywordDecl, decl.Proper →
    ((decl.routes above).map (List.map foldCase)).Nodup
  | .mk name _ body _, ⟨_, _, hbody⟩ => by
    rw [KeywordDecl.routes, List.map_cons, List.nodup_cons]
    refine ⟨?_, Grammar.nodup_routes _ body hbody⟩
    intro hmem
    obtain ⟨route, hroute, same⟩ := List.mem_map.1 hmem
    obtain ⟨first, below, rfl, -⟩ := Grammar.mem_routes body hbody route hroute
    have hlength := congrArg List.length same
    simp at hlength

theorem Grammar.nodup_routes (above : List String) : ∀ g : Grammar, g.Proper →
    ((g.routes above).map (List.map foldCase)).Nodup
  | .keywords decls _, hproper => by
    rw [Grammar.routes]
    exact Grammar.nodup_routesAll above decls hproper
  | .properties _ _, _ => by
    rw [Grammar.routes]
    exact List.nodup_nil

theorem Grammar.nodup_routesAll (above : List String) : ∀ decls : List KeywordDecl,
    Grammar.AllProper decls → ((Grammar.routesAll above decls).map (List.map foldCase)).Nodup
  | [], _ => by
    rw [Grammar.routesAll]
    exact List.nodup_nil
  | decl :: decls, ⟨hdecl, hnames, hdecls⟩ => by
    rw [Grammar.routesAll, List.map_append]
    refine List.nodup_append.2 ⟨KeywordDecl.nodup_routes above decl hdecl,
      Grammar.nodup_routesAll above decls hdecls, ?_⟩
    -- The ways into two trees part at their roots.
    intro _ hfirst _ hsecond same
    obtain ⟨route, hroute, rfl⟩ := List.mem_map.1 hfirst
    obtain ⟨route', hroute', rfl⟩ := List.mem_map.1 hsecond
    obtain ⟨below, rfl, -⟩ := KeywordDecl.mem_routes decl hdecl route hroute
    obtain ⟨other, ho, below', rfl, -⟩ := Grammar.mem_routesAll decls hdecls route' hroute'
    rw [List.map_append, List.map_append, List.map_cons, List.map_cons] at same
    have hname := (List.cons.inj (List.append_cancel_left same)).1
    exact hnames other ho (sameName_iff.2 hname)

end

/-- The separator keeps the paths of the keywords of the grammar apart, up to case. -/
def Grammar.Separated (separator : String) (g : Grammar) : Prop :=
  ((g.routes []).map fun route => foldCase (separator.intercalate route)).Nodup

theorem Grammar.separated_iff {separator : String} (g : Grammar) (forest : Forest) (next : Nat) :
    g.Separated separator ↔ ((pathsAll (g.trees forest separator [] next)).map foldCase).Nodup := by
  rw [Grammar.pathsAll_trees, List.map_map]
  rfl

/-- The paths of a grammar are kept apart if the separator is not made of letters only. -/
theorem Grammar.Proper.separated {g : Grammar} (hg : g.Proper) {separator : String}
    (hsep : separator.toList.any (fun c => !c.isAlpha) = true) : g.Separated separator := by
  have hrouteNodup := g.nodup_routes [] hg
  rw [List.Nodup, List.pairwise_map] at hrouteNodup
  rw [Grammar.Separated, List.Nodup, List.pairwise_map]
  refine hrouteNodup.imp_of_mem fun {route route'} hroute hroute' hne same => hne ?_
  obtain ⟨first, below, rfl, hnames⟩ := Grammar.mem_routes g hg route hroute
  obtain ⟨first', below', rfl, hnames'⟩ := Grammar.mem_routes g hg route' hroute'
  exact joined_inj hsep (List.cons_ne_nil _ _) (List.cons_ne_nil _ _) hnames hnames' same

end KeywordScope
