import KeywordScope.Grammar.Check
import KeywordScope.Proofs.Text.Letters
import KeywordScope.TypeTable

/-!
# Finding types

* `Finds I finder findType`: the finder answers as the function does, from every state that
  satisfies the invariant, and keeps it.
* `TypeCache.finds`: a cache does not change what is found, where spellings of a word do not matter.
* `TypeTable.find?_congr`: in a table of types they do not.
* `TypeTable.find?_of_builtin`: names that are added do not change the built-in ones.
-/

namespace KeywordScope

/-- The finder answers as the function does, as long as the invariant holds, which it keeps. -/
def Finds {σ : Type} (I : σ → Prop) (finder : FindType σ)
    (findType : String → Option HostType) : Prop :=
  ∀ token s, I s → ((finder token).run s).1 = findType token ∧ I ((finder token).run s).2

namespace TypeCache

variable {findType : String → Option HostType}

/-- What the cache has is what the function answers, for every spelling of the word. -/
def Sound (findType : String → Option HostType) (cache : TypeCache) : Prop :=
  ∀ token type, cache.lookup (foldCase token) = some type → findType token = some type

theorem run_find (token : String) (cache : TypeCache) :
    (find findType token).run cache =
      match cache.lookup (foldCase token) with
      | some type => (some type, cache)
      | none =>
        match findType token with
        | some type => (some type, (foldCase token, type) :: cache)
        | none => (none, cache) := by
  unfold find
  simp only [StateT.run_bind, StateT.run_get, pure_bind]
  cases cache.lookup (foldCase token) with
  | some type => rfl
  | none => cases findType token <;> rfl

theorem finds (hcase : ∀ a b, foldCase a = foldCase b → findType a = findType b) :
    Finds (Sound findType) (find findType) findType := by
  intro token cache hsound
  rw [run_find]
  cases hcached : cache.lookup (foldCase token) with
  | some type => exact ⟨(hsound token type hcached).symm, hsound⟩
  | none =>
    cases hfound : findType token with
    | none => exact ⟨rfl, hsound⟩
    | some type =>
      refine ⟨rfl, fun other found hlookup => ?_⟩
      rw [List.lookup_cons] at hlookup
      split at hlookup
      · next hsame =>
        rw [hcase other token (beq_iff_eq.1 hsame), hfound]
        exact hlookup
      · exact hsound other found hlookup

end TypeCache

/-! ## Tables of types -/

theorem unbracket?_map_toLower (cs : List Char) :
    TypeTable.unbracket? (cs.map Char.toLower) =
      (TypeTable.unbracket? cs).map (List.map Char.toLower) := by
  cases cs with
  | nil => rfl
  | cons c cs =>
    by_cases hc : c = '['
    · subst hc
      have hlast : (cs.map Char.toLower).getLast? = some ']' ↔ cs.getLast? = some ']' := by
        rw [List.getLast?_map]
        cases cs.getLast? with
        | none => simp
        | some d => simp [toLower_eq_iff (d := ']') (by decide)]
      have hopen : '['.toLower = '[' := by decide
      simp only [List.map_cons, hopen, TypeTable.unbracket?, hlast]
      split
      · simp [List.map_dropLast]
      · rfl
    · have hopen : c.toLower ≠ '[' := by
        rwa [ne_eq, toLower_eq_iff (by decide)]
      simp [TypeTable.unbracket?, hc, hopen]

/-- Brackets are taken away from a text in small letters as from the text. -/
theorem TypeTable.foldCase_inner (text : String) :
    foldCase (String.ofList ((unbracket? text.toList).getD text.toList)) =
      String.ofList ((unbracket? (foldCase text).toList).getD (foldCase text).toList) := by
  rw [toList_foldCase, unbracket?_map_toLower]
  cases unbracket? text.toList <;> simp [foldCase]

theorem TypeTable.foldCase_bareName (token : String) :
    foldCase (bareName token) = bareName (foldCase token) := by
  rw [bareName, bareName, foldCase_trim, foldCase_inner]

/-- In a table the case of a word does not matter. -/
theorem TypeTable.find?_congr (table : TypeTable) {a b : String} (h : foldCase a = foldCase b) :
    table.find? a = table.find? b := by
  have hbare : foldCase (bareName a) = foldCase (bareName b) := by
    rw [foldCase_bareName, foldCase_bareName, h]
  simp only [find?, sameName, hbare]

/-- What the built-in names find is found in every table. -/
theorem TypeTable.find?_of_builtin (table : TypeTable) {token : String} {type : HostType}
    (h : ({} : TypeTable).find? token = some type) : table.find? token = some type := by
  simp only [find?, List.append_nil, Option.map_eq_some_iff] at h ⊢
  obtain ⟨names, hnames, rfl⟩ := h
  exact ⟨names, by rw [List.find?_append, hnames, Option.some_or], rfl⟩

end KeywordScope
