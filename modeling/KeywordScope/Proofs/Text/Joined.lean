import KeywordScope.Grammar.Check
import Mathlib.Data.List.TakeWhile

/-!
# Joined names

Names of letters that are joined by a separator can be told apart again, up to case, if the
separator is not made of letters only.

* `intercalate_inj`: lists of words are determined by what they are joined to.
* `joined_inj`: the same for names of keywords, up to case.
-/

namespace KeywordScope

section Words

variable {α : Type} {p : α → Bool} {sep : List α}

theorem takeWhile_word_append (hsep : ∃ c ∈ sep, p c = false) {word : List α}
    (hw : ∀ c ∈ word, p c = true) (rest : List α) :
    (word ++ sep ++ rest).takeWhile p = word ++ sep.takeWhile p := by
  rw [List.append_assoc, List.takeWhile_append_of_pos hw, List.takeWhile_append, if_neg]
  intro hlen
  obtain ⟨c, hc, hpc⟩ := hsep
  have hall : sep.takeWhile p = sep := (List.takeWhile_prefix p).eq_of_length hlen
  rw [List.takeWhile_eq_self_iff.1 hall c hc] at hpc
  cases hpc

/-- Lists of words that do not contain what the separator contains are told apart by their texts. -/
theorem intercalate_inj (hsep : ∃ c ∈ sep, p c = false) {xs ys : List (List α)} (hx : xs ≠ [])
    (hy : ys ≠ []) (hxs : ∀ word ∈ xs, ∀ c ∈ word, p c = true)
    (hys : ∀ word ∈ ys, ∀ c ∈ word, p c = true) (h : sep.intercalate xs = sep.intercalate ys) :
    xs = ys := by
  -- A text of several words has something in it that a single word has not.
  have hsingle : ∀ {x y : List α} {rest : List (List α)}, rest ≠ [] → (∀ c ∈ x, p c = true) →
      sep.intercalate [x] ≠ sep.intercalate (y :: rest) := by
    intro x y rest hrest hword same
    obtain ⟨c, hc, hpc⟩ := hsep
    rw [List.intercalate_singleton, List.intercalate_cons_of_ne_nil hrest] at same
    have hmem : c ∈ x := by
      rw [same]
      exact List.mem_append_left _ (List.mem_append_right _ hc)
    rw [hword c hmem] at hpc
    cases hpc
  induction xs generalizing ys with
  | nil => exact absurd rfl hx
  | cons x xs ih =>
    obtain ⟨y, ys, rfl⟩ := List.exists_cons_of_ne_nil hy
    have hx₀ := hxs x List.mem_cons_self
    have hy₀ := hys y List.mem_cons_self
    by_cases hxs₀ : xs = []
    · by_cases hys₀ : ys = []
      · subst hxs₀ hys₀
        simpa using h
      · subst hxs₀
        exact absurd h (hsingle hys₀ hx₀)
    · by_cases hys₀ : ys = []
      · subst hys₀
        exact absurd h.symm (hsingle hxs₀ hy₀)
      · rw [List.intercalate_cons_of_ne_nil hxs₀, List.intercalate_cons_of_ne_nil hys₀] at h
        have hword := congrArg (List.takeWhile p) h
        rw [takeWhile_word_append hsep hx₀, takeWhile_word_append hsep hy₀] at hword
        obtain rfl := List.append_cancel_right hword
        have hrest := List.append_cancel_left h
        rw [ih hxs₀ hys₀ (fun word hw => hxs word (List.mem_cons_of_mem _ hw))
          (fun word hw => hys word (List.mem_cons_of_mem _ hw)) hrest]

end Words

theorem isAlpha_toLower (c : Char) : c.toLower.isAlpha = c.isAlpha := by
  have hcode : ∀ d : Char, d.isAlpha =
      (decide (d.val ≥ 65 ∧ d.val ≤ 90) || (decide (d.val ≥ 97) && decide (d.val ≤ 122))) :=
    fun _ => rfl
  rw [hcode, hcode]
  unfold Char.toLower
  split
  · grind
  · rfl

theorem toList_foldCase (name : String) :
    (foldCase name).toList = name.toList.map Char.toLower := by
  simp [foldCase]

theorem foldCase_append (a b : String) : foldCase (a ++ b) = foldCase a ++ foldCase b := by
  simp [foldCase]

theorem map_intercalate {α β : Type} (f : α → β) (sep : List α) (xs : List (List α)) :
    (sep.intercalate xs).map f = (sep.map f).intercalate (xs.map (List.map f)) := by
  induction xs with
  | nil => rfl
  | cons x xs ih =>
    by_cases h : xs = []
    · subst h
      simp
    · rw [List.intercalate_cons_of_ne_nil h, List.map_cons,
        List.intercalate_cons_of_ne_nil (by simpa using h), List.map_append, List.map_append, ih]

/-- Names of keywords that are joined by a separator that is not made of letters only are told apart
by their paths, up to case. -/
theorem joined_inj {separator : String}
    (hsep : separator.toList.any (fun c => !c.isAlpha) = true) {xs ys : List String}
    (hx : xs ≠ []) (hy : ys ≠ []) (hxs : ∀ name ∈ xs, isKeywordName name = true)
    (hys : ∀ name ∈ ys, isKeywordName name = true)
    (h : foldCase (separator.intercalate xs) = foldCase (separator.intercalate ys)) :
    xs.map foldCase = ys.map foldCase := by
  have hletters : ∀ {names : List String}, (∀ name ∈ names, isKeywordName name = true) →
      ∀ word ∈ (names.map String.toList).map (List.map Char.toLower), ∀ c ∈ word,
        c.isAlpha = true := by
    intro names hnames word hw c hc
    rw [List.map_map] at hw
    obtain ⟨name, hname, rfl⟩ := List.mem_map.1 hw
    obtain ⟨d, hd, rfl⟩ := List.mem_map.1 hc
    have hall := hnames name hname
    simp only [isKeywordName, Bool.and_eq_true, List.all_eq_true] at hall
    rw [isAlpha_toLower]
    exact hall.2 d hd
  have hsep' : ∃ c ∈ separator.toList.map Char.toLower, c.isAlpha = false := by
    obtain ⟨c, hc, hca⟩ := List.any_eq_true.1 hsep
    refine ⟨c.toLower, List.mem_map_of_mem hc, ?_⟩
    rw [isAlpha_toLower]
    simpa using hca
  have hlists := congrArg String.toList h
  rw [toList_foldCase, toList_foldCase, String.toList_intercalate, String.toList_intercalate,
    map_intercalate, map_intercalate] at hlists
  have hwords := intercalate_inj hsep' (by simpa using hx) (by simpa using hy) (hletters hxs)
    (hletters hys) hlists
  have hfold : ∀ names : List String, names.map foldCase =
      ((names.map String.toList).map (List.map Char.toLower)).map String.ofList := by
    intro names
    simp [foldCase, Function.comp_def]
  rw [hfold, hfold, hwords]

end KeywordScope
