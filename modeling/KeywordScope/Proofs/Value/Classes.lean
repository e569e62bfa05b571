import KeywordScope.Value.Basic
import Mathlib.Data.List.Induction

/-!
# Fields up to case

`Fields.set` takes names that differ in case only for one name. What a run of it leaves of any
fields, said without it:

* `firstSpellings`: of the names that are one up to case, the one that comes first.
* `Fields.classes`: one field for each of these, with the last value that its spellings have.
* `Fields.foldl_set`: setting fields one after the other, on top of others, adds their classes.
-/

namespace KeywordScope

/-- Of the names that are one up to case, the first. -/
def firstSpellings : List String → List String
  | [] => []
  | name :: names => name :: (firstSpellings names).filter fun other => !sameName name other

/-- No two of the names are one up to case. -/
def NamesDiffer (names : List String) : Prop :=
  names.Pairwise fun name other => sameName name other = false

theorem namesDiffer_firstSpellings (names : List String) : NamesDiffer (firstSpellings names) := by
  induction names with
  | nil => exact .nil
  | cons name names ih =>
    refine List.pairwise_cons.2 ⟨fun other hother => ?_, ih.filter _⟩
    simpa using (List.mem_filter.1 hother).2

theorem firstSpellings_subset (names : List String) : firstSpellings names ⊆ names := by
  induction names with
  | nil => exact List.Subset.refl _
  | cons name names ih =>
    intro other hother
    rcases List.mem_cons.1 hother with rfl | hother
    · exact List.mem_cons_self
    · exact List.mem_cons_of_mem _ (ih (List.mem_filter.1 hother).1)

theorem hasName_cons (name : String) (names : List String) (other : String) :
    hasName (name :: names) other = (sameName name other || hasName names other) := by
  rw [hasName, List.any_cons, sameName_comm, hasName]

/-- What is one of the names up to case is also one of the first spellings. -/
theorem hasName_firstSpellings (names : List String) (name : String) :
    hasName (firstSpellings names) name = hasName names name := by
  induction names with
  | nil => rfl
  | cons first names ih =>
    rw [firstSpellings, hasName_cons, hasName_cons, ← ih]
    by_cases hfirst : sameName first name = true
    · simp [hfirst]
    · simp only [hfirst, hasName, List.any_filter]
      -- A spelling of `name` is no spelling of `first`, so that none is left out.
      congr 2
      funext other
      by_cases hother : sameName name other = true
      · have hdiffer : sameName first other = false := by
          rw [← sameName_congr hother]
          simpa using hfirst
        simp [hother, hdiffer]
      · simp [hother]

/-- The first of the names with a property comes first of its spellings, if the property does not
depend on case. -/
theorem find?_firstSpellings {p : String → Bool}
    (hp : ∀ a b, sameName a b = true → p a = p b) (names : List String) :
    (firstSpellings names).find? p = names.find? p := by
  induction names with
  | nil => rfl
  | cons name names ih =>
    rw [firstSpellings, List.find?_cons, List.find?_cons]
    by_cases hname : p name = true
    · simp [hname]
    · simp only [hname, List.find?_filter, ← ih]
      congr 1
      funext other
      by_cases hother : p other = true
      · have hdiffer : sameName name other = false :=
          Bool.eq_false_iff.2 fun hsame => hname ((hp name other hsame).trans hother)
        simp [hother, hdiffer]
      · simp [hother]

theorem firstSpellings_concat (names : List String) (name : String) :
    firstSpellings (names ++ [name]) =
      if hasName names name then firstSpellings names else firstSpellings names ++ [name] := by
  induction names with
  | nil => simp [firstSpellings, hasName]
  | cons first names ih =>
    rw [List.cons_append, firstSpellings, firstSpellings, ih, hasName_cons]
    by_cases hnames : hasName names name = true
    · simp [hnames]
    · by_cases hfirst : sameName first name = true
      · simp [hnames, hfirst]
      · simp [hnames, hfirst]

namespace Fields

theorem names_concat (fields : Fields) (field : String × Value) :
    names (fields ++ [field]) = names fields ++ [field.1] := by
  simp [names]

/-- The value of the last field of a name, in any of its spellings. -/
def last? (fields : Fields) (name : String) : Option Value :=
  find? fields.reverse name

/-- One field for each name up to case, in the order and the spelling in which the names come
first, with the last value of each. -/
def classes (fields : Fields) : Fields :=
  (firstSpellings fields.names).map fun name => (name, (fields.last? name).getD .null)

theorem names_classes (fields : Fields) : fields.classes.names = firstSpellings fields.names := by
  simp [classes, names, Function.comp_def]

theorem last?_concat (fields : Fields) (name : String) (value : Value) (other : String) :
    last? (fields ++ [(name, value)]) other =
      if sameName name other then some value else fields.last? other := by
  rw [last?, last?, find?, find?, List.reverse_concat, List.find?_cons]
  by_cases h : sameName name other = true
  · simp [h]
  · simp [h]

/-- Setting a field among fields that are given by their names. -/
theorem set_map {names : List String} (h : NamesDiffer names) (value : String → Value)
    (name : String) (new : Value) :
    set (names.map fun other => (other, value other)) name new =
      if hasName names name then
        names.map fun other => (other, if sameName other name then new else value other)
      else names.map (fun other => (other, value other)) ++ [(name, new)] := by
  induction names with
  | nil => rfl
  | cons first names ih =>
    obtain ⟨hfirst, hnames⟩ := List.pairwise_cons.1 h
    rw [List.map_cons, set, hasName_cons]
    by_cases hsame : sameName first name = true
    · simp only [hsame, Bool.true_or, if_true, List.map_cons]
      -- The names behind the first spelling are others.
      congr 1
      apply List.map_congr_left
      intro other hother
      have hdiffer : sameName other name = false := by
        rw [← sameName_congr hsame, sameName_comm]
        exact hfirst other hother
      simp [hdiffer]
    · simp only [hsame, Bool.false_or, ih hnames, List.map_cons]
      by_cases hmore : hasName names name = true
      · simp [hmore]
      · simp [hmore]

/-- One more field goes where `set` puts it. -/
theorem classes_concat (fields : Fields) (name : String) (value : Value) :
    classes (fields ++ [(name, value)]) = fields.classes.set name value := by
  rw [classes, classes, names_concat, firstSpellings_concat, set_map (namesDiffer_firstSpellings _),
    hasName_firstSpellings]
  simp only [last?_concat]
  by_cases hname : hasName fields.names name = true
  · simp only [hname, if_true]
    apply List.map_congr_left
    intro other _
    rw [sameName_comm]
    by_cases hsame : sameName other name = true
    · simp [hsame]
    · simp [hsame]
  · simp only [hname, Bool.false_eq_true, if_false, List.map_append, List.map_cons, List.map_nil,
      sameName_refl, if_true, Option.getD_some]
    congr 1
    apply List.map_congr_left
    intro other hother
    -- A name that was there is not the new one.
    have hdiffer : sameName name other = false := by
      apply Bool.eq_false_iff.2
      intro hsame
      exact hname (List.any_eq_true.2 ⟨other, firstSpellings_subset _ hother, hsame⟩)
    simp [hdiffer]

theorem foldl_set_nil (fields : Fields) :
    fields.foldl (fun all field => set all field.1 field.2) [] = fields.classes := by
  induction fields using List.reverseRecOn with
  | nil => rfl
  | append_singleton fields field ih =>
    rw [List.foldl_append, List.foldl_cons, List.foldl_nil, ih, classes_concat]

theorem set_append {before : Fields} {name : String} (h : hasName before.names name = false)
    (after : Fields) (value : Value) :
    set (before ++ after) name value = before ++ set after name value := by
  induction before with
  | nil => rfl
  | cons field before ih =>
    rw [names, List.map_cons, hasName_cons, Bool.or_eq_false_iff] at h
    rw [List.cons_append, set, if_neg (by simp [h.1]), ih h.2, List.cons_append]

/-- Of two values that are set under one name, the second counts. -/
theorem set_set (fields : Fields) (name : String) (first second : Value) :
    (fields.set name first).set name second = fields.set name second := by
  induction fields with
  | nil => simp only [set, sameName_refl, if_true]
  | cons field fields ih =>
    by_cases h : sameName field.1 name = true
    · simp only [set, h, if_true]
    · simp only [set, h, Bool.false_eq_true, if_false, ih]

/-- A new name goes to the end. -/
theorem set_new {fields : Fields} {name : String} (h : hasName fields.names name = false)
    (value : Value) : set fields name value = fields ++ [(name, value)] := by
  have happend := set_append h [] value
  rwa [List.append_nil, set] at happend

/-- Setting fields one after the other, on top of others with other names, adds their classes. -/
theorem foldl_set {before fields : Fields}
    (h : ∀ name ∈ fields.names, hasName before.names name = false) :
    fields.foldl (fun all field => set all field.1 field.2) before = before ++ fields.classes := by
  induction fields using List.reverseRecOn with
  | nil => simp [classes, names, firstSpellings]
  | append_singleton fields field ih =>
    rw [names_concat] at h
    rw [List.foldl_append, List.foldl_cons, List.foldl_nil,
      ih fun name hname => h name (List.mem_append_left _ hname), classes_concat]
    exact set_append (h field.1 (by simp)) _ _

/-- Fields whose names differ are their own classes. -/
theorem classes_of_namesDiffer {fields : Fields} (h : NamesDiffer fields.names) :
    fields.classes = fields := by
  induction fields using List.reverseRecOn with
  | nil => rfl
  | append_singleton fields field ih =>
    rw [names_concat, NamesDiffer, List.pairwise_append] at h
    obtain ⟨hfields, -, hfield⟩ := h
    have hnew : hasName (names fields) field.1 = false := by
      apply List.any_eq_false.2
      intro name hname
      rw [sameName_comm, hfield name hname field.1 (by simp)]
      exact Bool.false_ne_true
    rw [classes_concat, ih hfields]
    exact set_new hnew field.2

end Fields

end KeywordScope
