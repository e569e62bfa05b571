/-!
# Names up to case

Names of keywords, properties, modules and bindings are compared without regard to the case of
ASCII letters; every other character counts as written.

* `foldCase`: the spelling that stands for all spellings of a name.
* `sameName`: two spellings name the same thing.
-/

namespace KeywordScope

/-- The spelling with each ASCII capital replaced by its small letter. -/
def foldCase (name : String) : String :=
  String.ofList (name.toList.map Char.toLower)

/-- Two spellings differ at most in the case of ASCII letters. -/
def sameName (a b : String) : Bool :=
  foldCase a == foldCase b

theorem sameName_iff {a b : String} : sameName a b = true ↔ foldCase a = foldCase b := by
  simp [sameName]

theorem sameName_refl (a : String) : sameName a a = true := by
  simp [sameName]

theorem sameName_of_eq {a b : String} (h : b = a) : sameName a b = true := by
  rw [h, sameName_refl]

/-- What is called by a name is called by its other spellings. -/
theorem sameName_congr {a b : String} (h : sameName a b = true) (c : String) :
    sameName c a = sameName c b := by
  rw [sameName, sameName, sameName_iff.1 h]

theorem sameName_comm (a b : String) : sameName a b = sameName b a := by
  simp only [sameName, Bool.beq_comm]

theorem sameName_trans {a b c : String} (h : sameName a b = true) (h' : sameName b c = true) :
    sameName a c = true := by
  rw [sameName_iff] at *
  exact h.trans h'

/-- Some name of the list is `name`. -/
def hasName (names : List String) (name : String) : Bool :=
  names.any (sameName name)

theorem hasName_congr {a b : String} (h : sameName a b = true) (names : List String) :
    hasName names a = hasName names b := by
  have hsame : sameName a = sameName b := by
    funext other
    rw [sameName_comm a, sameName_comm b, sameName_congr h]
  rw [hasName, hasName, hsame]

end KeywordScope
