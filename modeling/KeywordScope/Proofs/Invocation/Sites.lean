import Mathlib.Data.Option.Basic
import KeywordScope.Invocation.Site
import KeywordScope.Proofs.Text.Letters

/-!
# Sites are read back

A written site is cut at the first separators from the left. Its numbers have no colons, so a file
name alone can bring a separator forward: by one of its own, or by a colon right in front of the one
that ends it.

* `splitColons?_eq_some_iff`: where the first separator stands.
* `readNumber_toString`: a written number is read back.
* `Site.read_write_iff`: a site is read back just if its file has no separator and no colon at its
  end.
-/

namespace KeywordScope

/-! ## Numbers -/

theorem trim_of_forall {s : String} (h : ∀ c ∈ s.toList, isBlank c = false) : trim s = s := by
  have hfront : s.toList.dropWhile isBlank = s.toList := by
    cases hs : s.toList with
    | nil => rfl
    | cons c cs =>
      have hc : ¬ isBlank c = true := by simp [h c (hs ▸ List.mem_cons_self)]
      exact List.dropWhile_cons_of_neg hc
  have hend : s.toList.reverse.dropWhile isBlank = s.toList.reverse := by
    cases hs : s.toList.reverse with
    | nil => rfl
    | cons c cs =>
      have hmem : c ∈ s.toList := List.mem_reverse.1 (hs ▸ List.mem_cons_self)
      exact List.dropWhile_cons_of_neg (by simp [h c hmem])
  rw [trim, hfront, dropBlankEnd, hend, List.reverse_reverse, String.ofList_toList]

/-- Decimal digits are read as the number that they write. -/
theorem digitsValue?_toDigits (n : Nat) : digitsValue? (Nat.toDigits 10 n) = some n := by
  have hall : (Nat.toDigits 10 n).all Char.isDigit = true :=
    List.all_eq_true.2 fun _ hc => Nat.isDigit_of_mem_toDigits (by decide) (by decide) hc
  rw [digitsValue?, if_pos hall]
  exact congrArg some (Nat.ofDigitChars_toDigits (by decide) (by decide))

theorem readNat?_repr {bound n : Nat} (h : n < bound) : readNat? bound n.repr = some n := by
  have hsign : ∀ rest, Nat.toDigits 10 n ≠ '+' :: rest := by
    intro rest hcons
    have hmem : '+' ∈ Nat.toDigits 10 n := hcons ▸ List.mem_cons_self
    exact absurd (Nat.isDigit_of_mem_toDigits (by decide) (by decide) hmem) (by decide)
  have hempty : guard (!(Nat.toDigits 10 n).isEmpty) = some () :=
    (Option.guard_eq_some' ()).2 (by simp [Nat.toDigits_ne_nil])
  have hbound : guard (n < bound) = some () := (Option.guard_eq_some' ()).2 h
  unfold readNat?
  rw [Nat.toList_repr]
  split
  · next rest hcons => exact absurd hcons (hsign rest)
  · simp only [hempty, digitsValue?_toDigits, hbound, Option.bind_eq_bind, Option.bind_some,
      Option.pure_def]

namespace Site

theorem isDigit_of_mem_toString {n : UInt32} {c : Char} (h : c ∈ (toString n).toList) :
    c.isDigit = true := by
  have hlist : (toString n).toList = Nat.toDigits 10 n.toNat := Nat.toList_repr
  rw [hlist] at h
  exact Nat.isDigit_of_mem_toDigits (by decide) (by decide) h

theorem readNumber_toString (n : UInt32) : readNumber (toString n).toList = n := by
  have hblank : ∀ c ∈ (toString n).toList, isBlank c = false := fun c hc =>
    isBlank_of_isWordChar <| isWordChar_of_isAlphanum <| by
      rw [Char.isAlphanum, isDigit_of_mem_toString hc, Bool.or_true]
  have hread : readNat? UInt32.size (toString n) = some n.toNat := readNat?_repr n.toNat_lt_size
  rw [readNumber, String.ofList_toList, trim_of_forall hblank, hread]
  exact UInt32.ofNat_toNat

/-! ## Separators -/

/-- A separator behind the characters is the first one in the text. -/
def Unseparated (cs : List Char) : Prop :=
  ¬ [':', ':'] <:+: cs ++ [':']

theorem unseparated_iff {cs : List Char} :
    Unseparated cs ↔ ¬ [':', ':'] <:+: cs ∧ cs.getLast? ≠ some ':' := by
  have hsuffix : [':', ':'] <:+ cs ++ [':'] ↔ cs.getLast? = some ':' := by
    rw [show [':', ':'] = [':'] ++ [':'] from rfl, List.suffix_append_inj_of_length_eq rfl,
      List.getLast?_eq_some_iff]
    simp [List.IsSuffix, eq_comm]
  rw [Unseparated, List.infix_concat_iff, hsuffix, not_or, and_comm]

/-- What has no colon at all does not bring a separator forward. -/
theorem unseparated_of_not_mem {cs : List Char} (h : ':' ∉ cs) : Unseparated cs := by
  intro hinfix
  have hcount := hinfix.sublist.count_le ':'
  rw [List.count_append, List.count_eq_zero_of_not_mem h] at hcount
  exact absurd hcount (by decide)

theorem unseparated_toString (n : UInt32) : Unseparated (toString n).toList :=
  unseparated_of_not_mem fun hmem => absurd (isDigit_of_mem_toString hmem) (by decide)

theorem unseparated_cons {c : Char} {cs : List Char} :
    Unseparated (c :: cs) ↔ ¬ [':', ':'] <+: c :: (cs ++ [':']) ∧ Unseparated cs := by
  rw [Unseparated, List.cons_append, List.infix_cons_iff, not_or]
  rfl

/-- The characters begin a separator if they do so in front of one. -/
theorem cons_prefix_iff {c : Char} {cs : List Char} (after : List Char) :
    [':', ':'] <+: c :: (cs ++ [':']) ↔
      c = ':' ∧ ∃ rest, cs ++ ':' :: ':' :: after = ':' :: rest := by
  cases cs <;> simp [List.cons_prefix_cons, eq_comm]

/-- A text is cut at its first separator. -/
theorem splitColons?_eq_some_iff {cs before after : List Char} :
    splitColons? cs = some (before, after) ↔
      cs = before ++ ':' :: ':' :: after ∧ Unseparated before := by
  fun_induction splitColons? cs generalizing before with
  | case1 => simp
  | case2 rest =>
    constructor
    · rintro ⟨⟩
      exact ⟨rfl, unseparated_of_not_mem List.not_mem_nil⟩
    · rintro ⟨hcs, hclear⟩
      cases before with
      | nil => simpa using hcs
      | cons c before =>
        obtain ⟨rfl, hrest⟩ := List.cons.inj hcs
        exact absurd ((cons_prefix_iff after).2 ⟨rfl, _, hrest.symm⟩) (unseparated_cons.1 hclear).1
  | case3 c rest hno ih =>
    rw [Option.map_eq_some_iff]
    constructor
    · rintro ⟨⟨before, after⟩, hsplit, ⟨⟩⟩
      obtain ⟨rfl, hclear⟩ := ih.1 hsplit
      refine ⟨rfl, unseparated_cons.2 ⟨fun hprefix => ?_, hclear⟩⟩
      obtain ⟨rfl, _, hrest⟩ := (cons_prefix_iff _).1 hprefix
      exact hno _ rfl hrest
    · rintro ⟨hcs, hclear⟩
      cases before with
      | nil =>
        obtain ⟨rfl, hrest⟩ := List.cons.inj hcs
        exact absurd hrest (hno _ rfl)
      | cons d before =>
        obtain ⟨rfl, hrest⟩ := List.cons.inj hcs
        exact ⟨_, ih.2 ⟨hrest, (unseparated_cons.1 hclear).2⟩, rfl⟩

theorem splitParts_append {before : List Char} (h : Unseparated before) (n : Nat)
    (after : List Char) :
    splitParts (n + 1) (before ++ ':' :: ':' :: after) = before :: splitParts n after := by
  rw [splitParts, splitColons?_eq_some_iff.2 ⟨rfl, h⟩]

/-! ## Whole sites -/

theorem toList_write (site : Site) :
    site.write.toList = site.file.toList ++ ':' :: ':' :: ((toString site.line).toList ++
      ':' :: ':' :: ((toString site.column).toList ++ ':' :: ':' :: site.text.toList)) := by
  simp [write]

/-- The file stands in front of the first separator. -/
theorem file_read (text : String) : (read text).file =
    String.ofList (((splitColons? text.toList).map (·.1)).getD text.toList) := by
  rw [read, splitParts]
  rcases splitColons? text.toList with _ | ⟨file, rest⟩
  · rfl
  · simp only
    split
    all_goals simp_all

/-- A written site is read back if and only if its file has no separator in it and does not end with
a colon. Its other text may be any. -/
theorem read_write_iff (site : Site) :
    read site.write = site ↔
      ¬ [':', ':'] <:+: site.file.toList ∧ site.file.toList.getLast? ≠ some ':' := by
  rw [← unseparated_iff]
  constructor
  · intro hsame
    have hfile : (read site.write).file = site.file := congrArg Site.file hsame
    rw [file_read] at hfile
    have hlist := congrArg String.toList hfile
    rw [String.toList_ofList] at hlist
    cases hsplit : splitColons? site.write.toList with
    | none =>
      have hlength := congrArg List.length hlist
      rw [hsplit] at hlength
      simp [toList_write] at hlength
    | some parts =>
      rw [hsplit] at hlist
      obtain ⟨-, hclear⟩ := splitColons?_eq_some_iff.1 hsplit
      exact hlist ▸ hclear
  · intro hclear
    have hparts : splitParts 3 site.write.toList = [site.file.toList, (toString site.line).toList,
        (toString site.column).toList, site.text.toList] := by
      rw [toList_write, splitParts_append hclear, splitParts_append (unseparated_toString _),
        splitParts_append (unseparated_toString _), splitParts]
    rw [read, hparts]
    simp only [readNumber_toString, String.ofList_toList]

end Site
end KeywordScope
