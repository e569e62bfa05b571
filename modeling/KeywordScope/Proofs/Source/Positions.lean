import Mathlib.Data.List.DropRight
import Mathlib.Data.Prod.Lex
import Mathlib.Data.Set.Function
import KeywordScope.Source.Location

/-!
# Positions are exact

The position of an offset tells what stands in front of it: how many newlines, and how many
characters behind the last one. This needs a source so short that no count overflows; then a later
offset has a later position.

* `IsBoundary source offset`: the offset is a place between characters of the source.
* `beginningIn cs bytes`: the characters that begin in the first bytes.
* `Position.Follows p text`: `p` counts the text. It is kept by a character (`Follows.next`), and so
  by what is passed on the way to an offset (`Follows.advance`).
* `Position.Follows.lt`: what is behind more text is later, by lines and then by columns.
* `Position.ofOffset_exact`: the positions of offsets and spans of a short source.
-/

namespace KeywordScope

/-! ## Offsets -/

/-- A character of the source begins at the offset, or the source ends there. -/
def IsBoundary (source : String) (offset : Nat) : Prop :=
  String.Pos.Raw.IsValid source ⟨offset⟩

theorem utf8Length_eq_utf8ByteSize (cs : List Char) :
    utf8Length cs = (String.ofList cs).utf8ByteSize := by
  induction cs with
  | nil => simp
  | cons c cs ih =>
    rw [String.ofList_cons, String.utf8ByteSize_append, String.utf8ByteSize_singleton,
      utf8Length_cons, ih]

theorem isBoundary_iff {source : String} {offset : Nat} :
    IsBoundary source offset ↔
      ∃ before after, source.toList = before ++ after ∧ offset = utf8Length before := by
  rw [IsBoundary, String.Pos.Raw.isValid_iff_exists_append]
  constructor
  · rintro ⟨before, after, rfl, hoffset⟩
    refine ⟨before.toList, after.toList, String.toList_append, ?_⟩
    rw [utf8Length_eq_utf8ByteSize, String.ofList_toList]
    exact congrArg String.Pos.Raw.byteIdx hoffset
  · rintro ⟨before, after, hsource, rfl⟩
    refine ⟨.ofList before, .ofList after, ?_, ?_⟩
    · rw [← String.ofList_append, ← hsource, String.ofList_toList]
    · rw [utf8Length_eq_utf8ByteSize]
      rfl

/-- The characters that begin in the first bytes. -/
def beginningIn : List Char → Nat → List Char
  | [], _ => []
  | c :: rest, bytes => if bytes = 0 then [] else c :: beginningIn rest (bytes - c.utf8Size)

@[simp]
theorem beginningIn_zero (cs : List Char) : beginningIn cs 0 = [] := by
  cases cs <;> rfl

theorem beginningIn_append (before after : List Char) :
    beginningIn (before ++ after) (utf8Length before) = before := by
  induction before with
  | nil => simp
  | cons c before ih =>
    have hsize := c.utf8Size_pos
    rw [List.cons_append, utf8Length_cons, beginningIn, if_neg (by omega), Nat.add_sub_cancel_left,
      ih]

theorem IsBoundary.utf8Length_beginningIn {source : String} {offset : Nat}
    (h : IsBoundary source offset) : utf8Length (beginningIn source.toList offset) = offset := by
  obtain ⟨before, after, hsource, rfl⟩ := isBoundary_iff.1 h
  rw [hsource, beginningIn_append]

theorem beginningIn_prefix (cs : List Char) (bytes : Nat) : beginningIn cs bytes <+: cs := by
  fun_induction beginningIn cs bytes with
  | case1 => exact List.prefix_refl _
  | case2 => exact List.nil_prefix
  | case3 _ _ _ _ ih => exact List.cons_prefix_cons.2 ⟨rfl, ih⟩

theorem beginningIn_prefix_of_le (cs : List Char) {a b : Nat} (h : a ≤ b) :
    beginningIn cs a <+: beginningIn cs b := by
  induction cs generalizing a b with
  | nil => exact List.prefix_refl _
  | cons c rest ih =>
    by_cases ha : a = 0
    · rw [ha, beginningIn_zero]
      exact List.nil_prefix
    · rw [beginningIn, if_neg ha, beginningIn, if_neg (by omega)]
      exact List.cons_prefix_cons.2 ⟨rfl, ih (by omega)⟩

/-! ## Lines -/

/-- The characters behind the last newline, or all of them if there is none. -/
def lastLine (text : List Char) : List Char :=
  text.rtakeWhile (· ≠ '\n')

theorem lastLine_concat_newline (text : List Char) : lastLine (text ++ ['\n']) = [] :=
  List.rtakeWhile_concat_neg _ _ _ (by decide)

theorem lastLine_append {more : List Char} (text : List Char) (h : '\n' ∉ more) :
    lastLine (text ++ more) = lastLine text ++ more := by
  have hmore : ∀ c ∈ more.reverse, decide (c ≠ '\n') = true := by
    intro c hc
    exact decide_eq_true fun hnewline => h (hnewline ▸ List.mem_reverse.1 hc)
  rw [lastLine, List.rtakeWhile, List.reverse_append, List.takeWhile_append_of_pos hmore,
    List.reverse_append, List.reverse_reverse]
  rfl

theorem length_lastLine_le (text : List Char) : (lastLine text).length ≤ text.length :=
  (List.rtakeWhile_suffix _ _).length_le

namespace Position

/-! ## Order -/

theorem eq_of_counts {p q : Position} (hline : (p.line : Nat) = q.line)
    (hcolumn : (p.column : Nat) = q.column) : p = q := by
  cases p
  cases q
  cases UInt32.toNat_inj.1 hline
  cases UInt32.toNat_inj.1 hcolumn
  rfl

/-- The numbers of a position, the line in front. -/
def rank (p : Position) : Nat ×ₗ Nat :=
  toLex (p.line, p.column)

theorem rank_injective : Function.Injective rank := by
  intro p q h
  obtain ⟨hline, hcolumn⟩ := Prod.mk.inj (toLex.injective h)
  exact eq_of_counts hline hcolumn

/-- Positions are in the order of a text: by lines, and in a line by columns. -/
instance : LinearOrder Position :=
  LinearOrder.lift' rank rank_injective

theorem lt_iff {p q : Position} :
    p < q ↔ (p.line : Nat) < q.line ∨ (p.line : Nat) = q.line ∧ (p.column : Nat) < q.column :=
  Prod.Lex.toLex_lt_toLex

/-! ## Counts -/

/-- The position is where the text ends: each newline has begun a line, and each character behind
the last one has taken a column. The numbers are those of the text, so no count has overflowed. -/
structure Follows (p : Position) (text : List Char) : Prop where
  line : (p.line : Nat) = 1 + text.count '\n'
  column : (p.column : Nat) = 1 + (lastLine text).length

variable {p q : Position} {text : List Char}

theorem first_follows : first.Follows [] :=
  ⟨rfl, rfl⟩

theorem toNat_add_one {n : UInt32} (h : (n : Nat) + 1 < UInt32.size) :
    ((n + 1 : UInt32) : Nat) = n + 1 := by
  rw [UInt32.toNat_add]
  exact Nat.mod_eq_of_lt h

/-- A line has at most as many characters as the text, and the text at most as many newlines: while
the text is short, one more of either still fits. -/
theorem Follows.next (h : p.Follows text) {c : Char}
    (hshort : (text ++ [c]).length < UInt32.size - 1) : (p.next c).Follows (text ++ [c]) := by
  rw [List.length_append, List.length_singleton] at hshort
  unfold Position.next
  split
  · next hc =>
    subst hc
    have hcount : text.count '\n' ≤ text.length := List.count_le_length
    have hfits : (p.line : Nat) + 1 < UInt32.size := by
      rw [h.line]
      omega
    constructor
    · rw [toNat_add_one hfits, h.line, List.count_append, List.count_singleton_self, Nat.add_assoc]
    · rw [lastLine_concat_newline]
      rfl
  · next hc =>
    have hlength := length_lastLine_le text
    have hfits : (p.column : Nat) + 1 < UInt32.size := by
      rw [h.column]
      omega
    have hnewline : '\n' ∉ [c] := fun hmem => hc (List.mem_singleton.1 hmem).symm
    constructor
    · rw [List.count_append, List.count_eq_zero_of_not_mem hnewline]
      exact h.line
    · rw [toNat_add_one hfits, h.column, lastLine_append text hnewline, List.length_append,
        List.length_singleton, Nat.add_assoc]

/-- On the way to an offset the characters that begin in front of it are passed. -/
theorem Follows.advance (h : p.Follows text) {cs : List Char}
    (hshort : (text ++ cs).length < UInt32.size - 1) (bytes : Nat) :
    (p.advance cs bytes).Follows (text ++ beginningIn cs bytes) := by
  induction cs generalizing p text bytes with
  | nil => rwa [Position.advance, beginningIn, List.append_nil]
  | cons c rest ih =>
    rw [Position.advance, beginningIn]
    split
    · rwa [List.append_nil]
    · rw [List.append_cons] at hshort ⊢
      refine ih (h.next ?_) hshort _
      exact Nat.lt_of_le_of_lt (List.prefix_append _ _).length_le hshort

theorem ofOffset_follows {source : String} (hshort : source.length < UInt32.size - 1)
    (offset : Nat) : (ofOffset source offset).Follows (beginningIn source.toList offset) :=
  first_follows.advance (String.length_toList.symm ▸ hshort) offset

/-- What is behind more text is later: a newline in it begins a later line, and without one its
characters take columns of the same line. -/
theorem Follows.lt {more : List Char} (hp : p.Follows text) (hq : q.Follows (text ++ more))
    (hmore : more ≠ []) : p < q := by
  rw [lt_iff, hp.line, hp.column, hq.line, hq.column, List.count_append]
  by_cases hnewline : '\n' ∈ more
  · have hcount := List.count_pos_iff.2 hnewline
    exact .inl (by omega)
  · have hlength := List.length_pos_of_ne_nil hmore
    refine .inr ⟨by rw [List.count_eq_zero_of_not_mem hnewline, Nat.add_zero], ?_⟩
    rw [lastLine_append text hnewline, List.length_append]
    omega

theorem Follows.unique (hp : p.Follows text) (hq : q.Follows text) : p = q :=
  eq_of_counts (hp.line.trans hq.line.symm) (hp.column.trans hq.column.symm)

/-! ## Offsets and spans of a source -/

variable {source : String}

theorem ofOffset_mono (hshort : source.length < UInt32.size - 1) {a b : Nat} (h : a ≤ b) :
    ofOffset source a ≤ ofOffset source b := by
  obtain ⟨more, heq⟩ := beginningIn_prefix_of_le source.toList h
  have ha := ofOffset_follows hshort a
  have hb := heq ▸ ofOffset_follows hshort b
  by_cases hmore : more = []
  · rw [hmore, List.append_nil] at hb
    exact (ha.unique hb).le
  · exact (ha.lt hb hmore).le

theorem ofOffset_lt (hshort : source.length < UInt32.size - 1) {a b : Nat}
    (ha : IsBoundary source a) (hb : IsBoundary source b) (h : a < b) :
    ofOffset source a < ofOffset source b := by
  obtain ⟨more, heq⟩ := beginningIn_prefix_of_le source.toList h.le
  have hmore : more ≠ [] := by
    rintro rfl
    rw [List.append_nil] at heq
    exact h.ne (by rw [← ha.utf8Length_beginningIn, heq, hb.utf8Length_beginningIn])
  exact (ofOffset_follows hshort a).lt (heq ▸ ofOffset_follows hshort b) hmore

/-- In a source of fewer than `2 ^ 32 - 1` characters the position of an offset between characters
is one more than the newlines in front of it, and one more than the characters behind the last of
them. So different offsets have different positions, in the same order, and no span ends before it
starts. -/
theorem ofOffset_exact (source : String) (hshort : source.length < UInt32.size - 1) :
    (∀ offset, IsBoundary source offset → ∃ before after, source.toList = before ++ after ∧
      offset = utf8Length before ∧
      ((ofOffset source offset).line : Nat) = 1 + before.count '\n' ∧
      ((ofOffset source offset).column : Nat) = 1 + (lastLine before).length) ∧
    Set.InjOn (ofOffset source) {offset | IsBoundary source offset} ∧
    StrictMonoOn (ofOffset source) {offset | IsBoundary source offset} ∧
    ∀ span : Span, span.start ≤ span.stop →
      (Location.ofSpan source span).start ≤ (Location.ofSpan source span).stop := by
  have hlt : StrictMonoOn (ofOffset source) {offset | IsBoundary source offset} :=
    fun _ ha _ hb h => ofOffset_lt hshort ha hb h
  refine ⟨fun offset hoffset => ?_, hlt.injOn, hlt, fun span hspan => ofOffset_mono hshort hspan⟩
  obtain ⟨after, hsource⟩ := beginningIn_prefix source.toList offset
  have hfollows := ofOffset_follows hshort offset
  have hlength := hoffset.utf8Length_beginningIn
  exact ⟨_, after, hsource.symm, hlength.symm, hfollows.line, hfollows.column⟩

/-- Two lines, with characters of two bytes in the second one. -/
def sampleLines : String := "Stage\n  Gr\u00f6\u00dfe"

/-- The second line begins at offset 6, and its last character at offset 14. -/
theorem ofOffset_exact_sample :
    sampleLines.length < UInt32.size - 1 ∧ IsBoundary sampleLines 6 ∧ IsBoundary sampleLines 14 ∧
      (∃ before after, sampleLines.toList = before ++ after ∧ 14 = utf8Length before ∧
        ((ofOffset sampleLines 14).line : Nat) = 1 + before.count '\n' ∧
        ((ofOffset sampleLines 14).column : Nat) = 1 + (lastLine before).length) ∧
      ofOffset sampleLines 6 ≠ ofOffset sampleLines 14 ∧
      ofOffset sampleLines 6 < ofOffset sampleLines 14 ∧
      (Location.ofSpan sampleLines ⟨6, 14⟩).start ≤ (Location.ofSpan sampleLines ⟨6, 14⟩).stop := by
  have hshort : sampleLines.length < UInt32.size - 1 := by decide
  have hstart : IsBoundary sampleLines 6 :=
    isBoundary_iff.2 ⟨"Stage\n".toList, "  Gr\u00f6\u00dfe".toList, by decide, by decide⟩
  have hlast : IsBoundary sampleLines 14 :=
    isBoundary_iff.2 ⟨"Stage\n  Gr\u00f6\u00df".toList, ['e'], by decide, by decide⟩
  obtain ⟨hexact, hinj, hmono, hspans⟩ := ofOffset_exact sampleLines hshort
  have hne : ofOffset sampleLines 6 ≠ ofOffset sampleLines 14 := fun heq =>
    absurd (hinj hstart hlast heq) (by decide)
  exact ⟨hshort, hstart, hlast, hexact 14 hlast, hne, hmono hstart hlast (by decide),
    hspans ⟨6, 14⟩ (by decide)⟩

example : ofOffset sampleLines 14 = ⟨2, 7⟩ := by decide

end Position
end KeywordScope
