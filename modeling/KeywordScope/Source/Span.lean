/-!
# Spans

* `Span`: a range of UTF-8 bytes of a source text, its end excluded.
* `utf8Length`: how many bytes a run of characters takes.
-/

namespace KeywordScope

/-- The number of bytes that the characters take in UTF-8. -/
def utf8Length : List Char → Nat
  | [] => 0
  | c :: cs => c.utf8Size + utf8Length cs

@[simp]
theorem utf8Length_nil : utf8Length [] = 0 := rfl

@[simp]
theorem utf8Length_cons (c : Char) (cs : List Char) :
    utf8Length (c :: cs) = c.utf8Size + utf8Length cs := rfl

@[simp]
theorem utf8Length_append (a b : List Char) :
    utf8Length (a ++ b) = utf8Length a + utf8Length b := by
  induction a with
  | nil => simp
  | cons c a ih => simp [ih, Nat.add_assoc]

/-- A range of bytes of a source text, from `start` up to, and without, `stop`. -/
structure Span where
  start : Nat
  stop : Nat
  deriving DecidableEq, Repr, Inhabited

namespace Span

/-- The smallest span that covers both. -/
def merge (a b : Span) : Span :=
  ⟨min a.start b.start, max a.stop b.stop⟩

/-- The number of bytes covered; a span that ends before it starts covers none. -/
def length (s : Span) : Nat :=
  s.stop - s.start

/-- No byte is covered. -/
def isEmpty (s : Span) : Bool :=
  s.stop ≤ s.start

/-- The span moved to the right. -/
def shift (s : Span) (bytes : Nat) : Span :=
  ⟨s.start + bytes, s.stop + bytes⟩

theorem isEmpty_iff (s : Span) : s.isEmpty = true ↔ s.length = 0 := by
  simp only [isEmpty, length, decide_eq_true_eq]
  omega

end Span

end KeywordScope
