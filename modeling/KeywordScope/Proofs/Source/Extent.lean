import KeywordScope.Source.Span

/-!
# Spans in a source

* `Span.Covers source span text`: the span is that of an occurrence of the text in the source.
* `Span.Encloses`, `Span.Before`, `Span.Joins`: how spans lie to one another.
* `Row low spans high`: spans in order from `low` to `high`, none of which overlap.
* `endOf start spans`: where a row of spans ends.
-/

namespace KeywordScope

namespace Span

/-- The text stands in the source where the span says: what is before it takes as many bytes as the
start of the span says, and with the text as many as the end of the span says. Both ends are places
between characters. -/
def Covers (source : List Char) (span : Span) (text : List Char) : Prop :=
  ∃ before after, source = before ++ text ++ after ∧ span.start = utf8Length before ∧
    span.stop = utf8Length (before ++ text)

/-- The second span lies inside the first. -/
def Encloses (outer inner : Span) : Prop :=
  outer.start ≤ inner.start ∧ inner.stop ≤ outer.stop

/-- The first span stops where the second starts, or earlier. -/
def Before (first second : Span) : Prop :=
  first.stop ≤ second.start

/-- The span goes from the start of the first part to the end of the last one. -/
def Joins (span : Span) (parts : List Span) : Prop :=
  parts.head?.map Span.start = some span.start ∧ parts.getLast?.map Span.stop = some span.stop

theorem Covers.bounds {source text : List Char} {span : Span} (h : span.Covers source text) :
    span.start ≤ span.stop ∧ span.stop ≤ utf8Length source := by
  obtain ⟨before, after, rfl, hstart, hstop⟩ := h
  simp only [utf8Length_append] at hstop ⊢
  omega

theorem Covers.stop_eq {source text : List Char} {span : Span} (h : span.Covers source text) :
    span.stop = span.start + utf8Length text := by
  obtain ⟨before, after, -, hstart, hstop⟩ := h
  rw [hstop, hstart, utf8Length_append]

theorem Encloses.refl (span : Span) : span.Encloses span :=
  ⟨Nat.le_refl _, Nat.le_refl _⟩

theorem Encloses.trans {a b c : Span} (h : a.Encloses b) (h' : b.Encloses c) : a.Encloses c :=
  ⟨Nat.le_trans h.1 h'.1, Nat.le_trans h'.2 h.2⟩

end Span

/-- The spans lie one after the other between `low` and `high`. -/
def Row (low : Nat) : List Span → Nat → Prop
  | [], high => low ≤ high
  | span :: spans, high => low ≤ span.start ∧ span.start ≤ span.stop ∧ Row span.stop spans high

namespace Row

variable {low high : Nat} {spans : List Span}

theorem le (h : Row low spans high) : low ≤ high := by
  induction spans generalizing low with
  | nil => exact h
  | cons span spans ih =>
    obtain ⟨hlow, hspan, hmore⟩ := h
    have := ih hmore
    omega

theorem mono {low' high' : Nat} (h : Row low spans high) (hlow : low' ≤ low)
    (hhigh : high ≤ high') : Row low' spans high' := by
  induction spans generalizing low low' with
  | nil => exact Nat.le_trans hlow (Nat.le_trans h hhigh)
  | cons span spans ih =>
    obtain ⟨hspan, hspan', hmore⟩ := h
    exact ⟨Nat.le_trans hlow hspan, hspan', ih hmore (Nat.le_refl _)⟩

theorem encloses (h : Row low spans high) {span : Span} (hs : span ∈ spans) :
    Span.Encloses ⟨low, high⟩ span := by
  induction spans generalizing low with
  | nil => cases hs
  | cons first spans ih =>
    obtain ⟨hlow, hfirst, hmore⟩ := h
    rcases List.mem_cons.1 hs with rfl | hs
    · exact ⟨hlow, hmore.le⟩
    · obtain ⟨hstart, hstop⟩ := ih hmore hs
      exact ⟨Nat.le_trans hlow (Nat.le_trans hfirst hstart), hstop⟩

theorem pairwise (h : Row low spans high) : spans.Pairwise Span.Before := by
  induction spans generalizing low with
  | nil => exact .nil
  | cons span spans ih =>
    obtain ⟨-, -, hmore⟩ := h
    exact .cons (fun other ho => (hmore.encloses ho).1) (ih hmore)

end Row

/-- Where the last of the spans stops, or the start if there is none. -/
def endOf (start : Nat) : List Span → Nat
  | [] => start
  | span :: spans => endOf span.stop spans

theorem getLast?_stop (first : Span) (more : List Span) :
    (first :: more).getLast?.map Span.stop = some (endOf first.stop more) := by
  induction more generalizing first with
  | nil => rfl
  | cons second more ih => exact ih second

/-- A span that begins with the first of several spans, and ends with the last of them. -/
theorem Span.joins_cons {span first : Span} {more : List Span} (hstart : first.start = span.start)
    (hstop : endOf first.stop more = span.stop) : span.Joins (first :: more) :=
  ⟨congrArg some hstart, by rw [getLast?_stop, hstop]⟩

end KeywordScope
