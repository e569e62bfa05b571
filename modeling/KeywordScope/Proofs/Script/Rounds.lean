import KeywordScope.Proofs.Script.Passage

/-!
# Rounds

The loops of the parser go on in rounds, each of which takes at least one character. So a guard
that stops a repetition after a round that took nothing is never met.

* `repeated size round`: rounds one after the other, with that guard.
* `Progresses size round`: each round takes something. `Repeats size round f`: what is more, the
  rounds lead to what `f` answers.
* `repeats_skipInline`, `repeats_skipSeparators`: the gaps in rounds.
* `Quoted.repeated_double`, `Quoted.repeated_single`, `Group.repeated_group`: what stands in quotes
  and in groups.
* `repeats_elements`, `repeats_stages`, `repeats_statements`: the loops of the readers.
* `InRounds`: all of these.
-/

namespace KeywordScope
namespace Script

variable {ε α : Type}

/-! ## Repetitions -/

/-- Why a repetition does not come to its end. -/
inductive Stop (ε : Type) where
  /-- A round failed. -/
  | failed (failure : ε)
  /-- A round took nothing, so that there would be no end of rounds. -/
  | stalled

/-- Rounds one after the other, until there is no further one. -/
def repeated (size : α → Nat) (round : α → Option (Except ε α)) (a : α) : Except (Stop ε) α :=
  match round a with
  | none => .ok a
  | some (.error failure) => .error (.failed failure)
  | some (.ok b) => if size b < size a then repeated size round b else .error .stalled
termination_by size a

/-- Each round takes something. -/
def Progresses (size : α → Nat) (round : α → Option (Except ε α)) : Prop :=
  ∀ a b, round a = some (.ok b) → size b < size a

/-- Each round takes something, and all of them together do what `f` does. -/
structure Repeats (size : α → Nat) (round : α → Option (Except ε α)) (f : α → Except ε α) :
    Prop where
  progresses : Progresses size round
  repeated_eq : ∀ a, repeated size round a = (f a).mapError Stop.failed

section Repeated

variable {size : α → Nat} {round : α → Option (Except ε α)} {a b : α}

theorem repeated_stop (h : round a = none) : repeated size round a = .ok a := by
  rw [repeated, h]

theorem repeated_step (hround : Progresses size round) (h : round a = some (.ok b)) :
    repeated size round a = repeated size round b := by
  rw [repeated, h]
  exact if_pos (hround a b h)

/-- Rounds that take something do not stall. -/
theorem Progresses.repeated_ne_stalled (hround : Progresses size round) (a : α) :
    repeated size round a ≠ .error .stalled := by
  fun_induction repeated size round a with
  | case1 => exact nofun
  | case2 => exact nofun
  | case3 _ _ _ _ ih => exact ih
  | case4 a b h hstall => exact absurd (hround a b h) hstall

/-- The rounds do what `f` does, if `f` can put off what it does to after a round. -/
theorem Repeats.of_rounds {f : α → Except ε α} (hround : Progresses size round)
    (hstop : ∀ a, round a = none → f a = .ok a)
    (hfail : ∀ a failure, round a = some (.error failure) → f a = .error failure)
    (hstep : ∀ a b, round a = some (.ok b) → f a = f b) : Repeats size round f := by
  refine ⟨hround, fun a => ?_⟩
  fun_induction repeated size round a with
  | case1 a h => rw [hstop a h]; rfl
  | case2 a failure h => rw [hfail a failure h]; rfl
  | case3 a b h _ ih => rw [hstep a b h]; exact ih
  | case4 a b h hstall => exact absurd (hround a b h) hstall

end Repeated

/-- What is left of the source. -/
def Cursor.size (c : Cursor) : Nat :=
  c.rest.length

theorem splitRun?_all {p : Char → Bool} {cs taken rest : List Char}
    (h : Atom.splitRun? p cs = some (taken, rest)) : ∀ x ∈ taken, p x = true := by
  unfold Atom.splitRun? at h
  split at h
  · split at h
    · next hx =>
      cases h
      intro y hy
      rcases List.mem_cons.1 hy with rfl | hy
      · exact hx
      · exact List.all_eq_true.1 List.all_takeWhile y hy
    · cases h
  · cases h

/-- A run ends in front of a character that is not of its class. -/
theorem splitRun?_head {p : Char → Bool} {cs taken rest : List Char}
    (h : Atom.splitRun? p cs = some (taken, rest)) : ∀ x ∈ rest.head?, p x = false := by
  unfold Atom.splitRun? at h
  split at h
  · split at h
    · next x more _ =>
      cases h
      have hhead := List.head?_dropWhile_not p more
      intro y hy
      rwa [hy] at hhead
    · cases h
  · cases h

/-! ## Gaps -/

theorem Cursor.seek_seek {c : Cursor} {rest more : List Char} (h : rest <:+ c.rest)
    (hmore : more <:+ rest) : (c.seek rest).seek more = c.seek more := by
  obtain ⟨taken, htaken⟩ := h
  obtain ⟨between, hbetween⟩ := hmore
  have hpasses := (passes_seek htaken.symm).trans (passes_seek (c := c.seek rest) hbetween.symm)
  have hall := passes_seek hpasses.rest_eq
  rw [seek_rest] at hall
  rw [Cursor.mk.injEq]
  exact ⟨hpasses.offset_eq.trans hall.offset_eq.symm, rfl⟩

namespace Cursor

/-- A blank within a statement. -/
def isInlineBlank (x : Char) : Bool :=
  x == ' ' || x == '\t' || x == '\r'

/-- One round of a gap within a statement: a run of blanks, or the end of a line that is continued
behind it. -/
def inlineRound (c : Cursor) : Option (Except Failure Cursor) :=
  match Atom.splitRun? isInlineBlank c.rest with
  | some (_, rest) => some (.ok (c.seek rest))
  | none =>
    match c.rest with
    | '\x60' :: '\r' :: '\n' :: rest => some (.ok (c.seek rest))
    | '\x60' :: '\n' :: rest => some (.ok (c.seek rest))
    | _ => none

/-- A blank between statements. -/
def isLineBlank (x : Char) : Bool :=
  x == ' ' || x == '\t' || x == '\r' || x == '\n'

/-- One round of a gap between statements: a run of blanks, a semicolon or a comment. -/
def separatorRound (c : Cursor) : Option (Except Failure Cursor) :=
  match Atom.splitRun? isLineBlank c.rest with
  | some (_, rest) => some (.ok (c.seek rest))
  | none =>
    match c.rest with
    | ';' :: rest => some (.ok (c.seek rest))
    | '#' :: rest => some (.ok (c.seek (rest.dropWhile (· ≠ '\n'))))
    | _ => none

theorem seek_append (taken : List Char) {c : Cursor} {rest : List Char}
    (h : c.rest = taken ++ rest) : c.seek rest = ⟨c.offset + utf8Length taken, rest⟩ := by
  rw [Cursor.mk.injEq]
  exact ⟨(passes_seek h).offset_eq, rfl⟩

theorem size_seek_lt (taken : List Char) {c : Cursor} {rest : List Char}
    (h : taken ++ rest = c.rest) (hne : taken ≠ []) : (c.seek rest).size < c.size := by
  have hpos := List.length_pos_iff.2 hne
  rw [size, size, ← h, seek_rest, List.length_append]
  omega

/-- What skips single characters of a class skips runs of them. -/
theorem skip_run {β : Type} {p : Char → Bool} {f : Cursor → β}
    (hf : ∀ (c : Cursor) x rest, p x = true → c.rest = x :: rest → f (c.seek rest) = f c)
    {c : Cursor} {taken rest : List Char} (h : Atom.splitRun? p c.rest = some (taken, rest)) :
    f (c.seek rest) = f c := by
  obtain ⟨-, htaken⟩ := Atom.splitRun?_eq h
  have hall := splitRun?_all h
  clear h
  induction taken generalizing c with
  | nil =>
    rw [seek_append [] htaken.symm, utf8Length_nil, Nat.add_zero]
    exact congrArg f (congrArg (Cursor.mk c.offset) htaken)
  | cons x taken ih =>
    have hrest : c.rest = x :: (taken ++ rest) := htaken.symm
    have hx := hf c x _ (hall x List.mem_cons_self) hrest
    have hmore := ih (c := c.seek (taken ++ rest)) rfl fun y hy =>
      hall y (List.mem_cons_of_mem _ hy)
    rw [seek_seek (hrest ▸ List.suffix_cons _ _) (List.suffix_append _ _)] at hmore
    exact hmore.trans hx

theorem skipInline_cons (c : Cursor) (x : Char) (rest : List Char) (hx : isInlineBlank x = true)
    (h : c.rest = x :: rest) : (c.seek rest).skipInline = c.skipInline := by
  rw [seek_append [x] h]
  obtain ⟨offset, cs⟩ := c
  obtain rfl : cs = x :: rest := h
  simp only [isInlineBlank, Bool.or_eq_true, beq_iff_eq] at hx
  obtain (rfl | rfl) | rfl := hx <;> rfl

theorem progresses_inlineRound : Progresses size inlineRound := by
  intro c d h
  unfold inlineRound at h
  split at h
  · next hrun =>
    cases h
    exact size_seek_lt _ (Atom.splitRun?_eq hrun).2 (Atom.splitRun?_eq hrun).1
  split at h
  · next hrest =>
    cases h
    exact size_seek_lt ['\x60', '\r', '\n'] hrest.symm (List.cons_ne_nil _ _)
  · next hrest =>
    cases h
    exact size_seek_lt ['\x60', '\n'] hrest.symm (List.cons_ne_nil _ _)
  · cases h

/-- A gap within a statement is skipped in rounds. -/
theorem repeats_skipInline : Repeats size inlineRound fun c => .ok c.skipInline := by
  refine .of_rounds progresses_inlineRound ?_ ?_ ?_
  · rintro ⟨offset, cs⟩ h
    unfold inlineRound at h
    show Except.ok (skipInline.go offset cs) = _
    unfold skipInline.go
    split <;> simp_all [Atom.splitRun?, isInlineBlank]
  · intro c failure h
    unfold inlineRound at h
    split at h
    · cases h
    · split at h <;> cases h
  · intro c d h
    unfold inlineRound at h
    split at h
    · next hrun =>
      cases h
      rw [skip_run skipInline_cons hrun]
    obtain ⟨offset, cs⟩ := c
    dsimp only at h
    split at h
    · cases h
      rw [seek_append ['\x60', '\r', '\n'] rfl]
      rfl
    · cases h
      rw [seek_append ['\x60', '\n'] rfl]
      rfl
    · cases h

theorem skipSeparators_cons (c : Cursor) (x : Char) (rest : List Char) (hx : isLineBlank x = true)
    (h : c.rest = x :: rest) : (c.seek rest).skipSeparators = c.skipSeparators := by
  rw [seek_append [x] h]
  obtain ⟨offset, cs⟩ := c
  obtain rfl : cs = x :: rest := h
  simp only [isLineBlank, Bool.or_eq_true, beq_iff_eq] at hx
  obtain ((rfl | rfl) | rfl) | rfl := hx <;> rfl

/-- A comment goes to the end of its line. -/
theorem skipSeparators_comment (offset : Nat) (cs : List Char) :
    skipSeparators.comment offset cs =
      skipSeparators.go (offset + utf8Length (cs.takeWhile (· ≠ '\n'))) (cs.dropWhile (· ≠ '\n')) := by
  induction cs generalizing offset with
  | nil => rfl
  | cons x cs ih =>
    by_cases hx : x = '\n'
    · subst hx
      rfl
    · rw [skipSeparators.comment, ih, List.takeWhile_cons_of_pos (by simpa using hx),
        List.dropWhile_cons_of_pos (by simpa using hx), utf8Length_cons, Nat.add_assoc]
      exact hx

theorem progresses_separatorRound : Progresses size separatorRound := by
  intro c d h
  unfold separatorRound at h
  split at h
  · next hrun =>
    cases h
    exact size_seek_lt _ (Atom.splitRun?_eq hrun).2 (Atom.splitRun?_eq hrun).1
  split at h
  · next hrest =>
    cases h
    exact size_seek_lt [';'] hrest.symm (List.cons_ne_nil _ _)
  · next rest hrest =>
    cases h
    refine size_seek_lt ('#' :: rest.takeWhile (· ≠ '\n')) ?_ (List.cons_ne_nil _ _)
    rw [List.cons_append, List.takeWhile_append_dropWhile, hrest]
  · cases h

/-- A gap between statements is skipped in rounds. -/
theorem repeats_skipSeparators : Repeats size separatorRound fun c => .ok c.skipSeparators := by
  refine .of_rounds progresses_separatorRound ?_ ?_ ?_
  · rintro ⟨offset, cs⟩ h
    unfold separatorRound at h
    show Except.ok (skipSeparators.go offset cs) = _
    unfold skipSeparators.go
    split <;> simp_all [Atom.splitRun?, isLineBlank]
  · intro c failure h
    unfold separatorRound at h
    split at h
    · cases h
    · split at h <;> cases h
  · intro c d h
    unfold separatorRound at h
    split at h
    · next hrun =>
      cases h
      rw [skip_run skipSeparators_cons hrun]
    obtain ⟨offset, cs⟩ := c
    dsimp only at h
    split at h
    · cases h
      rw [seek_append [';'] rfl]
      rfl
    · next rest _ =>
      cases h
      have hcomment : '#' :: rest = '#' :: rest.takeWhile (· ≠ '\n') ++ rest.dropWhile (· ≠ '\n') := by
        rw [List.cons_append, List.takeWhile_append_dropWhile]
      rw [seek_append _ (c := ⟨offset, '#' :: rest⟩) hcomment, utf8Length_cons, ← Nat.add_assoc]
      exact congrArg Except.ok (skipSeparators_comment (offset + 1) rest)
    · cases h

end Cursor

/-! ## Strings -/

namespace Quoted

/-- The value of a string so far, and what is left of the source. -/
abbrev Held := List Char × List Char

/-- What is left of the source. -/
def Held.size (held : Held) : Nat :=
  held.2.length

/-- One character in double quotes. -/
def doubleRound : Held → Option (Except Failure Held)
  | (value, '\x22' :: '\x22' :: rest) => some (.ok (value ++ ['\x22'], rest))
  | (_, '\x22' :: _) => none
  | (value, '\x60' :: c :: rest) => some (.ok (value ++ [escape c], rest))
  | (_, ['\x60']) => none
  | (value, c :: rest) => some (.ok (value ++ [c], rest))
  | (_, []) => none

/-- One character in single quotes. -/
def singleRound : Held → Option (Except Failure Held)
  | (value, '\x27' :: '\x27' :: rest) => some (.ok (value ++ ['\x27'], rest))
  | (_, '\x27' :: _) => none
  | (value, c :: rest) => some (.ok (value ++ [c], rest))
  | (_, []) => none

/-- The value of a string, if its quote comes next, and what follows the quote. -/
def closed? (quote : Char) : Held → Option Held
  | (value, c :: rest) => if c = quote then some (value, rest) else none
  | (_, []) => none

theorem progresses_doubleRound : Progresses Held.size doubleRound := by
  intro state held h
  unfold doubleRound at h
  split at h <;> cases h
  all_goals
    simp only [Held.size, List.length_cons]
    omega

theorem progresses_singleRound : Progresses Held.size singleRound := by
  intro state held h
  unfold singleRound at h
  split at h <;> cases h
  all_goals
    simp only [Held.size, List.length_cons]
    omega

/-- What a string has more of after a round. -/
private theorem closed?_step {round : Held → Option (Except Failure Held)} {quote x : Char}
    {value cs rest : List Char} {read : Option Held} (hround : Progresses Held.size round)
    (h : round (value, cs) = some (.ok (value ++ [x], rest)))
    (ih : ∃ held, repeated Held.size round (value ++ [x], rest) = .ok held ∧
      closed? quote held = read.map fun read => (value ++ [x] ++ read.1, read.2)) :
    ∃ held, repeated Held.size round (value, cs) = .ok held ∧
      closed? quote held =
        (read.map fun (value, rest) => (x :: value, rest)).map fun read =>
          (value ++ read.1, read.2) := by
  obtain ⟨held, hrun, hclosed⟩ := ih
  refine ⟨held, (repeated_step hround h).trans hrun, hclosed.trans ?_⟩
  cases read <;> simp

/-- What stands in double quotes is read in rounds, up to the quote. -/
theorem repeated_double (value cs : List Char) :
    ∃ held, repeated Held.size doubleRound (value, cs) = .ok held ∧
      closed? '\x22' held = (readDouble? cs).map fun read => (value ++ read.1, read.2) := by
  fun_induction readDouble? cs generalizing value with
  | case1 => exact ⟨_, repeated_stop rfl, rfl⟩
  | case2 rest ih => exact closed?_step progresses_doubleRound rfl (ih _)
  | case3 rest hrest =>
    have hstop : doubleRound (value, '\x22' :: rest) = none := by
      unfold doubleRound
      split <;> grind
    exact ⟨_, repeated_stop hstop, by simp [closed?]⟩
  | case4 c rest ih => exact closed?_step progresses_doubleRound rfl (ih _)
  | case5 => exact ⟨_, repeated_stop rfl, rfl⟩
  | case6 c rest _ hquote hescape hlast ih =>
    have hround : doubleRound (value, c :: rest) = some (.ok (value ++ [c], rest)) := by
      unfold doubleRound
      split <;> simp_all
    exact closed?_step progresses_doubleRound hround (ih _)

/-- What stands in single quotes is read in rounds, up to the quote. -/
theorem repeated_single (value cs : List Char) :
    ∃ held, repeated Held.size singleRound (value, cs) = .ok held ∧
      closed? '\x27' held = (readSingle? cs).map fun read => (value ++ read.1, read.2) := by
  fun_induction readSingle? cs generalizing value with
  | case1 => exact ⟨_, repeated_stop rfl, rfl⟩
  | case2 rest ih => exact closed?_step progresses_singleRound rfl (ih _)
  | case3 rest hrest =>
    have hstop : singleRound (value, '\x27' :: rest) = none := by
      unfold singleRound
      split <;> grind
    exact ⟨_, repeated_stop hstop, by simp [closed?]⟩
  | case4 c rest _ hquote ih =>
    have hround : singleRound (value, c :: rest) = some (.ok (value ++ [c], rest)) := by
      unfold singleRound
      split <;> simp_all
    exact closed?_step progresses_singleRound hround (ih _)

end Quoted

/-! ## Groups -/

namespace Group

/-- A character that neither opens nor closes anything. -/
def isPlain (x : Char) : Bool :=
  !isCloser x && (closer? x).isNone && x != '\x22' && x != '\x27'

/-- One round within a group: a run of plain characters, a string, a group within it, or a quote
without a partner. -/
def groupRound (c : Cursor) : Option (Except Failure Cursor) :=
  match Atom.splitRun? isPlain c.rest with
  | some (_, rest) => some (.ok (c.seek rest))
  | none =>
    match c.rest with
    | [] => none
    | x :: rest =>
      match Quoted.read? (x :: rest) with
      | some (_, rest') => some (.ok (c.seek rest'))
      | none =>
        match closer? x with
        | some inner => some (close inner [] (c.seek rest))
        | none => if isCloser x then none else some (.ok (c.seek rest))

/-- A group ends where its rounds end, if its delimiter comes next. -/
def closed (inner : Char) (outer : List Char) (c : Cursor) : Except Failure Cursor :=
  match c.rest with
  | [] => .error ⟨c, some .unclosedGroup⟩
  | x :: rest =>
    if x = inner then
      match outer with
      | [] => .ok (c.seek rest)
      | next :: outer => close next outer (c.seek rest)
    else .error ⟨c, some .unclosedGroup⟩

theorem progresses_groupRound : Progresses Cursor.size groupRound := by
  intro c d h
  unfold groupRound at h
  split at h
  · next hrun =>
    cases h
    exact Cursor.size_seek_lt _ (Atom.splitRun?_eq hrun).2 (Atom.splitRun?_eq hrun).1
  split at h
  · cases h
  next x rest hrest =>
  have hlt : (c.seek rest).size < c.size :=
    Cursor.size_seek_lt [x] hrest.symm (List.cons_ne_nil _ _)
  split at h
  · next hstring =>
    cases h
    have hshorter := Quoted.read?_shorter hstring
    rw [← hrest] at hshorter
    exact hshorter
  split at h
  · next inner _ =>
    have hclose := close_shorter (Option.some.inj h)
    exact Nat.lt_trans hclose hlt
  split at h
  · cases h
  · cases h
    exact hlt

/-- The first step towards the end of a group. -/
theorem close_eq (inner : Char) (outer : List Char) (c : Cursor) :
    close inner outer c =
      match c.rest with
      | [] => .error ⟨c, some .unclosedGroup⟩
      | x :: rest =>
        if isCloser x then closed inner outer c
        else
          match closer? x, Quoted.read? (x :: rest) with
          | some inner', _ => close inner' (inner :: outer) (c.seek rest)
          | none, some (_, rest') => close inner outer (c.seek rest')
          | none, none => close inner outer (c.seek rest) := by
  rw [close, closed]
  split
  · next hrest => simp only [hrest]
  · next x rest hrest =>
    simp only [hrest]
    split
    · rfl
    · split
      · next h => simp only [h]
      · next h =>
        simp only [h]
        split
        · next h' => simp only [h']
        · next h' => simp only [h']

/-- Groups in groups are closed one after the other. -/
theorem close_append (inner : Char) (outer : List Char) (next : Char) (more : List Char)
    (c : Cursor) :
    close inner (outer ++ next :: more) c = close inner outer c >>= close next more := by
  fun_induction close inner outer c with
  | case1 inner outer c hrest =>
    rw [close_eq]
    simp only [hrest]
    rfl
  | case2 c x rest hrest hcloser =>
    rw [close_eq]
    simp only [hrest, hcloser, if_true, closed, List.nil_append]
    rfl
  | case3 c x rest hrest hcloser next outer ih =>
    rw [close_eq]
    simp only [hrest, hcloser, if_true, closed, List.cons_append]
    exact ih
  | case4 inner outer c x rest hrest hcloser hother =>
    rw [close_eq]
    simp only [hrest, hcloser, if_true, closed, hother, if_false]
    rfl
  | case5 inner outer c x rest hrest hcloser inner' hopener ih =>
    rw [close_eq]
    simp only [hrest, hcloser, hopener]
    exact ih
  | case6 inner outer c x rest hrest hcloser hopener value rest' hs _ ih =>
    rw [close_eq]
    simp only [hrest, hcloser, hopener, hs]
    exact ih
  | case7 inner outer c x rest hrest hcloser hopener hs ih =>
    rw [close_eq]
    simp only [hrest, hcloser, hopener, hs]
    exact ih

theorem close_cons (inner : Char) (outer : List Char) (c : Cursor) (x : Char) (rest : List Char)
    (hx : isPlain x = true) (hrest : c.rest = x :: rest) :
    close inner outer (c.seek rest) = close inner outer c := by
  simp only [isPlain, Bool.and_eq_true, Bool.not_eq_true', Option.isNone_iff_eq_none, bne_iff_ne] at hx
  obtain ⟨⟨⟨hcloser, hopener⟩, hdouble⟩, hsingle⟩ := hx
  have hs : Quoted.read? (x :: rest) = none := by
    unfold Quoted.read?
    split <;> simp_all
  rw [close_eq inner outer c]
  simp only [hrest, hcloser, hopener, hs]
  rfl

/-- A string begins with a quote. -/
theorem not_delimiter_of_read? {x : Char} {rest : List Char} {read : List Char × List Char}
    (h : Quoted.read? (x :: rest) = some read) : isCloser x = false ∧ closer? x = none := by
  unfold Quoted.read? at h
  split at h
  · next hx =>
    obtain ⟨rfl, -⟩ := List.cons.inj hx
    exact ⟨rfl, rfl⟩
  · next hx =>
    obtain ⟨rfl, -⟩ := List.cons.inj hx
    exact ⟨rfl, rfl⟩
  · cases h

theorem not_closer_of_closer? {x inner : Char} (h : closer? x = some inner) :
    isCloser x = false := by
  unfold closer? at h
  split at h
  · rfl
  · rfl
  · rfl
  · cases h

/-- What is to be done in a group once no run of plain characters comes next. -/
theorem close_of_round {inner : Char} {outer : List Char} {c : Cursor} {x : Char}
    {rest : List Char} (hrest : c.rest = x :: rest) :
    close inner outer c =
      match Quoted.read? (x :: rest) with
      | some (_, rest') => close inner outer (c.seek rest')
      | none =>
        match closer? x with
        | some inner' => close inner' [] (c.seek rest) >>= close inner outer
        | none => if isCloser x then closed inner outer c else close inner outer (c.seek rest) := by
  rw [close_eq]
  simp only [hrest]
  cases hs : Quoted.read? (x :: rest) with
  | some read =>
    obtain ⟨hcloser, hopener⟩ := not_delimiter_of_read? hs
    simp only [hcloser, hopener]
    rfl
  | none =>
    cases hopener : closer? x with
    | some inner' =>
      simp only [not_closer_of_closer? hopener, ← close_append, List.nil_append]
      rfl
    | none => rfl

theorem close_of_stop {inner : Char} {outer : List Char} {c : Cursor} (h : groupRound c = none) :
    close inner outer c = closed inner outer c := by
  unfold groupRound at h
  split at h
  · cases h
  split at h
  · next hrest => rw [close_eq, closed, hrest]
  next x rest hrest =>
  rw [close_of_round hrest]
  split at h
  · cases h
  split at h
  · cases h
  split at h
  · next hcloser => simp only [hcloser, if_true]
  · cases h

theorem close_of_fail {inner : Char} {outer : List Char} {c : Cursor} {failure : Failure}
    (h : groupRound c = some (.error failure)) : close inner outer c = .error failure := by
  unfold groupRound at h
  split at h
  · cases h
  split at h
  · cases h
  next x rest hrest =>
  rw [close_of_round hrest]
  split at h
  · cases h
  split at h
  · simp only [Option.some.inj h]
    rfl
  · split at h <;> cases h

theorem close_of_step {inner : Char} {outer : List Char} {c d : Cursor}
    (h : groupRound c = some (.ok d)) : close inner outer c = close inner outer d := by
  unfold groupRound at h
  split at h
  · next hrun =>
    cases h
    exact (Cursor.skip_run (close_cons inner outer) hrun).symm
  split at h
  · cases h
  next x rest hrest =>
  rw [close_of_round hrest]
  split at h
  · cases h
    rfl
  split at h
  · simp only [Option.some.inj h]
    rfl
  split at h
  · cases h
  · next hcloser =>
    cases h
    simp only [hcloser]
    rfl

/-- What a group holds is skipped in rounds, up to the delimiter that closes it. -/
theorem repeated_group (inner : Char) (outer : List Char) (c : Cursor) :
    ∃ answer, repeated Cursor.size groupRound c = answer.mapError Stop.failed ∧
      close inner outer c = answer >>= closed inner outer := by
  fun_induction repeated Cursor.size groupRound c with
  | case1 c h => exact ⟨.ok c, rfl, close_of_stop h⟩
  | case2 c failure h => exact ⟨.error failure, rfl, close_of_fail h⟩
  | case3 c d h _ ih =>
    rw [close_of_step h]
    exact ih
  | case4 c d h hstall => exact absurd (progresses_groupRound c d h) hstall

end Group

/-! ## Readers -/

/-- One more element of a stage. -/
def elementRound (read : List Element × Cursor) :
    Option (Except Failure (List Element × Cursor)) :=
  let c := read.2.skipInline
  if c.atStageEnd then none
  else
    some <| match readElement c with
      | .ok ⟨element, d, _⟩ => .ok (read.1 ++ [element], d)
      | .error failure => .error failure

/-- One more stage of a pipeline. -/
def stageRound (read : List Stage × Cursor) : Option (Except Failure (List Stage × Cursor)) :=
  (pipe? read.2).map fun c =>
    match readStage c with
    | .ok ⟨stage, d, _⟩ => .ok (read.1 ++ [stage], d)
    | .error failure => .error (failure.within .missingStage)

/-- One more statement of a block. -/
def statementRound (read : List Statement × Cursor) :
    Option (Except Failure (List Statement × Cursor)) :=
  let c := read.2
  if c.rest = [] ∨ c.rest.head? = some '}' then none
  else
    some <| match readStatement c with
      | .ok ⟨statement, d, _⟩ =>
        if d.skipInline.atStatementEnd then
          .ok (read.1 ++ [statement], d.skipInline.skipSeparators)
        else .error ⟨d.skipInline, some .unexpectedToken⟩
      | .error failure => .error failure

/-- What is left of the source. -/
def readSize {β : Type} (read : List β × Cursor) : Nat :=
  read.2.size

/-- A list that is read, behind what is there already. -/
def readBehind {β : Type} {c : Cursor} (before : List β)
    (answer : Except Failure (Reached (List β) c)) : Except Failure (List β × Cursor) :=
  answer.map fun read => (before ++ read.value, read.next)

/-- The elements of a stage are read in rounds. -/
theorem repeats_elements :
    Repeats readSize elementRound fun read => readBehind read.1 (readElements read.2) := by
  have hround : Progresses readSize elementRound := by
    rintro ⟨before, c⟩ ⟨_, d⟩ h
    have hgap := c.skipInline_le
    unfold elementRound at h
    dsimp only at h
    split at h
    · cases h
    split at h
    · next element d shorter _ =>
      cases h
      exact Nat.lt_of_lt_of_le shorter hgap
    · cases h
  refine .of_rounds hround ?_ ?_ ?_
  · rintro ⟨before, c⟩ h
    unfold elementRound at h
    dsimp only at h
    split at h
    · next stop =>
      rw [readElements, if_pos stop]
      simp [readBehind, Except.map]
    · cases h
  · rintro ⟨before, c⟩ failure h
    unfold elementRound at h
    dsimp only at h
    split at h
    · cases h
    next goOn =>
    split at h
    · cases h
    · next hfirst =>
      cases h
      rw [readElements, if_neg goOn]
      simp only [hfirst]
      rfl
  · rintro ⟨before, c⟩ ⟨_, d⟩ h
    unfold elementRound at h
    dsimp only at h
    split at h
    · cases h
    next goOn =>
    split at h
    · next element d' shorter hfirst =>
      cases h
      dsimp only
      rw [readElements, if_neg goOn]
      simp only [hfirst]
      cases readElements d with
      | ok read => simp [readBehind, Except.map]
      | error failure => rfl
    · cases h

/-- The further stages of a pipeline are read in rounds. -/
theorem repeats_stages :
    Repeats readSize stageRound fun read => readBehind read.1 (readStages read.2) := by
  have hround : Progresses readSize stageRound := by
    rintro ⟨before, c⟩ ⟨_, e⟩ h
    obtain ⟨d, goOn, h⟩ := Option.map_eq_some_iff.1 h
    have hpipe := pipe?_shorter goOn
    split at h
    · next stage e shorter _ =>
      cases h
      exact Nat.lt_trans shorter hpipe
    · cases h
  refine .of_rounds hround ?_ ?_ ?_
  · rintro ⟨before, c⟩ h
    have stop : pipe? c = none := Option.map_eq_none_iff.1 h
    dsimp only
    rw [readStages]
    split
    · simp [readBehind, Except.map]
    · next goOn => simp [stop] at goOn
  · rintro ⟨before, c⟩ failure h
    obtain ⟨d, goOn, h⟩ := Option.map_eq_some_iff.1 h
    split at h
    · cases h
    · next hfirst =>
      cases h
      dsimp only
      rw [readStages]
      split
      · next stop => simp [stop] at goOn
      · next goOn' =>
        obtain rfl := Option.some.inj (goOn.symm.trans goOn')
        simp only [hfirst]
        rfl
  · rintro ⟨before, c⟩ ⟨_, e⟩ h
    obtain ⟨d, goOn, h⟩ := Option.map_eq_some_iff.1 h
    split at h
    · next stage e' shorter hfirst =>
      cases h
      dsimp only
      rw [readStages]
      split
      · next stop => simp [stop] at goOn
      · next goOn' =>
        obtain rfl := Option.some.inj (goOn.symm.trans goOn')
        simp only [hfirst]
        cases readStages e with
        | ok read => simp [readBehind, Except.map]
        | error failure => rfl
    · cases h

/-- The statements of a block are read in rounds. -/
theorem repeats_statements :
    Repeats readSize statementRound fun read => readBehind read.1 (readStatements read.2) := by
  have hround : Progresses readSize statementRound := by
    rintro ⟨before, c⟩ ⟨_, e⟩ h
    unfold statementRound at h
    dsimp only at h
    split at h
    · cases h
    split at h
    · next statement d shorter _ =>
      have hgap := d.skipInline_le
      have hgap' := d.skipInline.skipSeparators_le
      split at h
      · cases h
        exact Nat.lt_of_le_of_lt (Nat.le_trans hgap' hgap) shorter
      · cases h
    · cases h
  refine .of_rounds hround ?_ ?_ ?_
  · rintro ⟨before, c⟩ h
    unfold statementRound at h
    dsimp only at h
    split at h
    · next stop =>
      rw [readStatements, if_pos stop]
      simp [readBehind, Except.map]
    · cases h
  · rintro ⟨before, c⟩ failure h
    unfold statementRound at h
    dsimp only at h
    split at h
    · cases h
    next goOn =>
    rw [readStatements, if_neg goOn]
    split at h
    · next hfirst =>
      split at h
      · cases h
      · next noEnd =>
        cases h
        simp only [hfirst, noEnd]
        rfl
    · next hfirst =>
      cases h
      simp only [hfirst]
      rfl
  · rintro ⟨before, c⟩ ⟨_, e⟩ h
    unfold statementRound at h
    dsimp only at h
    split at h
    · cases h
    next goOn =>
    split at h
    · next statement d shorter hfirst =>
      split at h
      · next ends =>
        cases h
        dsimp only
        rw [readStatements, if_neg goOn]
        simp only [hfirst, ends, if_true]
        cases readStatements d.skipInline.skipSeparators with
        | ok read => simp [readBehind, Except.map]
        | error failure => rfl
      · cases h
    · cases h

/-- Every loop of the parser goes on in rounds that take something, so that a repetition of these
rounds never stalls, and does what the loop does. -/
structure InRounds : Prop where
  inlineGaps : Repeats Cursor.size Cursor.inlineRound fun c => .ok c.skipInline
  separators : Repeats Cursor.size Cursor.separatorRound fun c => .ok c.skipSeparators
  /-- What stands in double quotes, and then the quote. -/
  doubleQuotes : Progresses Quoted.Held.size Quoted.doubleRound ∧ ∀ value cs,
    ∃ held, repeated Quoted.Held.size Quoted.doubleRound (value, cs) = .ok held ∧
      Quoted.closed? '\x22' held =
        (Quoted.readDouble? cs).map fun read => (value ++ read.1, read.2)
  /-- What stands in single quotes, and then the quote. -/
  singleQuotes : Progresses Quoted.Held.size Quoted.singleRound ∧ ∀ value cs,
    ∃ held, repeated Quoted.Held.size Quoted.singleRound (value, cs) = .ok held ∧
      Quoted.closed? '\x27' held =
        (Quoted.readSingle? cs).map fun read => (value ++ read.1, read.2)
  /-- What stands in a group, and then its delimiter. -/
  groups : Progresses Cursor.size Group.groupRound ∧ ∀ inner outer c,
    ∃ answer, repeated Cursor.size Group.groupRound c = answer.mapError Stop.failed ∧
      Group.close inner outer c = answer >>= Group.closed inner outer
  elements : Repeats readSize elementRound fun read => readBehind read.1 (readElements read.2)
  stages : Repeats readSize stageRound fun read => readBehind read.1 (readStages read.2)
  statements : Repeats readSize statementRound fun read =>
    readBehind read.1 (readStatements read.2)

theorem inRounds : InRounds where
  inlineGaps := Cursor.repeats_skipInline
  separators := Cursor.repeats_skipSeparators
  doubleQuotes := ⟨Quoted.progresses_doubleRound, Quoted.repeated_double⟩
  singleQuotes := ⟨Quoted.progresses_singleRound, Quoted.repeated_single⟩
  groups := ⟨Group.progresses_groupRound, Group.repeated_group⟩
  elements := repeats_elements
  stages := repeats_stages
  statements := repeats_statements

end Script
end KeywordScope
