import KeywordScope.Proofs.Grammar.WellFormed
import KeywordScope.Proofs.Script.Written

/-!
# Sketches of grammars

A sketch is what somebody wants to declare. Its text is a script, one declaration a line.

* `KeywordSketch`, `BlockSketch`, `PropertySketch`: keywords with what they hold.
* `KeywordSketch.source`: the script for a forest of keywords.
* `KeywordSketch.Admissible`: the names and types can be written as words, and may stand where they
  do.
* `KeywordSketch.ReadAs`: the statement says what the sketch does.
* `KeywordSketch.reads`: the statement that is read of the text of a sketch says what the sketch does.
* `KeywordSketch.parse_source`: the same for the script for a forest.
-/

namespace KeywordScope

open Script

/-- A property with the word for its type. -/
structure PropertySketch where
  token : String
  name : String
  required : Bool

mutual

/-- A keyword with what its block declares. -/
inductive KeywordSketch where
  | mk (name : String) (nameMode : NameMode) (body : BlockSketch)

/-- Keywords, or properties. -/
inductive BlockSketch where
  | keywords (sketches : List KeywordSketch)
  | properties (sketches : List PropertySketch)

end

def KeywordSketch.name : KeywordSketch → String
  | mk name _ _ => name

/-! ## Texts -/

/-- The name of the property as it is written: in brackets, unless the property is required. -/
def PropertySketch.written (sketch : PropertySketch) : String :=
  if sketch.required then sketch.name else "[" ++ sketch.name ++ "]"

def PropertySketch.text (sketch : PropertySketch) : List Char :=
  sketch.token.toList ++ ' ' :: sketch.written.toList

/-- The word for a mode, if there is one. -/
def NameMode.written? : NameMode → Option String
  | noName => none
  | optionalName => some "[Name]"
  | nameRequired => some "Name"

/-- What stands between the name of a keyword and its block. -/
def NameMode.text (mode : NameMode) : List Char :=
  match mode.written? with
  | none => []
  | some word => ' ' :: word.toList

/-- What stands in front of a line. -/
def indentation (tab : List Char) (depth : Nat) : List Char :=
  (List.replicate depth tab).flatten

mutual

/-- The declaration of a keyword. Its own line is indented already. -/
def KeywordSketch.text (tab : List Char) (depth : Nat) : KeywordSketch → List Char
  | .mk name mode body =>
    name.toList ++ (mode.text ++ ' ' ::
      ('{' :: ('\n' :: body.lines tab (depth + 1) ++ indentation tab depth) ++ ['}']))

/-- The lines of a block. -/
def BlockSketch.lines (tab : List Char) (depth : Nat) : BlockSketch → List Char
  | .keywords sketches => KeywordSketch.linesAll tab depth sketches
  | .properties sketches =>
    sketches.flatMap fun sketch => indentation tab depth ++ sketch.text ++ ['\n']

/-- The lines of several keywords. -/
def KeywordSketch.linesAll (tab : List Char) (depth : Nat) : List KeywordSketch → List Char
  | [] => []
  | sketch :: sketches =>
    indentation tab depth ++ sketch.text tab depth ++ ['\n'] ++
      KeywordSketch.linesAll tab depth sketches

end

/-- The script for a forest of keywords. -/
def KeywordSketch.source (tab : List Char) (forest : List KeywordSketch) : String :=
  String.ofList (KeywordSketch.linesAll tab 0 forest)

/-- A keyword for each mode, with properties that are required and others that are not. -/
def KeywordSketch.sample : List KeywordSketch :=
  [.mk "Service" .nameRequired (.keywords
    [.mk "Stage" .optionalName (.properties
      [⟨"Int", "Retries", true⟩, ⟨"[System.Boolean]", "Verbose", false⟩]),
    .mk "Limits" .noName (.properties [⟨"string", "1st", true⟩])])]

example : KeywordSketch.source [' ', ' '] KeywordSketch.sample =
    "Service Name \x7b\n  Stage [Name] \x7b\n    Int Retries\n    [System.Boolean] [Verbose]\n" ++
      "  \x7d\n  Limits \x7b\n    string 1st\n  \x7d\n\x7d\n" := by
  decide +kernel

/-! ## Admissible sketches -/

/-- The text is a letter, then letters, digits and points. -/
def isTypeWord (text : String) : Bool :=
  match text.toList with
  | [] => false
  | x :: more => x.isAlpha && more.all fun y => y.isAlphanum || y == '.'

section Admissible

variable (findType : String → Option HostType) (reserved : List String)

/-- The property can be declared. The word for its type may be in brackets. The name of a required
property is read as a word only if it is no number. -/
structure PropertySketch.Admissible (sketch : PropertySketch) : Prop where
  token : isTypeWord (unbracketed sketch.token) = true
  known : (findType sketch.token).isSome = true
  noFlow : hasName flowWords sketch.token = false
  name : Spelled isWordChar sketch.name
  free : ∀ field ∈ reserved, ¬ sameName field sketch.name = true
  noNumber : sketch.required = true → sketch.name.toList.all Char.isDigit = false

instance (sketch : PropertySketch) : Decidable (sketch.Admissible findType reserved) :=
  decidable_of_iff (isTypeWord (unbracketed sketch.token) = true ∧
      (findType sketch.token).isSome = true ∧ hasName flowWords sketch.token = false ∧
      Spelled isWordChar sketch.name ∧ (∀ field ∈ reserved, ¬ sameName field sketch.name = true) ∧
      (sketch.required = true → sketch.name.toList.all Char.isDigit = false))
    ⟨fun ⟨token, known, noFlow, name, free, noNumber⟩ => ⟨token, known, noFlow, name, free, noNumber⟩,
      fun h => ⟨h.token, h.known, h.noFlow, h.name, h.free, h.noNumber⟩⟩

mutual

/-- The keyword can be declared below `parent?`, or at the root. -/
def KeywordSketch.Admissible (parent? : Option String) : KeywordSketch → Prop
  | .mk name mode body =>
    Spelled Char.isAlpha name ∧ (∀ parent ∈ parent?, ¬ sameName parent name = true) ∧
      hasName flowWords name = false ∧
      (mode = .noName → ∀ word ∈ ["begin", "process", "end"], ¬ sameName word name = true) ∧
      body.Admissible name

/-- The block declares something, and can stand below the keyword. -/
def BlockSketch.Admissible (parent : String) : BlockSketch → Prop
  | .keywords sketches =>
    sketches ≠ [] ∧ KeywordSketch.AllAdmissible (some parent) sketches
  | .properties sketches =>
    sketches ≠ [] ∧ (∀ sketch ∈ sketches, sketch.Admissible findType reserved) ∧
      sketches.Pairwise fun a b => ¬ sameName a.name b.name = true

/-- The keywords can be declared one after the other. -/
def KeywordSketch.AllAdmissible (parent? : Option String) : List KeywordSketch → Prop
  | [] => True
  | sketch :: sketches =>
    sketch.Admissible parent? ∧
      (∀ other ∈ sketches, ¬ sameName sketch.name other.name = true) ∧
      KeywordSketch.AllAdmissible parent? sketches

end

end Admissible

/-! ## What is read -/

/-- The statement declares the property as the sketch does. -/
def PropertySketch.ReadAs (sketch : PropertySketch) (s : Statement) : Prop :=
  ∃ a b span span', s =
    .pipeline [.command [.bareword sketch.token a, .bareword sketch.written b] span] span'

/-- The element is the word for the mode. -/
def NameMode.ReadAs (mode : NameMode) (element? : Option Element) : Prop :=
  match mode.written? with
  | none => element? = none
  | some word => ∃ a, element? = some (.bareword word a)

mutual

/-- The statement declares the keyword as the sketch does. -/
def KeywordSketch.ReadAs : KeywordSketch → Statement → Prop
  | .mk name mode body, s => ∃ a mode? block span span',
    s = .pipeline [.command (.bareword name a :: mode?.toList ++ [.script block]) span] span' ∧
      mode.ReadAs mode? ∧ block.begin? = none ∧ block.process? = none ∧
      body.ReadAs block.statements

/-- The statements declare what the block does. -/
def BlockSketch.ReadAs : BlockSketch → List Statement → Prop
  | .keywords sketches, statements => KeywordSketch.AllReadAs sketches statements
  | .properties sketches, statements => List.Forall₂ PropertySketch.ReadAs sketches statements

/-- The statements declare the keywords, in order. -/
def KeywordSketch.AllReadAs : List KeywordSketch → List Statement → Prop
  | [], [] => True
  | sketch :: sketches, s :: statements =>
    sketch.ReadAs s ∧ KeywordSketch.AllReadAs sketches statements
  | _, _ => False

end

theorem KeywordSketch.allReadAs_iff {sketches : List KeywordSketch} {statements : List Statement} :
    KeywordSketch.AllReadAs sketches statements ↔
      List.Forall₂ KeywordSketch.ReadAs sketches statements := by
  induction sketches generalizing statements with
  | nil => cases statements <;> simp [KeywordSketch.AllReadAs]
  | cons sketch sketches ih => cases statements <;> simp [KeywordSketch.AllReadAs, ih]

theorem KeywordSketch.linesAll_eq (tab : List Char) (depth : Nat) (sketches : List KeywordSketch) :
    KeywordSketch.linesAll tab depth sketches =
      sketches.flatMap fun sketch => indentation tab depth ++ sketch.text tab depth ++ ['\n'] := by
  induction sketches with
  | nil => rfl
  | cons sketch sketches ih => rw [KeywordSketch.linesAll, ih, List.flatMap_cons]

/-- What is related to something in a list has a property that all of it has. -/
theorem forall_of_forall₂ {α β : Type} {R : α → β → Prop} {Q : β → Prop} {xs : List α} {ys : List β}
    (h : List.Forall₂ R xs ys) (hQ : ∀ x ∈ xs, ∀ y, R x y → Q y) : ∀ y ∈ ys, Q y := by
  induction h with
  | nil => exact nofun
  | cons hxy _ ih =>
    obtain ⟨hx, hxs⟩ := List.forall_mem_cons.1 hQ
    exact List.forall_mem_cons.2 ⟨hx _ hxy, ih hxs⟩

/-! ## Words of a sketch -/

/-- What begins with a letter, and goes on with any characters of a word, is a word. -/
theorem isWord_of_isAlpha {x : Char} {more : List Char} (hx : x.isAlpha = true)
    (hmore : more.all Atom.isWordPart = true) : IsWord (x :: more) := by
  have hidentifier := isWordChar_of_isAlpha hx
  exact isWord_cons (startsWord_of_isWordChar hidentifier) (isDigit_of_isAlpha hx)
    (ne_of_class hidentifier (by decide)) (ne_of_class hidentifier (by decide)) hmore

/-- A name of letters is a word. -/
theorem Spelled.isWord {name : String} (h : Spelled Char.isAlpha name) : IsWord name.toList := by
  obtain ⟨hne, hletters⟩ := h
  obtain ⟨x, more, hname⟩ := List.exists_cons_of_ne_nil hne
  rw [hname] at hletters ⊢
  obtain ⟨hx, hmore⟩ := List.forall_mem_cons.1 hletters
  exact isWord_of_isAlpha hx (List.all_eq_true.2 fun y hy =>
    isWordPart_of_isWordChar (isWordChar_of_isAlpha (hmore y hy)))

theorem isWord_of_isTypeWord {text : String} (h : isTypeWord text = true) : IsWord text.toList := by
  unfold isTypeWord at h
  split at h
  · cases h
  · next x more htext =>
    obtain ⟨hx, hmore⟩ := Bool.and_eq_true_iff.1 h
    rw [htext]
    refine isWord_of_isAlpha hx (List.all_eq_true.2 fun y hy => ?_)
    rcases Bool.or_eq_true_iff.1 (List.all_eq_true.1 hmore y hy) with hy | hy
    · exact isWordPart_of_isWordChar (isWordChar_of_isAlphanum hy)
    · rw [beq_iff_eq.1 hy]
      rfl

/-- What stands in brackets is a word. -/
theorem isWord_bracketed {name : String} (h : ∀ x ∈ name.toList, Atom.isWordPart x = true) :
    IsWord ("[" ++ name ++ "]").toList := by
  have htext : ("[" ++ name ++ "]").toList = '[' :: (name.toList ++ [']']) := by simp
  rw [htext]
  refine isWord_cons rfl rfl (by decide) (by decide) ?_
  simpa [List.all_eq_true, show Atom.isWordPart ']' = true from rfl] using h

section

variable {findType : String → Option HostType} {reserved : List String} {sketch : PropertySketch}

theorem PropertySketch.Admissible.isWord_token (h : sketch.Admissible findType reserved) :
    IsWord sketch.token.toList := by
  have hword : IsWord (unbracketed sketch.token).toList := isWord_of_isTypeWord h.token
  rcases eq_unbracketed_or sketch.token with hplain | hbracketed
  · rwa [← hplain] at hword
  · rw [hbracketed]
    exact isWord_bracketed hword.parts

theorem PropertySketch.Admissible.isWord_written (h : sketch.Admissible findType reserved) :
    IsWord sketch.written.toList := by
  unfold PropertySketch.written
  split
  · next hrequired => exact isWord_of_isWordChar h.name.2 (h.noNumber hrequired)
  · exact isWord_bracketed fun x hx => isWordPart_of_isWordChar (h.name.2 x hx)

/-- A property of letters with a word for its type can be declared, unless the word is one of control
flow. -/
theorem PropertySketch.admissible_of_isTypeWord {token property : String} (ht : isTypeWord token = true)
    (hknown : (findType token).isSome = true) (hflow : hasName flowWords token = false)
    (hp : Spelled Char.isAlpha property)
    (hfree : ∀ field ∈ reserved, ¬ sameName field property = true) :
    PropertySketch.Admissible findType reserved ⟨token, property, true⟩ where
  token := by
    rw [unbracketed_of_not fun rest hrest => ?_]
    · exact ht
    · simp [isTypeWord, hrest, show Char.isAlpha '[' = false from rfl] at ht
  known := hknown
  noFlow := hflow
  name := ⟨hp.1, fun x hx => isWordChar_of_isAlpha (hp.2 x hx)⟩
  free := hfree
  noNumber _ := by
    obtain ⟨x, more, hname⟩ := List.exists_cons_of_ne_nil hp.1
    have hx : x.isDigit = false := isDigit_of_isAlpha (hp.2 x (by simp [hname]))
    simp [hname, hx]

theorem NameMode.isWord_of_written {mode : NameMode} {word : String} (h : mode.written? = some word) :
    IsWord word.toList := by
  cases mode with
  | noName => cases h
  | optionalName =>
    cases h
    exact isWord_cons rfl rfl (by decide) (by decide) rfl
  | nameRequired =>
    cases h
    exact isWord_cons rfl rfl (by decide) (by decide) rfl

end

/-! ## What is read of a sketch -/

theorem endsWord_space (rest : List Char) : EndsWord (' ' :: rest) := by
  rintro _ ⟨⟩
  rfl

theorem endsWord_newline (rest : List Char) : EndsWord ('\n' :: rest) := by
  rintro _ ⟨⟩
  rfl

theorem NameMode.endsWord_text (mode : NameMode) (more : List Char) :
    EndsWord (mode.text ++ ' ' :: more) := by
  cases mode <;> exact endsWord_space _

/-- A word behind a space, as the last element of a statement. -/
theorem reads_lastWord {word : String} {after : List Char} (hword : IsWord word.toList)
    (hends : EndsWord after) (hafter : EndsStatement after) :
    Reads (' ' :: word.toList) after .elements fun es => ∃ a, es = [.bareword word a] := by
  have hone : Reads word.toList ([] ++ after) .element _ := reads_word hword hends
  have hmore := reads_elements hword.opens hone (reads_noElements hafter)
  rw [List.append_nil] at hmore
  refine hmore.imp ?_
  rintro _ ⟨_, _, rfl, ⟨a, rfl⟩, rfl⟩
  exact ⟨a, by rw [String.ofList_toList]⟩

theorem PropertySketch.reads {findType : String → Option HostType} {reserved : List String}
    {sketch : PropertySketch} (h : sketch.Admissible findType reserved) {after : List Char}
    (hends : EndsWord after) (hafter : EndsStatement after) :
    Reads sketch.text after .statement sketch.ReadAs := by
  have hflow : hasName flowWords (String.ofList sketch.token.toList) = false := by
    rw [String.ofList_toList, h.noFlow]
  refine (reads_command h.isWord_token (endsWord_space _) hflow hafter
    (reads_lastWord h.isWord_written hends hafter)).imp ?_
  rintro _ ⟨a, _, span, span', rfl, b, rfl⟩
  exact ⟨a, b, span, span', by rw [String.ofList_toList]⟩

/-- Behind the name, the word for the mode is read, if there is one. -/
theorem NameMode.reads (mode : NameMode) {more after : List Char} {P : List Element → Prop}
    (hmore : Reads (' ' :: more) after .elements P) :
    Reads (mode.text ++ ' ' :: more) after .elements
      fun es => ∃ mode? es', es = mode?.toList ++ es' ∧ mode.ReadAs mode? ∧ P es' := by
  cases hword : mode.written? with
  | none =>
    simp only [NameMode.text, NameMode.ReadAs, hword, List.nil_append]
    exact hmore.imp fun es h => ⟨none, es, rfl, rfl, h⟩
  | some word =>
    have hisWord := NameMode.isWord_of_written hword
    have helement := reads_word hisWord (endsWord_space (more ++ after))
    simp only [NameMode.text, NameMode.ReadAs, hword]
    refine (reads_elements hisWord.opens helement hmore).imp ?_
    rintro _ ⟨_, es, rfl, ⟨a, rfl⟩, hP⟩
    rw [String.ofList_toList]
    exact ⟨some (.bareword word a), es, rfl, ⟨a, rfl⟩, hP⟩

section

variable {findType : String → Option HostType} {reserved : List String} {parent? : Option String}

/-- No keyword of a sketch is read as a named block. -/
theorem KeywordSketch.Admissible.plain {sketch : KeywordSketch}
    (h : sketch.Admissible findType reserved parent?) {s : Statement} (hs : sketch.ReadAs s) :
    NamedBlock.ofStatement? s = none := by
  obtain ⟨name, mode, body⟩ := sketch
  simp only [KeywordSketch.Admissible] at h
  obtain ⟨-, -, -, hnamed, -⟩ := h
  simp only [KeywordSketch.ReadAs] at hs
  obtain ⟨a, mode?, block, span, span', rfl, hmode, -⟩ := hs
  cases mode? with
  | some e => cases e <;> rfl
  | none =>
    have hnoName : mode = .noName := by
      cases mode with
      | noName => rfl
      | optionalName => simp [NameMode.ReadAs, NameMode.written?] at hmode
      | nameRequired => simp [NameMode.ReadAs, NameMode.written?] at hmode
    simpa [NamedBlock.ofStatement?, BlockKind.ofWord?, BlockKind.word] using hnamed hnoName

theorem KeywordSketch.AllAdmissible.forall_mem {sketches : List KeywordSketch}
    (h : KeywordSketch.AllAdmissible findType reserved parent? sketches) :
    ∀ sketch ∈ sketches, sketch.Admissible findType reserved parent? := by
  induction sketches with
  | nil => exact nofun
  | cons sketch sketches ih =>
    simp only [KeywordSketch.AllAdmissible] at h
    exact List.forall_mem_cons.2 ⟨h.1, ih h.2.2⟩

theorem KeywordSketch.AllAdmissible.plain {sketches : List KeywordSketch}
    (h : KeywordSketch.AllAdmissible findType reserved parent? sketches)
    {statements : List Statement} (hs : KeywordSketch.AllReadAs sketches statements) :
    ∀ s ∈ statements, NamedBlock.ofStatement? s = none :=
  forall_of_forall₂ (KeywordSketch.allReadAs_iff.1 hs) fun sketch hsketch _ =>
    (h.forall_mem sketch hsketch).plain

theorem BlockSketch.Admissible.plain {parent : String} {body : BlockSketch}
    (h : body.Admissible findType reserved parent) {statements : List Statement}
    (hs : body.ReadAs statements) : ∀ s ∈ statements, NamedBlock.ofStatement? s = none := by
  cases body with
  | keywords sketches =>
    simp only [BlockSketch.Admissible, BlockSketch.ReadAs] at h hs
    exact h.2.plain hs
  | properties sketches =>
    simp only [BlockSketch.ReadAs] at hs
    refine forall_of_forall₂ hs fun sketch _ s => ?_
    rintro ⟨a, b, span, span', rfl⟩
    rfl

variable {tab : List Char}

theorem isSpacing_indentation (htab : ∀ x ∈ tab, isSpacing x = true) (depth : Nat) :
    ∀ x ∈ indentation tab depth, isSpacing x = true := by
  intro x hx
  obtain ⟨_, hcs, hx⟩ := List.mem_flatten.1 hx
  rw [List.eq_of_mem_replicate hcs] at hx
  exact htab x hx

mutual

/-- The statement that is read of the text of a sketch says what the sketch does. -/
theorem KeywordSketch.reads (htab : ∀ x ∈ tab, isSpacing x = true) (parent? : Option String)
    (depth : Nat) : (sketch : KeywordSketch) → sketch.Admissible findType reserved parent? →
    Opens (sketch.text tab depth) ∧
      ∀ rest, Reads (sketch.text tab depth) ('\n' :: rest) .statement sketch.ReadAs
  | .mk name mode body, h => by
    simp only [KeywordSketch.Admissible] at h
    obtain ⟨hname, -, hflow, -, hbody⟩ := h
    have hword : IsWord name.toList := hname.isWord
    refine ⟨?_, fun rest => ?_⟩
    · simp only [KeywordSketch.text]
      exact hword.opens.append _
    -- From the inside out: the lines of the body, the block around them, the mode and the name.
    have hinner : ReadsInside (body.lines tab (depth + 1) ++ indentation tab depth) _ _ :=
      BlockSketch.reads htab name (depth + 1) body hbody (isSpacing_indentation htab depth)
        ('\n' :: rest)
    have hgap : ∀ x ∈ ['\n'], isSpacing x = true := List.forall_mem_singleton.2 rfl
    have hblock := reads_body (separates_newline rest).endsStatement (hinner.spaced hgap)
      (Q := fun b => b.begin? = none ∧ b.process? = none ∧ body.ReadAs b.statements)
      fun ss text span hss => ⟨_, assemble_plain text span (hbody.plain hss), rfl, rfl, hss⟩
    refine (reads_command hword (by rw [List.append_assoc]; exact mode.endsWord_text _)
      (by rwa [String.ofList_toList]) (separates_newline rest).endsStatement
      (mode.reads hblock)).imp ?_
    rintro _ ⟨a, _, span, span', rfl, mode?, _, rfl, hmode, block, rfl, hread⟩
    simp only [KeywordSketch.ReadAs]
    exact ⟨a, mode?, block, span, span', by rw [String.ofList_toList, List.cons_append], hmode,
      hread⟩

/-- The statements that are read of the lines of a block say what the block does. -/
theorem BlockSketch.reads (htab : ∀ x ∈ tab, isSpacing x = true) (parent : String) (depth : Nat) :
    (body : BlockSketch) → body.Admissible findType reserved parent → ∀ {tail : List Char},
    (∀ x ∈ tail, isSpacing x = true) → ∀ rest,
    ReadsInside (body.lines tab depth ++ tail) ('}' :: rest) body.ReadAs
  | .keywords sketches, h, tail, htail, rest => by
    simp only [BlockSketch.Admissible] at h
    simp only [BlockSketch.lines, KeywordSketch.linesAll_eq, BlockSketch.ReadAs]
    have hlines := KeywordSketch.allRead htab (some parent) depth sketches h.2
    exact (readsInside_lines (isSpacing_indentation htab depth) htail (.inr rfl) hlines).imp
      fun _ hss => KeywordSketch.allReadAs_iff.2 hss
  | .properties sketches, h, tail, htail, rest => by
    simp only [BlockSketch.Admissible] at h
    refine readsInside_lines (isSpacing_indentation htab depth) htail (.inr rfl)
      fun sketch hsketch => ?_
    have hsketch := h.2.1 sketch hsketch
    exact ⟨hsketch.isWord_token.opens.append _, fun rest =>
      PropertySketch.reads hsketch (endsWord_newline rest) (separates_newline rest).endsStatement⟩

theorem KeywordSketch.allRead (htab : ∀ x ∈ tab, isSpacing x = true) (parent? : Option String)
    (depth : Nat) : (sketches : List KeywordSketch) →
    KeywordSketch.AllAdmissible findType reserved parent? sketches → ∀ sketch ∈ sketches,
    Opens (sketch.text tab depth) ∧
      ∀ rest, Reads (sketch.text tab depth) ('\n' :: rest) .statement sketch.ReadAs
  | [], _ => nofun
  | sketch :: sketches, h => by
    simp only [KeywordSketch.AllAdmissible] at h
    exact List.forall_mem_cons.2 ⟨KeywordSketch.reads htab parent? depth sketch h.1,
      KeywordSketch.allRead htab parent? depth sketches h.2.2⟩

end

/-- The script for a forest of keywords is read as what it was written for. -/
theorem KeywordSketch.parse_source (htab : ∀ x ∈ tab, isSpacing x = true)
    {forest : List KeywordSketch} (h : KeywordSketch.AllAdmissible findType reserved none forest) :
    ∃ block, parse (KeywordSketch.source tab forest) = .ok block ∧ block.begin? = none ∧
      block.process? = none ∧ KeywordSketch.AllReadAs forest block.statements := by
  have htail : ∀ x ∈ ([] : List Char), isSpacing x = true := nofun
  have hread := readsInside_lines (isSpacing_indentation htab 0) htail (.inl rfl)
    (KeywordSketch.allRead htab none 0 forest h)
  rw [List.append_nil, ← KeywordSketch.linesAll_eq] at hread
  refine parse_of_readsInside hread fun ss text span hss => ?_
  rw [← KeywordSketch.allReadAs_iff] at hss
  exact ⟨_, assemble_plain text span (h.plain hss), rfl, rfl, hss⟩

end

end KeywordScope
