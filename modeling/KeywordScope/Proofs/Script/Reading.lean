import KeywordScope.Script.Parser

/-!
# Readings

How a piece of a script is read, as a derivation that the readers of the parser follow.

* `Reading c piece d parts`: the piece is read from `c` up to `d`. The parts are the statements and
  elements that are read on the way, each after its own parts.
* `Piece.isRead_iff`: the derivations are just what the readers do.
* `Reading.unique`: there is one derivation for a place and a kind of piece.
* `Produced source parts`: the parts that are read in the whole of a source.
-/

namespace KeywordScope
namespace Script

/-- What one of the readers answers with. -/
inductive Piece where
  | statements (statements : List Statement)
  | statement (statement : Statement)
  | stages (stages : List Stage)
  | stage (stage : Stage)
  | elements (elements : List Element)
  | element (element : Element)

/-- The variable in front of an assignment that begins at `c`. -/
def targetElement (c : Cursor) (target : String) : Element :=
  .variable target ("$" ++ target) ⟨c.offset, c.offset + utf8Length ('$' :: target.toList)⟩

/-- The piece is read from the one cursor up to the other, with all its parts. -/
inductive Reading : Cursor → Piece → Cursor → List Piece → Prop where
  | noStatements {c : Cursor} (stop : c.rest = [] ∨ c.rest.head? = some '}') :
      Reading c (.statements []) c []
  | statements {c d e : Cursor} {statement : Statement} {statements : List Statement}
      {parts parts' : List Piece} (goOn : ¬ (c.rest = [] ∨ c.rest.head? = some '}'))
      (first : Reading c (.statement statement) d parts)
      (ends : d.skipInline.atStatementEnd = true)
      (more : Reading d.skipInline.skipSeparators (.statements statements) e parts') :
      Reading c (.statements (statement :: statements)) e (parts ++ parts')
  | assignment {c v d : Cursor} {target : String} {element : Element} {elements : List Element}
      {parts : List Piece} (begins : assignment? c = some (target, v))
      (value : Reading v (.elements (element :: elements)) d parts) :
      Reading c (.statement (.assignment target (v.textTo d) (c.spanTo d))) d
        (.element (targetElement c target) :: parts ++
          [.statement (.assignment target (v.textTo d) (c.spanTo d))])
  | pipeline {c d e : Cursor} {stage : Stage} {stages : List Stage} {parts parts' : List Piece}
      (begins : assignment? c = none) (first : Reading c (.stage stage) d parts)
      (more : Reading d (.stages stages) e parts') :
      Reading c (.statement (.ofStages (stage :: stages) (c.spanTo e))) e
        (parts ++ parts' ++ [.statement (.ofStages (stage :: stages) (c.spanTo e))])
  | noStages {c : Cursor} (stop : pipe? c = none) : Reading c (.stages []) c []
  | stages {c d e f : Cursor} {stage : Stage} {stages : List Stage} {parts parts' : List Piece}
      (goOn : pipe? c = some d) (first : Reading d (.stage stage) e parts)
      (more : Reading e (.stages stages) f parts') :
      Reading c (.stages (stage :: stages)) f (parts ++ parts')
  | command {c d e : Cursor} {element : Element} {elements : List Element}
      {parts parts' : List Piece} (first : Reading c (.element element) d parts)
      (word : element.isBareword = true) (more : Reading d (.elements elements) e parts') :
      Reading c (.stage (.command (element :: elements) (c.spanTo e))) e (parts ++ parts')
  | expression {c d : Cursor} {element : Element} {parts : List Piece}
      (only : Reading c (.element element) d parts) (noWord : ¬ element.isBareword = true) :
      Reading c (.stage (.expression element)) d parts
  | noElements {c : Cursor} (stop : c.skipInline.atStageEnd = true) :
      Reading c (.elements []) c []
  | elements {c d e : Cursor} {element : Element} {elements : List Element}
      {parts parts' : List Piece} (goOn : ¬ c.skipInline.atStageEnd = true)
      (first : Reading c.skipInline (.element element) d parts)
      (more : Reading d (.elements elements) e parts') :
      Reading c (.elements (element :: elements)) e (parts ++ parts')
  | script {c d : Cursor} {rest after : List Char} {statements : List Statement} {block : Block}
      {parts : List Piece} (opens : c.rest = '{' :: rest)
      (inner : Reading (c.seek rest).skipSeparators (.statements statements) d parts)
      (closes : d.rest = '}' :: after)
      (assembled : Block.assemble statements ((c.seek rest).textTo d) (c.spanTo (d.seek after)) =
        .ok block) :
      Reading c (.element (.script block)) (d.seek after) (parts ++ [.element (.script block)])
  | atom {c : Cursor} {read : Consumed Element c} (noBlock : c.rest.head? ≠ some '{')
      (isRead : Atom.read c = .ok read) :
      Reading c (.element read.value) read.next [.element read.value]

/-- The reader for the kind of the piece answers with it from `c`, and goes on at `d`. -/
def Piece.IsRead (c d : Cursor) : Piece → Prop
  | .statements answer => ∃ h, readStatements c = .ok ⟨answer, d, h⟩
  | .statement answer => ∃ h, readStatement c = .ok ⟨answer, d, h⟩
  | .stages answer => ∃ h, readStages c = .ok ⟨answer, d, h⟩
  | .stage answer => ∃ h, readStage c = .ok ⟨answer, d, h⟩
  | .elements answer => ∃ h, readElements c = .ok ⟨answer, d, h⟩
  | .element answer => ∃ h, readElement c = .ok ⟨answer, d, h⟩

/-! ## What the readers do is a reading -/

mutual

theorem reading_readStatements (c : Cursor) {read : Reached (List Statement) c}
    (h : readStatements c = .ok read) :
    ∃ parts, Reading c (.statements read.value) read.next parts := by
  rw [readStatements] at h
  split at h
  · next stop =>
    cases h
    exact ⟨_, .noStatements stop⟩
  next goOn =>
  split at h
  · cases h
  next statement d shorter hfirst =>
  simp only at h
  split at h
  · next ends =>
    split at h
    · cases h
    next statements e _ hmore =>
    cases h
    have hgap := d.skipInline_le
    have hgap' := d.skipInline.skipSeparators_le
    obtain ⟨_, first⟩ := reading_readStatement c hfirst
    obtain ⟨_, more⟩ := reading_readStatements d.skipInline.skipSeparators hmore
    exact ⟨_, .statements goOn first ends more⟩
  · cases h
termination_by 8 * c.rest.length + 5

theorem reading_readStatement (c : Cursor) {read : Consumed Statement c}
    (h : readStatement c = .ok read) :
    ∃ parts, Reading c (.statement read.value) read.next parts := by
  rw [readStatement] at h
  split at h
  · next target v begins =>
    have hshorter := assignment?_shorter begins
    simp only at h
    split at h
    · cases h
    · cases h
    next element elements d _ hvalue =>
    cases h
    obtain ⟨_, value⟩ := reading_readElements v hvalue
    exact ⟨_, .assignment begins value⟩
  · next begins =>
    split at h
    · cases h
    next stage d shorter hfirst =>
    split at h
    · cases h
    next stages e _ hmore =>
    cases h
    obtain ⟨_, first⟩ := reading_readStage c hfirst
    obtain ⟨_, more⟩ := reading_readStages d hmore
    exact ⟨_, .pipeline begins first more⟩
termination_by 8 * c.rest.length + 4

theorem reading_readStages (c : Cursor) {read : Reached (List Stage) c}
    (h : readStages c = .ok read) :
    ∃ parts, Reading c (.stages read.value) read.next parts := by
  rw [readStages] at h
  split at h
  · next stop =>
    cases h
    exact ⟨_, .noStages stop⟩
  next d goOn =>
  have hshorter := pipe?_shorter goOn
  simp only at h
  split at h
  · cases h
  next stage e shorter hfirst =>
  split at h
  · cases h
  next stages f _ hmore =>
  cases h
  obtain ⟨_, first⟩ := reading_readStage d hfirst
  obtain ⟨_, more⟩ := reading_readStages e hmore
  exact ⟨_, .stages goOn first more⟩
termination_by 8 * c.rest.length + 3

theorem reading_readStage (c : Cursor) {read : Consumed Stage c} (h : readStage c = .ok read) :
    ∃ parts, Reading c (.stage read.value) read.next parts := by
  rw [readStage] at h
  split at h
  · cases h
  next element d shorter hfirst =>
  obtain ⟨_, first⟩ := reading_readElement c hfirst
  split at h
  · next word =>
    split at h
    · cases h
    next elements e _ hmore =>
    cases h
    obtain ⟨_, more⟩ := reading_readElements d hmore
    exact ⟨_, .command first word more⟩
  · next noWord =>
    cases h
    exact ⟨_, .expression first noWord⟩
termination_by 8 * c.rest.length + 2

theorem reading_readElements (c : Cursor) {read : Reached (List Element) c}
    (h : readElements c = .ok read) :
    ∃ parts, Reading c (.elements read.value) read.next parts := by
  rw [readElements] at h
  split at h
  · next stop =>
    cases h
    exact ⟨_, .noElements stop⟩
  next goOn =>
  split at h
  · cases h
  next element d shorter hfirst =>
  split at h
  · cases h
  next elements e _ hmore =>
  cases h
  have hgap := c.skipInline_le
  obtain ⟨_, first⟩ := reading_readElement c.skipInline hfirst
  obtain ⟨_, more⟩ := reading_readElements d hmore
  exact ⟨_, .elements goOn first more⟩
termination_by 8 * c.rest.length + 1

theorem reading_readElement (c : Cursor) {read : Consumed Element c}
    (h : readElement c = .ok read) :
    ∃ parts, Reading c (.element read.value) read.next parts := by
  rw [readElement] at h
  split at h
  · next rest opens =>
    simp only at h
    split at h
    · cases h
    next statements d _ hinner =>
    split at h
    · next after closes =>
      split at h
      · cases h
      next block assembled =>
      cases h
      have hgap := (c.seek rest).skipSeparators_le
      have hlength := congrArg List.length opens
      obtain ⟨_, inner⟩ := reading_readStatements (c.seek rest).skipSeparators hinner
      exact ⟨_, .script opens inner closes assembled⟩
    · cases h
  · next noBlock =>
    refine ⟨_, .atom ?_ h⟩
    intro hhead
    obtain ⟨rest, hrest⟩ := List.head?_eq_some_iff.1 hhead
    exact noBlock rest hrest
termination_by 8 * c.rest.length
decreasing_by
  rw [List.length_cons] at hlength
  rw [Cursor.seek_rest] at hgap
  omega

end

/-! ## A reading is what the readers do -/

/-- What is read by a derivation is what the reader for it answers with. -/
theorem Reading.isRead {c d : Cursor} {piece : Piece} {parts : List Piece}
    (h : Reading c piece d parts) : piece.IsRead c d := by
  induction h with
  | noStatements stop => exact ⟨Nat.le_refl _, by rw [readStatements, if_pos stop]⟩
  | @statements c d e statement statements _ _ goOn _ ends _ ihFirst ihMore =>
    obtain ⟨hfirst, first⟩ := ihFirst
    obtain ⟨hmore, more⟩ := ihMore
    have hgap := d.skipInline_le
    have hgap' := d.skipInline.skipSeparators_le
    refine ⟨by omega, ?_⟩
    rw [readStatements, if_neg goOn]
    simp only [first, ends, more, if_true]
  | @assignment c v d target element elements _ begins _ ih =>
    obtain ⟨hvalue, value⟩ := ih
    have hshorter := assignment?_shorter begins
    refine ⟨by omega, ?_⟩
    rw [readStatement]
    split
    · next target' v' begins' =>
      obtain ⟨rfl, rfl⟩ := by simpa using begins.symm.trans begins'
      simp only [value]
    · next none' => simp [begins] at none'
  | @pipeline c d e stage stages _ _ begins _ _ ihFirst ihMore =>
    obtain ⟨hfirst, first⟩ := ihFirst
    obtain ⟨hmore, more⟩ := ihMore
    refine ⟨by omega, ?_⟩
    rw [readStatement]
    split
    · next some' => simp [begins] at some'
    · simp only [first, more]
  | noStages stop =>
    refine ⟨Nat.le_refl _, ?_⟩
    rw [readStages]
    split
    · rfl
    · next some' => simp [stop] at some'
  | @stages c d e f stage stages _ _ goOn _ _ ihFirst ihMore =>
    obtain ⟨hfirst, first⟩ := ihFirst
    obtain ⟨hmore, more⟩ := ihMore
    have hshorter := pipe?_shorter goOn
    refine ⟨by omega, ?_⟩
    rw [readStages]
    split
    · next none' => simp [goOn] at none'
    · next d' goOn' =>
      obtain rfl := Option.some.inj (goOn.symm.trans goOn')
      simp only [first, more]
  | command _ word _ ihFirst ihMore =>
    obtain ⟨hfirst, first⟩ := ihFirst
    obtain ⟨hmore, more⟩ := ihMore
    refine ⟨by omega, ?_⟩
    rw [readStage]
    simp only [first, word, more, if_true]
  | expression _ noWord ih =>
    obtain ⟨honly, only⟩ := ih
    refine ⟨honly, ?_⟩
    rw [readStage]
    simp only [only, noWord]
    rfl
  | noElements stop => exact ⟨Nat.le_refl _, by rw [readElements, if_pos stop]⟩
  | @elements c d e element elements _ _ goOn _ _ ihFirst ihMore =>
    obtain ⟨hfirst, first⟩ := ihFirst
    obtain ⟨hmore, more⟩ := ihMore
    have hgap := c.skipInline_le
    refine ⟨by omega, ?_⟩
    rw [readElements, if_neg goOn]
    simp only [first, more]
  | @script c d rest after statements block _ opens _ closes assembled ih =>
    obtain ⟨hinner, inner⟩ := ih
    have hgap := (c.seek rest).skipSeparators_le
    have hopens := congrArg List.length opens
    have hcloses := congrArg List.length closes
    rw [List.length_cons] at hopens hcloses
    rw [Cursor.seek_rest] at hgap
    refine ⟨by rw [Cursor.seek_rest]; omega, ?_⟩
    rw [readElement]
    split
    · next rest' opens' =>
      obtain rfl := (List.cons.inj (opens.symm.trans opens')).2
      simp only [inner]
      split
      · next after' closes' =>
        obtain rfl := (List.cons.inj (closes.symm.trans closes')).2
        simp only [assembled]
      · next noClose => exact absurd closes (noClose after)
    · next noBlock => exact absurd opens (noBlock rest)
  | @atom c read noBlock isRead =>
    obtain ⟨element, d, shorter⟩ := read
    refine ⟨shorter, ?_⟩
    rw [readElement]
    split
    · next rest opens => simp [opens] at noBlock
    · exact isRead

/-- The derivations are just what the readers do. -/
theorem Piece.isRead_iff {c d : Cursor} {piece : Piece} :
    piece.IsRead c d ↔ ∃ parts, Reading c piece d parts := by
  refine ⟨fun h => ?_, fun ⟨_, h⟩ => h.isRead⟩
  cases piece with
  | statements => exact reading_readStatements c h.choose_spec
  | statement => exact reading_readStatement c h.choose_spec
  | stages => exact reading_readStages c h.choose_spec
  | stage => exact reading_readStage c h.choose_spec
  | elements => exact reading_readElements c h.choose_spec
  | element => exact reading_readElement c h.choose_spec

/-! ## Readings are unique -/

/-- There is one reading for a place and a kind of piece, with its parts. -/
theorem Reading.unique {c d : Cursor} {piece : Piece} {parts : List Piece}
    (h : Reading c piece d parts) : ∀ {piece' d' parts'}, Reading c piece' d' parts' →
      piece'.ctorIdx = piece.ctorIdx → piece' = piece ∧ d' = d ∧ parts' = parts := by
  induction h with
  | noStatements stop =>
    intro _ _ _ h' hkind
    cases h' with
    | noStatements => exact ⟨rfl, rfl, rfl⟩
    | statements goOn' => exact absurd stop goOn'
    | _ => cases hkind
  | statements goOn _ _ _ ihFirst ihMore =>
    intro _ _ _ h' hkind
    cases h' with
    | noStatements stop' => exact absurd stop' goOn
    | statements _ first' _ more' =>
      obtain ⟨⟨⟩, rfl, rfl⟩ := ihFirst first' rfl
      obtain ⟨⟨⟩, rfl, rfl⟩ := ihMore more' rfl
      exact ⟨rfl, rfl, rfl⟩
    | _ => cases hkind
  | assignment begins _ ih =>
    intro _ _ _ h' hkind
    cases h' with
    | assignment begins' value' =>
      cases begins.symm.trans begins'
      obtain ⟨⟨⟩, rfl, rfl⟩ := ih value' rfl
      exact ⟨rfl, rfl, rfl⟩
    | pipeline begins' => cases begins.symm.trans begins'
    | _ => cases hkind
  | pipeline begins _ _ ihFirst ihMore =>
    intro _ _ _ h' hkind
    cases h' with
    | assignment begins' => cases begins.symm.trans begins'
    | pipeline _ first' more' =>
      obtain ⟨⟨⟩, rfl, rfl⟩ := ihFirst first' rfl
      obtain ⟨⟨⟩, rfl, rfl⟩ := ihMore more' rfl
      exact ⟨rfl, rfl, rfl⟩
    | _ => cases hkind
  | noStages stop =>
    intro _ _ _ h' hkind
    cases h' with
    | noStages => exact ⟨rfl, rfl, rfl⟩
    | stages goOn' => cases stop.symm.trans goOn'
    | _ => cases hkind
  | stages goOn _ _ ihFirst ihMore =>
    intro _ _ _ h' hkind
    cases h' with
    | noStages stop' => cases goOn.symm.trans stop'
    | stages goOn' first' more' =>
      cases goOn.symm.trans goOn'
      obtain ⟨⟨⟩, rfl, rfl⟩ := ihFirst first' rfl
      obtain ⟨⟨⟩, rfl, rfl⟩ := ihMore more' rfl
      exact ⟨rfl, rfl, rfl⟩
    | _ => cases hkind
  | command _ word _ ihFirst ihMore =>
    intro _ _ _ h' hkind
    cases h' with
    | command first' _ more' =>
      obtain ⟨⟨⟩, rfl, rfl⟩ := ihFirst first' rfl
      obtain ⟨⟨⟩, rfl, rfl⟩ := ihMore more' rfl
      exact ⟨rfl, rfl, rfl⟩
    | expression only' noWord' =>
      obtain ⟨⟨⟩, rfl, rfl⟩ := ihFirst only' rfl
      exact absurd word noWord'
    | _ => cases hkind
  | expression _ noWord ih =>
    intro _ _ _ h' hkind
    cases h' with
    | command first' word' =>
      obtain ⟨⟨⟩, rfl, rfl⟩ := ih first' rfl
      exact absurd word' noWord
    | expression only' =>
      obtain ⟨⟨⟩, rfl, rfl⟩ := ih only' rfl
      exact ⟨rfl, rfl, rfl⟩
    | _ => cases hkind
  | noElements stop =>
    intro _ _ _ h' hkind
    cases h' with
    | noElements => exact ⟨rfl, rfl, rfl⟩
    | elements goOn' => exact absurd stop goOn'
    | _ => cases hkind
  | elements goOn _ _ ihFirst ihMore =>
    intro _ _ _ h' hkind
    cases h' with
    | noElements stop' => exact absurd stop' goOn
    | elements _ first' more' =>
      obtain ⟨⟨⟩, rfl, rfl⟩ := ihFirst first' rfl
      obtain ⟨⟨⟩, rfl, rfl⟩ := ihMore more' rfl
      exact ⟨rfl, rfl, rfl⟩
    | _ => cases hkind
  | script opens _ closes assembled ih =>
    intro _ _ _ h' hkind
    cases h' with
    | script opens' inner' closes' assembled' =>
      cases opens.symm.trans opens'
      obtain ⟨⟨⟩, rfl, rfl⟩ := ih inner' rfl
      cases closes.symm.trans closes'
      cases assembled.symm.trans assembled'
      exact ⟨rfl, rfl, rfl⟩
    | atom noBlock' => exact absurd (by rw [opens]; rfl) noBlock'
    | _ => cases hkind
  | atom noBlock isRead =>
    intro _ _ _ h' hkind
    cases h' with
    | script opens' => exact absurd (by rw [opens']; rfl) noBlock
    | atom _ isRead' =>
      cases isRead.symm.trans isRead'
      exact ⟨rfl, rfl, rfl⟩
    | _ => cases hkind

/-! ## Whole sources -/

/-- The parts that are read in the whole of a source: its statements and elements, and those that
are nested in them. -/
def Produced (source : String) (parts : List Piece) : Prop :=
  ∃ statements d, d.rest = [] ∧
    Reading (Cursor.start source).skipSeparators (.statements statements) d parts

/-- A source that has a tree is read to its end, and the tree is made of the statements read. -/
theorem parse_eq_ok_iff {source : String} {block : Block} :
    parse source = .ok block ↔ ∃ statements d parts, d.rest = [] ∧
      Reading (Cursor.start source).skipSeparators (.statements statements) d parts ∧
      Block.assemble statements ((Cursor.start source).textTo d)
        ((Cursor.start source).spanTo d) = .ok block := by
  constructor
  · intro h
    rw [parse] at h
    split at h
    · cases h
    next statements d _ hread =>
    split at h
    · cases h
    next assembled =>
    split at h
    · next hend =>
      cases h
      obtain ⟨parts, reading⟩ := reading_readStatements _ hread
      exact ⟨statements, d, parts, hend, reading, assembled⟩
    · cases h
  · rintro ⟨statements, d, parts, hend, reading, assembled⟩
    obtain ⟨_, hread⟩ := reading.isRead
    rw [parse]
    simp only [hread, assembled, hend, if_true]

end Script
end KeywordScope
