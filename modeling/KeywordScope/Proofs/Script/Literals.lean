import KeywordScope.Proofs.Script.Blocks

/-!
# Literals of strings

A string has one literal in single quotes. In double quotes it has many, since most characters may
be spelled in more than one way.

* `Quoted.Spells x text`: the text stands for the character between double quotes.
* `Quoted.Literal value quote text`: the text is a literal of the value in these quotes.
* `Quoted.read?_eq_some_iff`: just the literals are read, and each up to its last quote.
* `strings_decode`: so it is for the elements of a script, and all strings in a tree are literals of
  their values.
-/

namespace KeywordScope
namespace Script

namespace Quoted

/-- The text stands for the character between double quotes. Behind a backtick four letters stand
for something else, and any other character for itself. -/
inductive Spells : Char → List Char → Prop where
  | plain {x : Char} (noQuote : x ≠ '\x22') (noEscape : x ≠ '\x60') : Spells x [x]
  | doubled : Spells '\x22' ['\x22', '\x22']
  | newline : Spells '\n' ['\x60', 'n']
  | tab : Spells '\t' ['\x60', 't']
  | carriageReturn : Spells '\r' ['\x60', 'r']
  | null : Spells '\x00' ['\x60', '0']
  | escaped {x : Char} (noLetter : x ∉ ['n', 't', 'r', '0']) : Spells x ['\x60', x]

/-- How a character is written between single quotes. -/
def doubleSingle (x : Char) : List Char :=
  if x = '\x27' then ['\x27', '\x27'] else [x]

/-- The text is a literal of the value in these quotes. -/
inductive Literal (value : List Char) : Char → List Char → Prop where
  | single : Literal value '\x27' ('\x27' :: (value.flatMap doubleSingle ++ ['\x27']))
  | double {texts : List (List Char)} (spelled : List.Forall₂ Spells value texts) :
      Literal value '\x22' ('\x22' :: (texts.flatten ++ ['\x22']))

variable {cs value rest after : List Char}

/-! ## Double quotes -/

theorem escape_of_not_letter {x : Char} (h : x ∉ ['n', 't', 'r', '0']) : escape x = x := by
  unfold escape
  split <;> simp_all

theorem spells_escape (x : Char) : Spells (escape x) ['\x60', x] := by
  by_cases h : x ∈ ['n', 't', 'r', '0']
  · simp only [List.mem_cons, List.not_mem_nil, or_false] at h
    rcases h with rfl | rfl | rfl | rfl
    · exact .newline
    · exact .tab
    · exact .carriageReturn
    · exact .null
  · rw [escape_of_not_letter h]
    exact .escaped h

theorem readDouble?_escape (x : Char) (cs : List Char) :
    readDouble? ('\x60' :: x :: cs) =
      (readDouble? cs).map fun (value, rest) => (escape x :: value, rest) := by
  rw [readDouble?]

/-- What stands for a character is read as that character. -/
theorem readDouble?_spells {x : Char} {text : List Char} (h : Spells x text) (cs : List Char) :
    readDouble? (text ++ cs) = (readDouble? cs).map fun (value, rest) => (x :: value, rest) := by
  cases h with
  | plain noQuote noEscape => exact readDouble?_plain noQuote noEscape cs
  | doubled => exact readDouble?.eq_2 cs
  | newline | tab | carriageReturn | null => exact readDouble?_escape _ cs
  | escaped noLetter =>
    have hread := readDouble?_escape x cs
    rwa [escape_of_not_letter noLetter] at hread

theorem readDouble?_spelled {texts : List (List Char)} (h : List.Forall₂ Spells value texts)
    (hafter : ∀ more, after ≠ '\x22' :: more) :
    readDouble? (texts.flatten ++ '\x22' :: after) = some (value, after) := by
  induction h with
  | nil => exact readDouble?_quote hafter
  | cons hx _ ih =>
    rw [List.flatten_cons, List.append_assoc, readDouble?_spells hx, ih]
    rfl

/-- What is read between double quotes is spelled so, and no quote follows the last one. -/
theorem spelled_of_readDouble? (h : readDouble? cs = some (value, rest)) :
    ∃ texts, List.Forall₂ Spells value texts ∧ cs = texts.flatten ++ '\x22' :: rest ∧
      ∀ more, rest ≠ '\x22' :: more := by
  -- One character is read in front of what is read behind it.
  have spelled : ∀ {x : Char} {text cs value rest : List Char}, Spells x text →
      (∃ texts, List.Forall₂ Spells value texts ∧ cs = texts.flatten ++ '\x22' :: rest ∧
        ∀ more, rest ≠ '\x22' :: more) →
      ∃ texts, List.Forall₂ Spells (x :: value) texts ∧
        text ++ cs = texts.flatten ++ '\x22' :: rest ∧ ∀ more, rest ≠ '\x22' :: more := by
    rintro x text _ value rest hx ⟨texts, htexts, rfl, hrest⟩
    refine ⟨text :: texts, .cons hx htexts, ?_, hrest⟩
    rw [List.flatten_cons, List.append_assoc]
  fun_induction readDouble? cs generalizing value rest with
  | case1 | case5 => cases h
  | case2 cs ih =>
    obtain ⟨_, hread, heq⟩ := Option.map_eq_some_iff.1 h
    cases heq
    exact spelled .doubled (ih hread)
  | case3 cs hcs =>
    cases h
    exact ⟨[], .nil, rfl, hcs⟩
  | case4 x cs ih =>
    obtain ⟨_, hread, heq⟩ := Option.map_eq_some_iff.1 h
    cases heq
    exact spelled (spells_escape x) (ih hread)
  | case6 x cs _ noQuote hescape hlast ih =>
    obtain ⟨_, hread, heq⟩ := Option.map_eq_some_iff.1 h
    cases heq
    have noEscape : x ≠ '\x60' := by
      rintro rfl
      rcases cs with _ | ⟨y, cs⟩
      · exact hlast rfl rfl
      · exact hescape y cs rfl rfl
    exact spelled (.plain noQuote noEscape) (ih hread)

/-! ## Single quotes -/

theorem readSingle?_doubleSingle (x : Char) (cs : List Char) :
    readSingle? (doubleSingle x ++ cs) =
      (readSingle? cs).map fun (value, rest) => (x :: value, rest) := by
  unfold doubleSingle
  split
  · next hx =>
    subst hx
    exact readSingle?.eq_2 cs
  · next hx => exact readSingle?_plain hx cs

theorem readSingle?_doubled (hafter : ∀ more, after ≠ '\x27' :: more) (value : List Char) :
    readSingle? (value.flatMap doubleSingle ++ '\x27' :: after) = some (value, after) := by
  induction value with
  | nil => exact readSingle?_quote hafter
  | cons x value ih =>
    rw [List.flatMap_cons, List.append_assoc, readSingle?_doubleSingle, ih]
    rfl

/-- What is read between single quotes has its quotes doubled, and no quote follows the last one. -/
theorem doubled_of_readSingle? (h : readSingle? cs = some (value, rest)) :
    cs = value.flatMap doubleSingle ++ '\x27' :: rest ∧ ∀ more, rest ≠ '\x27' :: more := by
  have doubled : ∀ {x : Char} {cs value rest : List Char},
      (cs = value.flatMap doubleSingle ++ '\x27' :: rest ∧ ∀ more, rest ≠ '\x27' :: more) →
      doubleSingle x ++ cs = (x :: value).flatMap doubleSingle ++ '\x27' :: rest ∧
        ∀ more, rest ≠ '\x27' :: more := by
    rintro x _ value rest ⟨rfl, hrest⟩
    rw [List.flatMap_cons, List.append_assoc]
    exact ⟨rfl, hrest⟩
  fun_induction readSingle? cs generalizing value rest with
  | case1 => cases h
  | case2 cs ih =>
    obtain ⟨_, hread, heq⟩ := Option.map_eq_some_iff.1 h
    cases heq
    exact doubled (x := '\x27') (ih hread)
  | case3 cs hcs =>
    cases h
    exact ⟨rfl, hcs⟩
  | case4 x cs _ noQuote ih =>
    obtain ⟨_, hread, heq⟩ := Option.map_eq_some_iff.1 h
    cases heq
    have hread := doubled (x := x) (ih hread)
    rwa [doubleSingle, if_neg noQuote] at hread

/-! ## Literals -/

/-- Just the literals are read, each up to its last quote: no quote of its kind follows. -/
theorem read?_eq_some_iff : read? cs = some (value, rest) ↔
    ∃ quote text, Literal value quote text ∧ cs = text ++ rest ∧ ∀ more, rest ≠ quote :: more := by
  constructor
  · intro h
    unfold read? at h
    split at h
    · obtain ⟨texts, htexts, rfl, hrest⟩ := spelled_of_readDouble? h
      exact ⟨_, _, .double htexts, by simp, hrest⟩
    · obtain ⟨rfl, hrest⟩ := doubled_of_readSingle? h
      exact ⟨_, _, .single, by simp, hrest⟩
    · cases h
  · rintro ⟨quote, text, hliteral, rfl, hrest⟩
    cases hliteral with
    | single =>
      rw [List.cons_append, List.append_assoc]
      exact readSingle?_doubled hrest value
    | double spelled =>
      rw [List.cons_append, List.append_assoc]
      exact readDouble?_spelled spelled hrest

/-- A literal begins with its quote. -/
theorem Literal.head?_append {quote : Char} {text : List Char} (h : Literal value quote text)
    (rest : List Char) : (text ++ rest).head? = some quote ∧ (quote = '\x22' ∨ quote = '\x27') := by
  cases h with
  | single => exact ⟨rfl, .inr rfl⟩
  | double => exact ⟨rfl, .inl rfl⟩

end Quoted

/-! ## Elements -/

variable {c d : Cursor} {value text : String} {span : Span}

/-- A quoted element is read just where a literal of its value stands, and shows that literal. -/
theorem readElement_quoted_iff :
    (∃ h, readElement c = .ok ⟨.quoted value text span, d, h⟩) ↔
      ∃ quote, Quoted.Literal value.toList quote text.toList ∧ c.Passes text.toList d ∧
        span = c.spanTo d ∧ ∀ more, d.rest ≠ quote :: more := by
  constructor
  · intro h
    obtain ⟨_, hread⟩ := (@Piece.isRead_iff _ _ (.element _)).1 h
    generalize hpiece : Piece.element (.quoted value text span) = piece at hread
    cases hread with
    | atom _ isRead =>
      cases Atom.lexeme_of_read isRead with
      | quoted isQuote hstring =>
        obtain ⟨quote, literal, hliteral, hrest, hmore⟩ := Quoted.read?_eq_some_iff.1 hstring
        have hpasses := Cursor.passes_seek hrest
        cases Piece.element.inj hpiece
        refine ⟨quote, ?_, ?_, rfl, hmore⟩
        · rw [hpasses.textTo_eq, String.toList_ofList, String.toList_ofList]
          exact hliteral
        · rw [hpasses.textTo_eq, String.toList_ofList]
          exact hpasses
      | @group isTable => cases isTable <;> cases Piece.element.inj hpiece
      | _ => cases Piece.element.inj hpiece
    | script => cases Piece.element.inj hpiece
    | _ => cases hpiece
  · rintro ⟨quote, hliteral, hpasses, rfl, hmore⟩
    obtain ⟨hhead, hquote⟩ := hliteral.head?_append d.rest
    rw [← hpasses.rest_eq] at hhead
    have isQuote : c.rest.head? = some '\x22' ∨ c.rest.head? = some '\x27' := by
      rcases hquote with rfl | rfl
      · exact .inl hhead
      · exact .inr hhead
    have noBlock : c.rest.head? ≠ some '{' := by
      rw [hhead]
      rcases hquote with rfl | rfl <;> decide
    have isRead := Quoted.read?_eq_some_iff.2 ⟨quote, _, hliteral, hpasses.rest_eq, hmore⟩
    have hreading := Reading.atom noBlock (Atom.Lexeme.quoted isQuote isRead).read_eq
    have hnext : c.seek d.rest = d := hpasses.seek_eq
    have hvalue : (Atom.consume c d.rest (Quoted.read?_shorter isRead)
        (.quoted (String.ofList value.toList))).value = .quoted value text (c.spanTo d) := by
      show Element.quoted (String.ofList value.toList) (c.textTo (c.seek d.rest))
        (c.spanTo (c.seek d.rest)) = _
      rw [hnext, hpasses.textTo_eq, String.ofList_toList, String.ofList_toList]
    rw [hvalue] at hreading
    have hread := hreading.isRead
    rwa [show (Atom.consume c d.rest (Quoted.read?_shorter isRead)
        (.quoted (String.ofList value.toList))).next = d from hnext] at hread

/-- Where a literal stands, and no quote of its kind follows it, a quoted element is read that has
its value and shows all of it; elsewhere none is. And each quoted element in the tree of a source
shows a literal of its value. -/
theorem strings_decode :
    (∀ c d value text span, (∃ h, readElement c = .ok ⟨.quoted value text span, d, h⟩) ↔
      ∃ quote, Quoted.Literal value.toList quote text.toList ∧ c.Passes text.toList d ∧
        span = c.spanTo d ∧ ∀ more, d.rest ≠ quote :: more) ∧
    ∀ source tree, parse source = .ok tree → ∀ value text span,
      (Node.element (.quoted value text span)).Within (.block tree) →
        ∃ quote, Quoted.Literal value.toList quote text.toList := by
  refine ⟨fun _ _ _ _ _ => readElement_quoted_iff, ?_⟩
  intro source tree h value text span hwithin
  obtain ⟨statements, d, parts, -, reading, assembled⟩ := parse_eq_ok_iff.1 h
  obtain ⟨s, hs, hwithin⟩ := within_assembled (Block.assemble_ok assembled) hwithin
  have hmem := reading.element_mem (List.mem_map_of_mem hs) hwithin
  rcases reading.of_mem hmem with ⟨a, b, _, _, -, hread⟩ | ⟨_, _, _, -, heq⟩
  · obtain ⟨quote, hliteral, -⟩ := readElement_quoted_iff.1 hread.isRead
    exact ⟨quote, hliteral⟩
  · cases heq

/-- The value of a string. -/
def Element.value? : Element → Option String
  | .quoted value _ _ => some value
  | _ => none

theorem Element.value?_eq_some {e : Element} {value : String} (h : e.value? = some value) :
    ∃ text span, e = .quoted value text span := by
  cases e with
  | quoted value' text span =>
    obtain rfl := Option.some.inj h
    exact ⟨text, span, rfl⟩
  | _ => cases h

/-- A literal in double quotes with a letter, a line break and two quotes that are spelled in
different ways, in front of a single quote; and a literal in single quotes in a tree. -/
theorem strings_decode_sample :
    (∃ d h, readElement ⟨0, "\x22a\x60n\x22\x22\x60\x22\x22\x27".toList⟩ =
      .ok ⟨.quoted "a\n\x22\x22" "\x22a\x60n\x22\x22\x60\x22\x22" ⟨0, 9⟩, d, h⟩) ∧
    ∃ tree text span, parse "Stage 'it''s'" = .ok tree ∧
      (Node.element (.quoted "it's" text span)).Within (.block tree) ∧ text = "'it''s'" ∧
      ∃ quote, Quoted.Literal "it's".toList quote text.toList := by
  constructor
  · have hliteral : Quoted.Literal "a\n\x22\x22".toList '\x22'
        "\x22a\x60n\x22\x22\x60\x22\x22".toList :=
      @Quoted.Literal.double _ [['a'], ['\x60', 'n'], ['\x22', '\x22'], ['\x60', '\x22']]
        (.cons (.plain (by decide) (by decide)) (.cons .newline (.cons .doubled
          (.cons (.escaped (by decide)) .nil))))
    obtain ⟨h, hread⟩ := (strings_decode.1 ⟨0, _⟩ ⟨9, ['\x27']⟩ _ _ _).2
      ⟨'\x22', hliteral, ⟨rfl, rfl⟩, rfl, nofun⟩
    exact ⟨_, h, hread⟩
  · have hread : (parse "Stage 'it''s'").toOption.any (fun tree => tree.statements.any fun s =>
        s.commandElements.any fun e => e.value? == some "it's" && e.text == "'it''s'") = true := by
      decide +kernel
    obtain ⟨tree, e, hparse, hwithin, hfound⟩ := exists_element hread
    simp only [Bool.and_eq_true, beq_iff_eq] at hfound
    obtain ⟨text, span, rfl⟩ := Element.value?_eq_some hfound.1
    obtain rfl : text = "'it''s'" := hfound.2
    exact ⟨tree, _, span, hparse, hwithin, rfl, strings_decode.2 _ _ hparse _ _ _ hwithin⟩

end Script
end KeywordScope
