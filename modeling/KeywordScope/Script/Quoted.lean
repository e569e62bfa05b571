/-!
# Quoted strings

In double quotes a backtick escapes the next character, and a doubled quote stands for one quote.
In single quotes only the doubled quote is special.

* `Quoted.read?`: the value of the string at the front of a text, and what follows its last quote.
* `Quoted.read?_shorter`: a string takes at least its quotes.
-/

namespace KeywordScope
namespace Script
namespace Quoted

/-- The character that a backtick and `c` stand for. -/
def escape (c : Char) : Char :=
  match c with
  | 'n' => '\n'
  | 't' => '\t'
  | 'r' => '\r'
  | '0' => '\x00'
  | c => c

/-- The value of a double-quoted string from behind its first quote, and what follows its last
one. -/
def readDouble? : List Char → Option (List Char × List Char)
  | [] => none
  | '\x22' :: '\x22' :: rest => (readDouble? rest).map fun (value, rest) => ('\x22' :: value, rest)
  | '\x22' :: rest => some ([], rest)
  | '\x60' :: c :: rest => (readDouble? rest).map fun (value, rest) => (escape c :: value, rest)
  | ['\x60'] => none
  | c :: rest => (readDouble? rest).map fun (value, rest) => (c :: value, rest)

/-- The value of a single-quoted string from behind its first quote, and what follows its last
one. -/
def readSingle? : List Char → Option (List Char × List Char)
  | [] => none
  | '\x27' :: '\x27' :: rest => (readSingle? rest).map fun (value, rest) => ('\x27' :: value, rest)
  | '\x27' :: rest => some ([], rest)
  | c :: rest => (readSingle? rest).map fun (value, rest) => (c :: value, rest)

/-- The value of the string at the front of a text, and what follows its last quote. -/
def read? : List Char → Option (List Char × List Char)
  | '\x22' :: rest => readDouble? rest
  | '\x27' :: rest => readSingle? rest
  | _ => none

theorem readDouble?_shorter {cs value rest : List Char} (h : readDouble? cs = some (value, rest)) :
    rest.length < cs.length := by
  fun_induction readDouble? cs generalizing value rest <;> grind [Option.map_eq_some_iff]

theorem readSingle?_shorter {cs value rest : List Char} (h : readSingle? cs = some (value, rest)) :
    rest.length < cs.length := by
  fun_induction readSingle? cs generalizing value rest <;> grind [Option.map_eq_some_iff]

theorem read?_shorter {cs value rest : List Char} (h : read? cs = some (value, rest)) :
    rest.length < cs.length := by
  unfold read? at h
  split at h
  · exact Nat.lt_succ_of_lt (readDouble?_shorter h)
  · exact Nat.lt_succ_of_lt (readSingle?_shorter h)
  · simp at h

end Quoted
end Script
end KeywordScope
