import KeywordScope.Script.Cursor
import KeywordScope.Script.Quoted

/-!
# Groups

Parentheses, brackets and braces of an expression are kept as written. Inside, groups nest, a
complete string is skipped as one piece, and a quote without a partner is plain text, as in
`(it's)`.

* `Group.close`: skips to behind the delimiter that closes a group.
* `Group.read?`: the group at the front of what is left, if one begins there.
-/

namespace KeywordScope
namespace Script
namespace Group

/-- The delimiter that closes what `c` opens. -/
def closer? (c : Char) : Option Char :=
  match c with
  | '(' => some ')'
  | '{' => some '}'
  | '[' => some ']'
  | _ => none

/-- The character closes groups. -/
def isCloser (c : Char) : Bool :=
  c == ')' || c == '}' || c == ']'

/-- From within groups that are closed by `inner` and then by the delimiters `outer`, the cursor
behind the last of these. Reading fails where another delimiter, or nothing, is found. -/
def close (inner : Char) (outer : List Char) (c : Cursor) : Except Failure Cursor :=
  match _h : c.rest with
  | [] => .error ⟨c, some .unclosedGroup⟩
  | x :: rest =>
    if isCloser x then
      if x = inner then
        match outer with
        | [] => .ok (c.seek rest)
        | next :: outer => close next outer (c.seek rest)
      else .error ⟨c, some .unclosedGroup⟩
    else
      match closer? x with
      | some inner' => close inner' (inner :: outer) (c.seek rest)
      | none =>
        match hs : Quoted.read? (x :: rest) with
        | some (_, rest') =>
          have := Quoted.read?_shorter hs
          close inner outer (c.seek rest')
        | none => close inner outer (c.seek rest)
termination_by c.rest.length
decreasing_by all_goals simp_all

/-- What follows the group at the front of what is left, and whether it is a hashtable: `@` before
a brace. Parentheses may follow `$` or `@`. Nothing is answered where no group begins. -/
def read? (c : Cursor) : Option (Bool × Except Failure Cursor) :=
  match c.rest with
  | '@' :: '{' :: rest => some (true, close '}' [] (c.seek rest))
  | '@' :: '(' :: rest => some (false, close ')' [] (c.seek rest))
  | '$' :: '(' :: rest => some (false, close ')' [] (c.seek rest))
  | '(' :: rest => some (false, close ')' [] (c.seek rest))
  | _ => none

theorem close_shorter {inner : Char} {outer : List Char} {c d : Cursor}
    (h : close inner outer c = .ok d) : d.rest.length < c.rest.length := by
  fun_induction close inner outer c <;> grind [Quoted.read?_shorter, Cursor.seek_rest]

theorem read?_shorter {c d : Cursor} {isTable : Bool} (h : read? c = some (isTable, .ok d)) :
    d.rest.length < c.rest.length := by
  unfold read? at h
  split at h <;> grind [→ close_shorter, Cursor.seek_rest]

end Group
end Script
end KeywordScope
