import SceneCanvas.Text.Blank

/-!
# Tokens

A line of a scene is cut into tokens at white space. Two spellings keep white space inside a
token: `"..."`, whose token is what stands between the quotes, and `[...]`, whose token keeps its
brackets. Either needs a closing delimiter and something between; without that the opening
character is an ordinary one, and the token runs to the next white space.
-/

namespace SceneCanvas.Script

open Text

/-- The text up to the first `close` and what follows it, provided there is such a character and
something before it. -/
def delimited (close : Char) (cs : List Char) : Option (List Char × List Char) :=
  match cs.takeWhile (· != close), cs.dropWhile (· != close) with
  | body@(_ :: _), _ :: rest => some (body, rest)
  | _, _ => none

/-- The token that starts with the non-blank character `c`, and the text after its piece. -/
def takeToken (c : Char) (cs : List Char) : List Char × List Char :=
  let plain := (c :: cs.takeWhile (!isBlank ·), cs.dropWhile (!isBlank ·))
  if c = '"' then (delimited '"' cs).getD plain
  else if c = '[' then
    match delimited ']' cs with
    | some (body, rest) => ('[' :: (body ++ [']']), rest)
    | none => plain
  else plain

/-- What follows a closing delimiter is shorter than what its search started from. -/
theorem length_lt_of_delimited {close : Char} {cs body rest : List Char}
    (h : delimited close cs = some (body, rest)) : rest.length < cs.length := by
  have hlen : cs.length = (cs.takeWhile (· != close)).length
      + (cs.dropWhile (· != close)).length := by
    rw [← List.length_append, List.takeWhile_append_dropWhile]
  unfold delimited at h
  split at h
  · next hd =>
    simp only [Option.some.injEq, Prod.mk.injEq] at h
    obtain ⟨rfl, rfl⟩ := h
    simp_all
    omega
  · simp at h

/-- Taking a token uses up at least its first character. -/
theorem takeToken_length_le (c : Char) (cs : List Char) :
    (takeToken c cs).2.length ≤ cs.length := by
  have hplain : (cs.dropWhile (!isBlank ·)).length ≤ cs.length :=
    (List.dropWhile_sublist _).length_le
  unfold takeToken
  split
  · cases hd : delimited '"' cs with
    | none => simpa using hplain
    | some p =>
      obtain ⟨body, rest⟩ := p
      simpa using Nat.le_of_lt (length_lt_of_delimited hd)
  · split
    · split
      · next hd => exact Nat.le_of_lt (length_lt_of_delimited hd)
      · exact hplain
    · exact hplain

/-- The tokens of a line. -/
def tokens : List Char → List (List Char)
  | [] => []
  | c :: cs =>
    if isBlank c then tokens cs
    else (takeToken c cs).1 :: tokens (takeToken c cs).2
termination_by cs => cs.length
decreasing_by
  · simp
  · have := takeToken_length_le c cs
    simp only [List.length_cons]
    omega

/-- The tokens of a line, as strings. -/
def tokenize (line : String) : List String := (tokens line.toList).map String.ofList

end SceneCanvas.Script
