/-!
# Splitting characters

`splitAtChar` cuts a list at every occurrence of one character, which belongs to no piece;
`linesWithEnd` cuts it after every line feed, which stays with its line.
-/
namespace TextTemplate

/-- The pieces between the occurrences of a character, one more than it occurs. -/
def splitAtChar (sep : Char) : List Char → List (List Char)
  | [] => [[]]
  | c :: cs =>
    if c = sep then [] :: splitAtChar sep cs
    else
      match splitAtChar sep cs with
      | [] => [[c]]
      | piece :: pieces => (c :: piece) :: pieces

/-- The lines with their line feeds. What follows the last line feed is a line if it is not empty.
-/
def linesWithEnd : List Char → List (List Char)
  | [] => []
  | c :: cs =>
    if c = '\n' then [c] :: linesWithEnd cs
    else
      match linesWithEnd cs with
      | [] => [[c]]
      | line :: lines => (c :: line) :: lines

/-- The line without its ending, which is a line feed and a carriage return directly before it. -/
def withoutEnd (line : List Char) : List Char :=
  match line.reverse with
  | '\n' :: '\r' :: rest => rest.reverse
  | '\n' :: rest => rest.reverse
  | _ => line

end TextTemplate
