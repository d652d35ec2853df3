namespace Rollout

-- The lines of a text. A newline ends a line, together with one carriage
-- return right before it; a last line without a newline keeps its carriage
-- return, and an empty text has no line.
def lines : List Char → List (List Char)
  | [] => []
  | '\r' :: '\n' :: rest => [] :: lines rest
  | '\n' :: rest => [] :: lines rest
  | c :: rest =>
    match lines rest with
    | [] => [[c]]
    | line :: more => (c :: line) :: more

-- Every line followed by one newline.
def unlines : List (List Char) → List Char
  | [] => []
  | line :: rest => line ++ '\n' :: unlines rest

end Rollout
