/-!
# Lines

A text as lines that end in a line feed or a carriage return with a line
feed. The last line needs no end, and an empty last line does not count.
-/
namespace ProtoForge.Text

/-- A line without the carriage return of its end. -/
def dropReturn (line : List Char) : List Char :=
  if line.getLast? = some '\r' then line.dropLast else line

/-- The lines of a text; `line` holds the characters of the current one, last first. -/
def splitLines (line : List Char) : List Char → List (List Char)
  | [] => if line.isEmpty then [] else [line.reverse]
  | c :: rest =>
      if c = '\n' then dropReturn line.reverse :: splitLines [] rest
      else splitLines (c :: line) rest

/-- The lines of a text, without their ends. -/
def lines (s : String) : List String := (splitLines [] s.toList).map String.ofList

/-- Each line ended by a line feed. -/
def unlines (ls : List String) : String := String.join (ls.map (· ++ "\n"))

theorem lines_empty : lines "" = [] := rfl

end ProtoForge.Text
