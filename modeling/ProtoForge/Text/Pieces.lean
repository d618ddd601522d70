/-!
# Pieces

A text cut at a separator. There is one piece more than there are separators,
and joining the pieces with the separator gives the text back.
-/
namespace ProtoForge.Text

/-- The pieces of a text between separators. -/
def pieces (separator : Char) (s : String) : List String :=
  (s.toList.splitOn separator).map String.ofList

theorem intercalate_splitOn (separator : Char) (s : String) :
    [separator].intercalate (s.toList.splitOn separator) = s.toList :=
  List.intercalate_splitOn separator

theorem pieces_ne_nil (separator : Char) (s : String) : pieces separator s ≠ [] := by
  simp [pieces, List.splitOn_ne_nil]

end ProtoForge.Text
