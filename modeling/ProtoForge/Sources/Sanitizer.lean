import ProtoForge.Text.Lines
import ProtoForge.Text.Word

/-!
# Sanitizing

A line that mentions one of a list of options as a whole word is dropped. A
text in which no line does stays as it is; otherwise the kept lines are ended
by single line feeds.
-/
namespace ProtoForge.Sources

/-- Whether a word stands at the start of a text with word boundaries on both sides. -/
def standsAt (word : List Char) (before : Option Char) (rest : List Char) : Bool :=
  let last := if word.isEmpty then before else word.getLast?
  word.isPrefixOf rest && Text.isBoundary before rest.head? &&
    Text.isBoundary last (rest.drop word.length).head?

/-- Whether a word stands anywhere in a text that follows `before`. -/
def mentionsAfter (word : List Char) (before : Option Char) : List Char → Bool
  | [] => standsAt word before []
  | c :: rest => standsAt word before (c :: rest) || mentionsAfter word (some c) rest

/-- Whether a line mentions an option as a whole word. -/
def mentions (option line : String) : Bool := mentionsAfter option.toList none line.toList

/-- The first of several options that a line mentions. -/
def firstMentioned? (options : List String) (line : String) : Option String :=
  options.find? (mentions · line)

/-- A text without the offending lines, and the options that they mentioned first. -/
structure Sanitized where
  content : String
  stripped : List String
  deriving DecidableEq, Repr

/-- Whether any line was dropped. -/
def Sanitized.changed (s : Sanitized) : Bool := !s.stripped.isEmpty

/-- Adds an option to those found, once. -/
def addOnce (found : List String) (option : String) : List String :=
  if found.contains option then found else found ++ [option]

/-- What is added once to a list comes after it, in the order of its first occurrences. -/
theorem foldl_addOnce (found xs : List String) :
    xs.foldl addOnce found = found ++ (xs.filter (!found.contains ·)).eraseDups := by
  induction xs generalizing found with
  | nil => simp
  | cons x xs ih =>
    rw [List.foldl_cons, ih, addOnce]
    by_cases hx : found.contains x = true
    · rw [if_pos hx, List.filter_cons_of_neg (by simp_all)]
    · rw [if_neg hx, List.filter_cons_of_pos (by simp_all), List.eraseDups_cons, List.filter_filter,
        List.append_assoc, List.singleton_append]
      congr 3
      refine List.filter_congr fun y _ => ?_
      rw [Bool.eq_iff_iff]
      simp [and_comm]

theorem foldl_addOnce_nil (xs : List String) : xs.foldl addOnce [] = xs.eraseDups := by
  rw [foldl_addOnce, List.nil_append, List.filter_eq_self.mpr]
  simp

theorem nodup_foldl_addOnce {found : List String} (h : found.Nodup) (xs : List String) :
    (xs.foldl addOnce found).Nodup := by
  induction xs generalizing found with
  | nil => exact h
  | cons x xs ih =>
    refine ih ?_
    rw [addOnce]
    split
    · exact h
    · rename_i hx
      rw [List.nodup_append]
      simpa [h] using fun y hy hyx => hx (by simpa [hyx] using hy)

/-- The options that lines mention first, in order of discovery. -/
def strippedOptions (options : List String) (lines : List String) : List String :=
  (lines.filterMap (firstMentioned? options)).foldl addOnce []

/-- The lines that mention no option. -/
def keptLines (options : List String) (lines : List String) : List String :=
  lines.filter fun l => (firstMentioned? options l).isNone

/-- Drops the lines that mention an option. -/
def sanitize (options : List String) (content : String) : Sanitized :=
  let lines := Text.lines content
  let stripped := strippedOptions options lines
  if stripped.isEmpty then ⟨content, []⟩
  else ⟨"\n".intercalate (keptLines options lines) ++ "\n", stripped⟩

end ProtoForge.Sources
