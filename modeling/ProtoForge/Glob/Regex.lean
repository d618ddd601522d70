import ProtoForge.Glob.Pattern

/-!
# Patterns as regular expressions

A pattern that is more than a fixed text is matched by way of a regular
expression, which must not nest too deeply. Groups, alternations, repetitions,
classes, and sequences of two or more parts each count as a level.
-/
namespace ProtoForge.Glob

/-- How deep regular expressions may nest. -/
def maxLevels : Nat := 250

/-- The levels of a sequence whose parts have given levels. -/
def sequenceLevels : List Nat → Nat
  | [] => 0
  | [n] => n
  | ns => 1 + ns.foldl max 0

/-- The levels of a choice between sequences. -/
def choiceLevels : List Nat → Nat
  | [] => 0
  | [n] => n
  | ns => 1 + ns.foldl max 0

/-- The number of items of a class. -/
def classItems (ranges : List (Char × Char)) : Nat :=
  ranges.foldl (fun n r =>
    n + if r.1 = r.2 then r.1.utf8Size else r.1.utf8Size + r.2.utf8Size - 1) 0

mutual

/-- The levels of what a part stands for, one number for each member of a sequence. -/
def Part.levels : Part → List Nat
  | .literal c => List.replicate c.utf8Size 0
  | .any => [1]
  | .zeroOrMore => [2]
  | .recursivePrefix => [4]
  | .recursiveSuffix => [0, 1]
  | .recursiveBetween => [4]
  | .charClass _ ranges => [if 1 < classItems ranges then 2 else 1]
  | .alternates branches => if allVoid branches then [] else [1 + choiceLevels (branchLevels branches)]

/-- The levels of branches that are not empty. -/
def branchLevels : List (List Part) → List Nat
  | [] => []
  | b :: bs => (if partsVoid b then [] else [sequenceLevels (partsLevels b)]) ++ branchLevels bs

/-- The levels of the members of a sequence of parts. -/
def partsLevels : List Part → List Nat
  | [] => []
  | p :: ps => p.levels ++ partsLevels ps

end

/-- The levels of a whole pattern: it stands between two marks for the ends of a path. -/
def patternLevels (pattern : List Part) : Nat := sequenceLevels (0 :: partsLevels pattern ++ [0])

/-- The form of a byte: one that has a meaning in regular expressions gets a backslash. -/
def byteText (b : UInt8) : String :=
  let c := Char.ofNat b.toNat
  if 128 ≤ b then "\\x" ++ (Bytes.toHex [b]).toUpper
  else if "\\.+*?()|[]\x7b\x7d^$#&-~".contains c then "\\" ++ String.singleton c
  else String.singleton c

/-- The form of a character. -/
def charText (c : Char) : String :=
  String.join ((Bytes.ofText (String.singleton c)).map byteText)

mutual

/-- The regular expression of a part. -/
def Part.regex : Part → String
  | .literal c => charText c
  | .any => "[^/]"
  | .zeroOrMore => "[^/]*"
  | .recursivePrefix => "(?:/?|.*/)"
  | .recursiveSuffix => "/.*"
  | .recursiveBetween => "(?:/|/.*/)"
  | .charClass negated ranges =>
      let item (r : Char × Char) : String :=
        if r.1 = r.2 then charText r.1 else charText r.1 ++ "-" ++ charText r.2
      "[" ++ (if negated then "^" else "") ++ String.join (ranges.map item) ++ "]"
  | .alternates branches =>
      if allVoid branches then "" else "(?:" ++ "|".intercalate (branchRegexes branches) ++ ")"

/-- The regular expressions of branches that are not empty. -/
def branchRegexes : List (List Part) → List String
  | [] => []
  | b :: bs => (if partsVoid b then [] else [partsRegex b]) ++ branchRegexes bs

/-- The regular expression of a sequence of parts. -/
def partsRegex : List Part → String
  | [] => ""
  | p :: ps => p.regex ++ partsRegex ps

end

/-- The regular expression of a whole pattern. -/
def patternRegex (pattern : List Part) : String := "(?-u)^" ++ partsRegex pattern ++ "$"

end ProtoForge.Glob
