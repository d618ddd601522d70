import ProtoForge.Bytes

/-!
# Glob patterns

A pattern is a sequence of parts matched against the bytes of a path. What is
left of a path after a part is a set of its suffixes; a path matches if
nothing can be left of it.
-/
namespace ProtoForge.Glob

/-- A part of a pattern. Wild cards other than classes and recursive parts stop at a slash. -/
inductive Part where
  | literal (c : Char)
  | any
  | zeroOrMore
  | recursivePrefix
  | recursiveSuffix
  | recursiveBetween
  | charClass (negated : Bool) (ranges : List (Char × Char))
  | alternates (branches : List (List Part))
  deriving Inhabited

/-- The bytes of a class: the bytes of its characters, a range running from
the last byte of its first character to the first byte of its last one. -/
def classByteRanges (ranges : List (Char × Char)) : List (UInt8 × UInt8) :=
  ranges.flatMap fun r =>
    let low := Bytes.ofText (String.singleton r.1)
    let single := low.map fun b => (b, b)
    if r.1 = r.2 then single
    else
      let high := Bytes.ofText (String.singleton r.2)
      let ends := high.map fun b => (b, b)
      match low.getLast?, high.head? with
      | some a, some b => single ++ (a, b) :: ends
      | _, _ => single ++ ends

/-- Whether a byte is in a class. -/
def classHas (negated : Bool) (ranges : List (Char × Char)) (b : UInt8) : Bool :=
  (classByteRanges ranges).any (fun r => r.1 ≤ b && b ≤ r.2) != negated

/-- The byte of a slash. -/
def slash : UInt8 := 47

/-- All suffixes of a path up to and including its next slash. -/
def withinSegment : Bytes → List Bytes
  | [] => [[]]
  | b :: rest => (b :: rest) :: if b = slash then [] else withinSegment rest

/-- All suffixes of a path. -/
def suffixes : Bytes → List Bytes
  | [] => [[]]
  | b :: rest => (b :: rest) :: suffixes rest

/-- All suffixes that follow a slash. -/
def afterSlashes : Bytes → List Bytes
  | [] => []
  | b :: rest => if b = slash then rest :: afterSlashes rest else afterSlashes rest

/-- Suffixes of one path, each length once. -/
def distinct (ss : List Bytes) : List Bytes :=
  ss.foldr (fun s acc => if acc.any (·.length = s.length) then acc else s :: acc) []

/-- What can be left of a path after a literal. -/
def afterLiteral (c : Char) (s : Bytes) : List Bytes :=
  let bytes := Bytes.ofText (String.singleton c)
  if bytes.isPrefixOf s then [s.drop bytes.length] else []

/-- What can be left of a path after a single byte that passes a test. -/
def afterByte (test : UInt8 → Bool) : Bytes → List Bytes
  | b :: rest => if test b then [rest] else []
  | [] => []

mutual

/-- Whether a part adds nothing to a pattern: alternates that are all empty. -/
def Part.isVoid : Part → Bool
  | .alternates branches => allVoid branches
  | _ => false

/-- Whether all parts add nothing. -/
def partsVoid : List Part → Bool
  | [] => true
  | p :: ps => p.isVoid && partsVoid ps

/-- Whether all branches are empty. -/
def allVoid : List (List Part) → Bool
  | [] => true
  | b :: bs => partsVoid b && allVoid bs

end

mutual

/-- What can be left of a path after a part. -/
def Part.after : Part → Bytes → List Bytes
  | .literal c, s => afterLiteral c s
  | .any, s => afterByte (· ≠ slash) s
  | .zeroOrMore, s => withinSegment s
  | .recursivePrefix, s => distinct (s :: afterSlashes s)
  | .recursiveSuffix, s => (afterByte (· = slash) s).flatMap suffixes
  | .recursiveBetween, s => (afterByte (· = slash) s).flatMap fun r => r :: afterSlashes r
  | .charClass negated ranges, s => afterByte (classHas negated ranges) s
  | .alternates branches, s => if allVoid branches then [s] else distinct (afterAny branches s)

/-- What can be left of a path after one of several branches; empty ones do not count. -/
def afterAny : List (List Part) → Bytes → List Bytes
  | [], _ => []
  | b :: bs, s => (if partsVoid b then [] else afterAll b [s]) ++ afterAny bs s

/-- What can be left after a sequence of parts, starting with any of several suffixes. -/
def afterAll : List Part → List Bytes → List Bytes
  | [], ss => ss
  | p :: ps, ss => afterAll ps (distinct (ss.flatMap p.after))

end

/-- Whether a pattern matches a whole path; a lone recursive part matches all. -/
def matchesPath (pattern : List Part) (path : String) : Bool :=
  match pattern with
  | [.recursivePrefix] => true
  | ps => (afterAll ps [Bytes.ofText path]).any List.isEmpty

end ProtoForge.Glob
