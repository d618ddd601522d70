/-!
# Read faults

Why a document does not hold a value of the wanted shape.
-/
namespace ProtoForge.Document

/-- One step from the top of a document to a value in it. -/
inductive KeyStep where
  | key (s : String)
  | index (n : Nat)
  deriving DecidableEq, Repr

/-- The text of a place in a document, such as `a.b[1]`: a dot stands between a key
and another one. -/
def keyText : List KeyStep → String
  | [] => ""
  | .key s :: rest =>
      let more := keyText rest
      if more.isEmpty || more.startsWith "[" then s ++ more else s ++ "." ++ more
  | .index n :: rest => "[" ++ toString n ++ "]" ++ keyText rest

/-- Why a document does not hold what is wanted. -/
inductive ReadFault where
  | conversion (found expected : String) (place : List KeyStep) (origin : Option String)
  | shape (found expected : String)
  | range (found expected : String)
  | length (n : Nat) (expected : String)
  | missingField (name : String)
  | unknownVariant (name : String) (known : List String)
  | refused (message : String)
  deriving DecidableEq, Repr

namespace ReadFault

/-- The wording of a fault. -/
def message : ReadFault → String
  | conversion found expected place origin =>
      "invalid type: " ++ found ++ ", expected " ++ expected ++
        (if place.isEmpty then "" else " for key `" ++ keyText place ++ "`") ++
        (origin.map (" in " ++ ·)).getD ""
  | shape found expected => "invalid type: " ++ found ++ ", expected " ++ expected
  | range found expected => "invalid value: " ++ found ++ ", expected " ++ expected
  | length n expected => "invalid length " ++ toString n ++ ", expected " ++ expected
  | missingField name => "missing field `" ++ name ++ "`"
  | unknownVariant name known =>
      "unknown variant `" ++ name ++ "`, expected one of " ++
        ", ".intercalate (known.map fun k => "`" ++ k ++ "`")
  | refused message => message

/-- The fault seen from one step further out; only conversions know their place. -/
def under (step : KeyStep) : ReadFault → ReadFault
  | conversion found expected place origin => conversion found expected (step :: place) origin
  | f => f

end ReadFault

end ProtoForge.Document
