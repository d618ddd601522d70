import ProtoForge.Digest.Sha256

/-!
# Framed digests

A sequence of named parts is hashed over one stream in which every name and
every content follows its length, so that no bytes can move from one part to
its neighbour unnoticed.
-/
namespace ProtoForge.Digest

/-- A byte string after its length. -/
def frame (b : Bytes) : Bytes := Bytes.ofNat64 b.length ++ b

/-- The stream of a sequence of named parts. -/
def framed (parts : List (String × Bytes)) : Bytes :=
  parts.flatMap fun part => frame (Bytes.ofText part.1) ++ frame part.2

/-- The hash of a sequence of named parts. -/
def ofParts (parts : List (String × Bytes)) : String := sha256 (framed parts)

/-- The hash of a text. -/
def ofText (s : String) : String := sha256 (Bytes.ofText s)

@[simp] theorem framed_append (xs ys : List (String × Bytes)) :
    framed (xs ++ ys) = framed xs ++ framed ys := by simp [framed]

end ProtoForge.Digest
