import ProtoForge.Text.Blank
import ProtoForge.Text.Pieces

/-!
# Scan policies

Which packages a scan takes: none, all, or those of a list of
`group:artifact` ids. The written form of a policy reads back as the policy.
-/
namespace ProtoForge.Scan

/-- Which packages are taken. -/
inductive Policy where
  | nothing
  | everything
  | only (ids : List String)
  deriving DecidableEq, Repr

/-- Why a text is no policy. -/
inductive PolicyFault where
  | noIds
  | notAnId (id : String)
  deriving DecidableEq, Repr

/-- The wording of a fault. -/
def PolicyFault.message : PolicyFault → String
  | noIds => "expected 'none', 'all' or a list of group:artifact ids"
  | notAnId id => "'" ++ id ++ "' is not a group:artifact id"

namespace Policy

/-- The id of a package: a group and an artifact with one colon between them. -/
def isPackageId (id : String) : Bool :=
  match Text.pieces ':' id with
  | [group, artifact] => group ≠ "" && artifact ≠ ""
  | _ => false

/-- The items of a list with commas, trimmed, without empty ones. -/
def listed (s : String) : List String :=
  ((Text.pieces ',' s).map Text.trim).filter (· ≠ "")

/-- Reads a policy. -/
def parse (s : String) : Except PolicyFault Policy :=
  let trimmed := Text.trim s
  if trimmed.toLower = "none" then .ok nothing
  else if trimmed.toLower = "all" then .ok everything
  else
    let ids := listed trimmed
    if ids.isEmpty then .error .noIds
    else
      match ids.find? (!isPackageId ·) with
      | some id => .error (.notAnId id)
      | none => .ok (only ids)

/-- The written form of a policy. -/
def text : Policy → String
  | nothing => "none"
  | everything => "all"
  | only ids => ",".intercalate ids

/-- Whether a policy takes the package of an id. -/
def selects : Policy → String → Bool
  | nothing, _ => false
  | everything, _ => true
  | only ids, id => ids.contains id

/-- Whether a policy takes no package at all. -/
def isNone : Policy → Bool
  | nothing => true
  | _ => false

end Policy

end ProtoForge.Scan
