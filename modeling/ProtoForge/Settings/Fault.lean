import ProtoForge.Document.ReadFault
import ProtoForge.Files.Fault
import ProtoForge.Scan.Policy

/-!
# Faults of settings

Why settings cannot be loaded or accepted.
-/
namespace ProtoForge.Settings

/-- The wording of a policy that does not parse. -/
def policyMessage (value : String) (fault : Scan.PolicyFault) : String :=
  "Invalid scan policy '" ++ value ++ "': " ++ fault.message

/-- Why settings cannot be loaded. -/
inductive LoadFault where
  | unparsable
  | notFound (name : String)
  | unknownFormat (path : String)
  | illegible (fault : Files.Fault)
  | strayIndex (key : String)
  | unreadable (fault : Document.ReadFault)
  deriving DecidableEq, Repr

/-- The wording of a fault. -/
def LoadFault.message : LoadFault → String
  | unparsable => "TOML parse error"
  | notFound name => "configuration file \"" ++ name ++ "\" not found"
  | unknownFormat path =>
      "configuration file \"" ++ path ++ "\" is not of a registered file format"
  | illegible fault => fault.message
  | strayIndex key => "index out of range in key `" ++ key ++ "`"
  | unreadable fault => fault.message

/-- Why settings that were read are not accepted. -/
inductive ConfigFault where
  | minimumAboveMaximum (minimum maximum : Nat)
  | maximumAboveLimit (maximum limit : Nat)
  | emptyProgram
  | emptyDescriptorSetName
  | filterKey (key : String)
  | glob (message : String)
  deriving DecidableEq, Repr

/-- The wording of a fault. -/
def ConfigFault.message : ConfigFault → String
  | minimumAboveMaximum minimum maximum =>
      s!"sandbox.min_memory_pages ({minimum}) exceeds sandbox.max_memory_pages ({maximum})"
  | maximumAboveLimit maximum limit =>
      s!"sandbox.max_memory_pages ({maximum}) exceeds the wasm32 limit of {limit}"
  | emptyProgram => "sandbox.program_name and sandbox.descriptor_command must not be empty"
  | emptyDescriptorSetName => "descriptor_set.name must not be empty"
  | filterKey key => "scan filter key '" ++ key ++ "' is not a group:artifact id"
  | glob message => message

end ProtoForge.Settings
