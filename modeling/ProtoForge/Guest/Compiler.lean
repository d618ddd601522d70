import ProtoForge.Guest.Executor
import ProtoForge.Resolution.Closure
import ProtoForge.World

/-!
# The guest compiler

A guest that writes the descriptors of the files named by its arguments. It
knows the files of its view.
-/
namespace ProtoForge.Guest

/-- A compiler that runs as a guest. -/
structure Compiler where
  image : Image
  limits : Limits
  program : String
  command : String
  view : Staging.View

namespace Compiler

/-- The compiler of a configuration over a view. -/
def ofConfig (image : Image) (c : Settings.SandboxConfig) (view : Staging.View) : Compiler :=
  ⟨image, .ofConfig c, c.programName, c.descriptorCommand, view⟩

/-- The descriptors that a guest wrote. -/
def readSet (c : Compiler) (b : Bytes) : Except Failure (List FileDescriptor) :=
  (decodeDescriptorSet b).mapError (.decode c.program "FileDescriptorSet")

/-- Compiles files together. -/
def compile (c : Compiler) (names : List String) : RunAction (List FileDescriptor) := do
  let b ← run c.limits c.image (c.program :: c.command :: names) [] c.view
  ExceptT.mk (pure (c.readSet b))

/-- The compiler as a source of descriptors. -/
def source {ε : Type} (c : Compiler) : Resolution.DescriptorSource (World ε) where
  locate name := pure (c.view.contains name)
  compile names := WorldAction.onDisk (c.compile names)

end Compiler

end ProtoForge.Guest
