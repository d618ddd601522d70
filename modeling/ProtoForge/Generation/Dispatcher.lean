import ProtoForge.Generation.Batch
import ProtoForge.Guest.Executor
import ProtoForge.Resolution.Request
import ProtoForge.World

/-!
# Dispatch

All generators answer the same request, in order. Their files are gathered in
one batch; the first generator that fails or whose files conflict with earlier
ones ends the dispatch.
-/
namespace ProtoForge.Generation

/-- A generator that runs as a guest. -/
structure GuestGenerator where
  id : String
  program : String
  image : Guest.Image
  args : List String
  limits : Guest.Limits

/-- A generator with a state of its own. -/
structure HostGenerator (ε : Type) where
  id : String
  generate : Plugin.Request → ExceptT Failure (StateM ε) Plugin.Response

/-- A generator. -/
inductive Generator (ε : Type) where
  | guest (g : GuestGenerator)
  | host (g : HostGenerator ε)

variable {ε : Type}

namespace GuestGenerator

/-- The response that a guest wrote. -/
def readResponse (g : GuestGenerator) (b : Bytes) : Except Failure Plugin.Response :=
  (Plugin.Response.decode b).mapError (.decode g.program "CodeGeneratorResponse")

/-- Asks the guest. -/
def generate (g : GuestGenerator) (request : Plugin.Request) (view : Staging.View) :
    RunAction Plugin.Response := do
  let b ← Guest.run g.limits g.image (g.program :: g.args) request.encode view
  ExceptT.mk (pure (g.readResponse b))

end GuestGenerator

namespace Generator

/-- The id of a generator. -/
def id : Generator ε → String
  | guest g => g.id
  | host g => g.id

/-- Asks a generator. -/
def generate (g : Generator ε) (request : Plugin.Request) (view : Staging.View) :
    WorldAction ε Plugin.Response :=
  match g with
  | guest g => WorldAction.onDisk (g.generate request view)
  | host g => WorldAction.onExtra (g.generate request)

end Generator

/-- Adds the answer of a generator to a batch. -/
def addAnswer (request : Plugin.Request) (view : Staging.View) (b : Batch) (g : Generator ε) :
    WorldAction ε Batch := do
  let response ← g.generate request view
  match b.add g.id response with
  | (.ok (), b') => pure b'
  | (.error f, _) => throw f

/-- The files of all generators. -/
def dispatch (generators : List (Generator ε)) (request : Resolution.CompilationRequest)
    (view : Staging.View) : WorldAction ε Batch :=
  generators.foldlM (addAnswer request.toGeneratorRequest view) .empty

end ProtoForge.Generation
