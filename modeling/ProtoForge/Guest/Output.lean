import ProtoForge.Bytes
import ProtoForge.Text.Blank

/-!
# Guest output

What a guest program wrote, and how it ended.
-/
namespace ProtoForge.Guest

/-- The two captured streams of a guest. -/
structure CapturedOutput where
  stdout : Bytes := []
  stderr : Bytes := []
  deriving DecidableEq, Repr

/-- Both streams as text, without blanks at their ends. -/
def CapturedOutput.text (o : CapturedOutput) : String :=
  "--- stdout ---\n" ++ Text.trimEnd (Bytes.toTextLossy o.stdout) ++
    "\n--- stderr ---\n" ++ Text.trimEnd (Bytes.toTextLossy o.stderr)

/-- How a guest ended. -/
inductive Outcome where
  | success
  | exit (code : Int)
  | trap (message : String)
  deriving DecidableEq, Repr

/-- A finished run of a guest. -/
structure Execution where
  outcome : Outcome
  output : CapturedOutput
  deriving DecidableEq, Repr

end ProtoForge.Guest
