import ProtoForge.Glob.Rules

/-!
# Path filters

A path passes if the include rules select it, or there are none, and the
exclude rules do not.
-/
namespace ProtoForge.Scan

/-- The include and exclude rules; without rules `none`. -/
structure Filter where
  includes : Option (List Glob.Rule)
  excludes : Option (List Glob.Rule)

/-- Why globs make no rules: one of them is no pattern, or they cannot be applied. -/
inductive GlobFault where
  | line (glob : String) (fault : Glob.RuleFault)
  | rules (fault : Glob.RulesFault)
  deriving DecidableEq, Repr

/-- The wording of a fault. -/
def GlobFault.message : GlobFault → String
  | line glob fault => "invalid glob '" ++ glob ++ "': " ++ fault.message
  | rules fault => fault.message

namespace Filter

/-- A filter that everything passes. -/
def allowAll : Filter := ⟨none, none⟩

/-- The rules of a list of globs. -/
def rules? (globs : List String) : Except GlobFault (Option (List Glob.Rule)) :=
  if globs.isEmpty then .ok none
  else do
    let rules ← globs.mapM fun g =>
      match Glob.Rule.ofLine? g with
      | .ok r => .ok r
      | .error fault => .error (GlobFault.line g fault)
    let rules := rules.filterMap id
    match Glob.rulesFault? rules with
    | some fault => throw (.rules fault)
    | none => pure (some rules)

/-- The filter of two lists of globs. -/
def ofGlobs (includes excludes : List String) : Except GlobFault Filter := do
  let i ← rules? includes
  let e ← rules? excludes
  pure ⟨i, e⟩

/-- Whether a path passes. -/
def passes (f : Filter) (path : String) : Bool :=
  f.includes.all (Glob.selects · path) && !f.excludes.any (Glob.selects · path)

@[simp] theorem passes_allowAll (path : String) : allowAll.passes path = true := rfl

end Filter

end ProtoForge.Scan
