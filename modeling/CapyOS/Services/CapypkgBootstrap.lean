import CapyOS.Services.Capypkg
import CapyOS.Services.InstallProfile

namespace CapyOS

def profileInstallListContains (list name : Text) : Bool :=
  list ≠ [] ∧ name ≠ [] ∧ name ∈ installListNames installProfileNameMax list

/-- The tables of the package service, with no more in the catalog than it has room for. -/
structure BootstrapTables where
  tables : Capypkg
  available : tables.available.length ≤ capypkgMaxAvailable
  deps : ∀ e ∈ tables.available, e.deps.length ≤ capypkgMaxDeps

/-- A `struct bootstrap_planner`. The order is of catalog indices with their waves. -/
structure BootstrapPlanner where
  isTarget : Finset Nat
  placed : Finset Nat
  depIdx : Nat → List Nat
  order : List (Nat × Nat)
  targetCount : Nat

/-- Targets are placed in a wave. -/
def BootstrapPlanner.place (plan : BootstrapPlanner) (wave : Nat) (nodes : List Nat) : BootstrapPlanner :=
  { plan with order := plan.order ++ nodes.map (·, wave), placed := plan.placed ∪ nodes.toFinset }

namespace Capypkg
variable (s : Capypkg)

def bootstrapCount : Nat := min s.available.length capypkgMaxAvailable

def bootstrapCatalogIndex (name : Text) : Option Nat :=
  if name = [] then none
  else (List.range s.bootstrapCount).find? fun i => s.available[i]?.any fun e => e.name = name

/-- The targets to begin with. -/
def planSelect (p : InstallProfile) : Finset Nat :=
  (Finset.range s.bootstrapCount).filter fun i => s.available[i]?.any fun e =>
    p.kind ≠ .custom || profileInstallListContains p.installList e.name

/-- A dependency of a target, with whether the targets have changed. -/
def pullDependency (t : Finset Nat × Bool) (dep : Text) : Finset Nat × Bool :=
  match s.bootstrapCatalogIndex dep with
  | none => t
  | some d => if d ∈ t.1 then t else (insert d t.1, true)

def pullDependencies (t : Finset Nat × Bool) (i : Nat) : Finset Nat × Bool :=
  if i ∉ t.1 then t
  else
    match s.available[i]? with
    | none => t
    | some e => e.deps.foldl s.pullDependency t

/-- The passes over the catalog, until one changes nothing. -/
def planClose : Nat → Finset Nat → Option (Finset Nat)
  | 0, _ => none
  | fuel + 1, t =>
    match (List.range s.bootstrapCount).foldl s.pullDependencies (t, false) with
    | (t, true) => planClose fuel t
    | (t, false) => some t

/-- The dependencies that a target has to wait for. -/
def planEdges (targets : Finset Nat) (i : Nat) : List Nat :=
  if i ∉ targets then []
  else
    match s.available[i]? with
    | none => []
    | some e =>
      ((e.deps.filter fun dep => (s.findInstalled dep).isNone).filterMap fun dep =>
        (s.bootstrapCatalogIndex dep).filter (· ∈ targets)).take capypkgMaxDeps

/-- The targets that are left. -/
def planRest (plan : BootstrapPlanner) : List Nat :=
  (List.range s.bootstrapCount).filter fun i => i ∈ plan.isTarget ∧ i ∉ plan.placed

/-- The targets that are left and wait for nothing. -/
def planReady (plan : BootstrapPlanner) : List Nat :=
  (s.planRest plan).filter fun i => ∀ k ∈ plan.depIdx i, k ∈ plan.placed

/-- The waves from one on. -/
def planWaves : Nat → Nat → BootstrapPlanner → Option BootstrapPlanner
  | 0, _, _ => none
  | fuel + 1, wave, plan =>
    if plan.targetCount ≤ plan.order.length then some plan
    else if s.planReady plan = [] then some (plan.place wave (s.planRest plan))
    else planWaves fuel (wave + 1) (plan.place wave (s.planReady plan))

/-- `bootstrap_plan_build`, with so many rounds of each loop at most. -/
def bootstrapPlanBuild (fuel : Nat) (p : InstallProfile) : Option BootstrapPlanner :=
  let targets := if p.kind = .custom then s.planClose fuel (s.planSelect p) else some (s.planSelect p)
  match targets with
  | none => none
  | some targets =>
    s.planWaves fuel 0
      { isTarget := targets
        placed := ∅
        depIdx := s.planEdges targets
        order := []
        targetCount := ((List.range s.bootstrapCount).filter fun i =>
          i ∈ targets ∧ s.available[i]?.isSome).length }

end Capypkg

end CapyOS
