/-
**The local collection policy (`collection_scope.rs`).**

A policy says, for each provider, which projects' records may leave the computer. `provider` picks
the rule of one provider and `allows` judges one record by its local project; the queue asks the
same question in SQL, and `projectPredicate_queryParameters` says that the two agree.

A set of project ids is a `Finset`, and the rules of the providers are the entries of the sorted
map. The policy's fingerprint is the SHA-256 of its serialisation: a parameter of the functions
that compare it.
-/

import Mathlib.Data.Finset.Card

namespace Toard.Shim

def PROVIDERS : List String :=
  ["claude_code", "codex", "cursor", "gemini", "qwen"]

inductive ScopeMode where
  | all
  | custom
  | paused
deriving DecidableEq

inductive ProviderScope where
  | all
  | off
  | include (projects : Finset String)
  | exclude (projects : Finset String)
deriving DecidableEq

namespace ProviderScope

def isOff : ProviderScope → Bool
  | .off => true
  | _ => false

def isAll : ProviderScope → Bool
  | .all => true
  | _ => false

def queryParameters : ProviderScope → Nat × Finset String
  | .all => (0, ∅)
  | .off => (1, ∅)
  | .include projects => (2, projects)
  | .exclude projects => (3, projects)

def allows (scope : ProviderScope) (project : Option String) : Bool :=
  match scope with
  | .all => true
  | .off => false
  | .include projects => project.any fun id => decide (id ∈ projects)
  -- Unknown identity is not evidence that a record is outside an exclusion.
  | .exclude projects => project.any fun id => decide (id ∉ projects)

end ProviderScope

/-- `PROJECT_PREDICATE`, the condition of the queue's SQL on `project_id`. -/
def projectPredicate (mode : Nat) (projects : Finset String) (project : Option String) : Bool :=
  mode == 0 || match project with
    | none => false
    | some id => (mode == 2 && decide (id ∈ projects)) || (mode == 3 && decide (id ∉ projects))

/-- **The SQL condition is the policy's rule.** -/
theorem projectPredicate_queryParameters (scope : ProviderScope) (project : Option String) :
    projectPredicate scope.queryParameters.1 scope.queryParameters.2 project
      = scope.allows project := by
  match scope, project with
  | .all, _ => rfl
  | .off, none => rfl
  | .off, some _ => rfl
  | .include _, none => rfl
  | .include projects, some id => exact (Bool.or_false _).trans (Bool.true_and _)
  | .exclude _, none => rfl
  | .exclude projects, some id => exact (Bool.true_and _)

structure CollectionScope where
  schemaVersion : Nat
  mode : ScopeMode
  providers : List (String × ProviderScope)
deriving DecidableEq

namespace CollectionScope

def default : CollectionScope :=
  ⟨1, .all, []⟩

def validProject (id : String) : Bool :=
  id.utf8ByteSize == 64 &&
    id.toList.all fun c => c.isDigit || ('a' ≤ c && c ≤ 'f')

def ruleSize : ProviderScope → Nat
  | .include projects | .exclude projects => projects.card
  | _ => 0

def validRule : ProviderScope → Prop
  | .include projects | .exclude projects => ∀ id ∈ projects, validProject id = true
  | _ => True

instance : DecidablePred validRule := fun rule => by
  cases rule <;> unfold validRule <;> infer_instance

/-- The loop over the rules, with the number of projects seen so far. -/
def checkRules : Nat → List (String × ProviderScope) → Except String Nat
  | total, [] => .ok total
  | total, (provider, rule) :: rules =>
    if ¬ PROVIDERS.contains provider then .error "unknown collection provider"
    else if ¬ validRule rule then .error "invalid local project identity"
    else checkRules (total + ruleSize rule) rules

def validate (scope : CollectionScope) : Except String Unit :=
  if scope.schemaVersion ≠ 1 then .error "unsupported collection policy version"
  else if scope.mode ≠ .custom ∧ scope.providers ≠ [] then .error "unexpected provider rules"
  else match checkRules 0 scope.providers with
    | .error error => .error error
    | .ok total => if total > 256 then .error "too many project rules" else .ok ()

/-- The rule of one provider; a policy of another version lets nothing out. -/
def provider (scope : CollectionScope) (key : String) : ProviderScope :=
  if scope.schemaVersion ≠ 1 then .off
  else match scope.mode with
    | .all => .all
    | .paused => .off
    | .custom => (scope.providers.lookup key).getD .off

def isUnrestricted (scope : CollectionScope) : Bool :=
  scope.schemaVersion == 1 && scope.mode == .all && scope.providers.isEmpty

end CollectionScope

end Toard.Shim
