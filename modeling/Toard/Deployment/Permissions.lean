/-
**Which changes of a manifest need approval (`diffToolPermissions`).**

The check compares the environment names, the network hosts, the plugin components, the repository
and the command of a stdio server. It does not look at the executables, the clients, the type of the
payload as such, or the URL and the sign-in of a remote server.
-/

import Mathlib.Data.List.Chain
import Toard.Json.RoundTrip
import Toard.Deployment.Manifest

namespace Toard.Deployment

/-! ### The check -/

def stringLe (left right : String) : Bool := decide (codeUnits left ≤ codeUnits right)

def addedValues (previous next : List String) : List String :=
  (next.eraseDups.filter fun value => !previous.contains value).mergeSort stringLe

/-- `JSON.stringify([command, args])`: the command and its arguments as one text. -/
def stdioText (command : String) (args : List String) : List Char :=
  '[' :: Json.writeString command ++ [',', '['] ++
    List.intercalate [','] (args.map Json.writeString) ++ [']', ']']

def stdioIdentity : ToolDeploymentPayload → Option (List Char)
  | .mcpStdio command args _ _ => some (stdioText command args)
  | _ => none

def componentKeys : ToolDeploymentPayload → List String
  | .plugin components => components.map componentKey
  | _ => []

structure ToolPermissionDiff where
  approvalRequired : Bool
  addedEnv : List String
  addedHosts : List String
  sourceChanged : Bool
  commandChanged : Bool
  componentsAdded : List String
deriving DecidableEq

def diffToolPermissions (previous next : ToolDeploymentManifest) : ToolPermissionDiff :=
  let addedEnv := addedValues previous.permissions.env next.permissions.env
  let addedHosts := addedValues previous.permissions.networkHosts next.permissions.networkHosts
  let componentsAdded := addedValues (componentKeys previous.payload) (componentKeys next.payload)
  let sourceChanged := previous.source.provider != next.source.provider ||
    previous.source.repository != next.source.repository
  let commandChanged := stdioIdentity previous.payload != stdioIdentity next.payload
  { approvalRequired := 0 < addedEnv.length || 0 < addedHosts.length ||
      0 < componentsAdded.length || sourceChanged || commandChanged
    addedEnv, addedHosts, sourceChanged, commandChanged, componentsAdded }

/-! ### The texts it compares -/

theorem addedValues_eq_nil {previous next : List String} :
    addedValues previous next = [] ↔ next ⊆ previous := by
  have empty : addedValues previous next = [] ↔
      (next.eraseDups.filter fun value => !previous.contains value) = [] := by
    rw [← List.length_eq_zero_iff, addedValues, List.length_mergeSort, List.length_eq_zero_iff]
  rw [empty, List.filter_eq_nil_iff]
  constructor
  · intro none value among
    have known := none value (List.mem_eraseDups.mpr among)
    simpa using known
  · intro within value among
    simpa using within (List.mem_eraseDups.mp among)

/-- The text of a list of arguments, up to the two closing brackets. -/
def argsText (args : List String) : List Char :=
  List.intercalate [','] (args.map Json.writeString) ++ [']', ']']

theorem argsText_cons (first : String) (rest : List String) : argsText (first :: rest)
    = Json.writeString first ++ (if rest = [] then [']', ']'] else ',' :: argsText rest) := by
  cases rest with
  | nil => simp [argsText, List.intercalate]
  | cons second rest =>
    rw [if_neg (List.cons_ne_nil _ _), argsText, List.map_cons, List.map_cons,
      List.intercalate_cons_cons, ← List.map_cons]
    simp [argsText]

theorem argsText_inj {left right : List String} (same : argsText left = argsText right) :
    left = right := by
  induction left generalizing right with
  | nil =>
    cases right with
    | nil => rfl
    | cons first rest =>
      rw [argsText_cons] at same
      simp [argsText, List.intercalate, Json.writeString] at same
  | cons first rest ih =>
    cases right with
    | nil =>
      rw [argsText_cons] at same
      simp [argsText, List.intercalate, Json.writeString] at same
    | cons first' rest' =>
      rw [argsText_cons, argsText_cons] at same
      obtain ⟨rfl, tails⟩ := Json.writeString_append_inj same
      by_cases last : rest = [] <;> by_cases last' : rest' = []
      · rw [last, last']
      · simp [last, last'] at tails
      · simp [last, last'] at tails
      · rw [if_neg last, if_neg last', List.cons.injEq] at tails
        rw [ih tails.2]

/-- **The compared text tells the commands and the arguments apart.** -/
theorem stdioText_inj {command command' : String} {args args' : List String}
    (same : stdioText command args = stdioText command' args') :
    command = command' ∧ args = args' := by
  have opened : Json.writeString command ++ (',' :: '[' :: argsText args)
      = Json.writeString command' ++ (',' :: '[' :: argsText args') := by
    simpa [stdioText, argsText] using same
  obtain ⟨sameCommand, same⟩ := Json.writeString_append_inj opened
  rw [List.cons.injEq, List.cons.injEq] at same
  exact ⟨sameCommand, argsText_inj same.2.2⟩

theorem componentKey_inj {left right : PluginComponent}
    (same : componentKey left = componentKey right) : left = right := by
  obtain ⟨type, key⟩ := left
  obtain ⟨type', key'⟩ := right
  have texts : type.text.toList ++ ':' :: key.toList = type'.text.toList ++ ':' :: key'.toList := by
    simpa [componentKey] using congrArg String.toList same
  have long (type : ComponentType) : 5 ≤ type.text.toList.length := by cases type <;> decide
  have types : type = type' := by
    have starts := congrArg (List.take 5) texts
    rw [List.take_append_of_le_length (long type), List.take_append_of_le_length (long type')]
      at starts
    clear texts same
    revert starts
    cases type <;> cases type' <;> decide
  subst types
  rw [List.append_cancel_left_eq, List.cons.injEq] at texts
  rw [String.toList_inj.mp texts.2]

/-! ### What a version may newly do -/

def ToolDeploymentPayload.components : ToolDeploymentPayload → List PluginComponent
  | .plugin components => components
  | _ => []

inductive PayloadType where
  | skill
  | mcpStdio
  | mcpHttp
  | plugin
deriving DecidableEq

def ToolDeploymentPayload.type : ToolDeploymentPayload → PayloadType
  | .skill .. => .skill
  | .mcpStdio .. => .mcpStdio
  | .mcpHttp .. => .mcpHttp
  | .plugin .. => .plugin

def ToolDeploymentPayload.command : ToolDeploymentPayload → Option (String × List String)
  | .mcpStdio command args _ _ => some (command, args)
  | _ => none

def ToolDeploymentPayload.remote : ToolDeploymentPayload → Option (String × HttpAuth)
  | .mcpHttp url auth _ => some (url, auth)
  | _ => none

/-- Something that the next version grants or reaches and the previous one did not. -/
inductive Escalation (previous next : ToolDeploymentManifest) : Prop where
  | env (name : String) (asked : name ∈ next.permissions.env)
      (unlisted : name ∉ previous.permissions.env)
  | networkHost (host : String) (asked : host ∈ next.permissions.networkHosts)
      (unlisted : host ∉ previous.permissions.networkHosts)
  | executable (command : String) (asked : command ∈ next.permissions.executables)
      (unlisted : command ∉ previous.permissions.executables)
  | command (run : String × List String) (now : next.payload.command = some run)
      (other : previous.payload.command ≠ some run)
  | type (other : previous.payload.type ≠ next.payload.type)
  | remote (server : String × HttpAuth) (now : next.payload.remote = some server)
      (other : previous.payload.remote ≠ some server)
  | component (component : PluginComponent) (among : component ∈ next.payload.components)
      (absent : component ∉ previous.payload.components)
  | repository (other : previous.source.provider ≠ next.source.provider ∨
      previous.source.repository ≠ next.source.repository)
  | client (client : ToolCatalogClient) (served : client ∈ previous.clients)
      (dropped : client ∉ next.clients)

structure Within (previous next : ToolDeploymentManifest) : Prop where
  env : next.permissions.env ⊆ previous.permissions.env
  networkHosts : next.permissions.networkHosts ⊆ previous.permissions.networkHosts
  components : next.payload.components ⊆ previous.payload.components
  provider : previous.source.provider = next.source.provider
  repository : previous.source.repository = next.source.repository
  command : previous.payload.command = next.payload.command

structure KeepsTheRest (previous next : ToolDeploymentManifest) : Prop where
  executables : next.permissions.executables ⊆ previous.permissions.executables
  clients : previous.clients ⊆ next.clients
  type : previous.payload.type = next.payload.type
  remote : previous.payload.remote = next.payload.remote

structure NoNewRights (previous next : ToolDeploymentManifest) : Prop
    extends Within previous next, KeepsTheRest previous next

theorem componentKeys_subset_iff {previous next : ToolDeploymentPayload} :
    componentKeys next ⊆ componentKeys previous ↔ next.components ⊆ previous.components := by
  have keys (payload : ToolDeploymentPayload) :
      componentKeys payload = payload.components.map componentKey := by
    cases payload <;> rfl
  rw [keys, keys]
  constructor
  · intro within component among
    obtain ⟨other, known, same⟩ := List.mem_map.mp (within (List.mem_map_of_mem among))
    exact componentKey_inj same ▸ known
  · exact fun within => List.map_subset componentKey within

theorem stdioIdentity_eq_iff {previous next : ToolDeploymentPayload} :
    stdioIdentity previous = stdioIdentity next ↔ previous.command = next.command := by
  have identity (payload : ToolDeploymentPayload) :
      stdioIdentity payload = payload.command.map fun run => stdioText run.1 run.2 := by
    cases payload <;> rfl
  rw [identity, identity]
  refine Option.map_injective ?_ |>.eq_iff
  rintro ⟨command, args⟩ ⟨command', args'⟩ same
  obtain ⟨rfl, rfl⟩ := stdioText_inj same
  rfl

theorem command_isSome (payload : ToolDeploymentPayload) :
    payload.command.isSome = decide (payload.type = .mcpStdio) := by
  cases payload <;> rfl

theorem remote_isSome (payload : ToolDeploymentPayload) :
    payload.remote.isSome = decide (payload.type = .mcpHttp) := by
  cases payload <;> rfl

theorem same_of_isSome {α : Type} {left right : Option α} (both : left.isSome = right.isSome)
    (follows : ∀ value, right = some value → left = some value) : left = right := by
  cases right with
  | none => simpa using both
  | some value => exact follows value rfl

section Pair

variable {previous next : ToolDeploymentManifest}

/-- **The check asks for no approval exactly if the compared rights do not grow.** -/
theorem approvalRequired_eq_false_iff :
    (diffToolPermissions previous next).approvalRequired = false ↔ Within previous next := by
  have unchanged : (diffToolPermissions previous next).approvalRequired = false ↔
      addedValues previous.permissions.env next.permissions.env = [] ∧
      addedValues previous.permissions.networkHosts next.permissions.networkHosts = [] ∧
      addedValues (componentKeys previous.payload) (componentKeys next.payload) = [] ∧
      (previous.source.provider = next.source.provider ∧
        previous.source.repository = next.source.repository) ∧
      stdioIdentity previous.payload = stdioIdentity next.payload := by
    simp [diffToolPermissions, and_assoc]
  rw [unchanged, addedValues_eq_nil, addedValues_eq_nil, addedValues_eq_nil,
    componentKeys_subset_iff, stdioIdentity_eq_iff]
  constructor
  · rintro ⟨env, hosts, components, ⟨provider, repository⟩, command⟩
    exact ⟨env, hosts, components, provider, repository, command⟩
  · rintro ⟨env, hosts, components, provider, repository, command⟩
    exact ⟨env, hosts, components, ⟨provider, repository⟩, command⟩

/-- **A version escalates exactly if a compared right grows or something else changes.** -/
theorem escalation_iff :
    Escalation previous next ↔ ¬ NoNewRights previous next := by
  constructor
  · rintro escalates ⟨within, keeps⟩
    cases escalates with
    | env name asked unlisted => exact unlisted (within.env asked)
    | networkHost host asked unlisted => exact unlisted (within.networkHosts asked)
    | executable command asked unlisted => exact unlisted (keeps.executables asked)
    | command run now other => exact other (within.command.trans now)
    | type other => exact other keeps.type
    | remote server now other => exact other (keeps.remote.trans now)
    | component component among absent => exact absent (within.components among)
    | repository other =>
      rcases other with other | other
      · exact other within.provider
      · exact other within.repository
    | client client served dropped => exact dropped (keeps.clients served)
  · intro grows
    by_contra calm
    have type : previous.payload.type = next.payload.type := by
      by_contra other
      exact calm (.type other)
    have kept : ∀ {α : Type} {left right : List α}, (∀ value ∈ right, value ∉ left → False) →
        right ⊆ left := fun all value among => by_contra fun absent => all value among absent
    refine grows ⟨⟨?_, ?_, ?_, ?_, ?_, ?_⟩, ⟨?_, ?_, type, ?_⟩⟩
    · exact kept fun name asked unlisted => calm (.env name asked unlisted)
    · exact kept fun host asked unlisted => calm (.networkHost host asked unlisted)
    · exact kept fun component among absent => calm (.component component among absent)
    · exact by_contra fun other => calm (.repository (.inl other))
    · exact by_contra fun other => calm (.repository (.inr other))
    · refine same_of_isSome ?_ fun run now => by_contra fun other => calm (.command run now other)
      rw [command_isSome, command_isSome, type]
    · exact kept fun command asked unlisted => calm (.executable command asked unlisted)
    · exact kept fun client served dropped => calm (.client client served dropped)
    · refine same_of_isSome ?_ fun server now =>
        by_contra fun other => calm (.remote server now other)
      rw [remote_isSome, remote_isSome, type]

/-- **The exact gap of the check.** An escalation never passes unasked exactly if a compared right
grows as well, or what the check does not look at is kept. -/
theorem escalation_asks_iff :
    (Escalation previous next → (diffToolPermissions previous next).approvalRequired = true) ↔
      ¬ Within previous next ∨ KeepsTheRest previous next := by
  rw [escalation_iff, ← Bool.not_eq_false, approvalRequired_eq_false_iff]
  constructor
  · intro asks
    by_contra missed
    rw [not_or, not_not] at missed
    exact asks (fun calm => missed.2 calm.toKeepsTheRest) missed.1
  · rintro (grows | keeps) escalates
    · exact grows
    · exact fun within => escalates ⟨within, keeps⟩

end Pair

/-! ### Chains of versions -/

theorem Within.refl (manifest : ToolDeploymentManifest) : Within manifest manifest :=
  ⟨fun _ => id, fun _ => id, fun _ => id, rfl, rfl, rfl⟩

section Chains

variable {first second third : ToolDeploymentManifest}

theorem Within.trans (left : Within first second) (right : Within second third) :
    Within first third where
  env := List.Subset.trans right.env left.env
  networkHosts := List.Subset.trans right.networkHosts left.networkHosts
  components := List.Subset.trans right.components left.components
  provider := left.provider.trans right.provider
  repository := left.repository.trans right.repository
  command := left.command.trans right.command

theorem KeepsTheRest.trans (left : KeepsTheRest first second) (right : KeepsTheRest second third) :
    KeepsTheRest first third where
  executables := List.Subset.trans right.executables left.executables
  clients := List.Subset.trans left.clients right.clients
  type := left.type.trans right.type
  remote := left.remote.trans right.remote

theorem NoNewRights.refl (manifest : ToolDeploymentManifest) : NoNewRights manifest manifest :=
  ⟨Within.refl manifest, fun _ => id, fun _ => id, rfl, rfl⟩

theorem NoNewRights.trans (left : NoNewRights first second) (right : NoNewRights second third) :
    NoNewRights first third :=
  ⟨left.toWithin.trans right.toWithin, left.toKeepsTheRest.trans right.toKeepsTheRest⟩

end Chains

/-- **A chain of steps without approval needs none as a whole**, nor does any part of it. -/
theorem approval_chain {versions : List ToolDeploymentManifest}
    (steps : versions.IsChain fun previous next =>
      (diffToolPermissions previous next).approvalRequired = false) :
    versions.Pairwise fun previous next =>
      (diffToolPermissions previous next).approvalRequired = false := by
  simp only [approvalRequired_eq_false_iff] at steps ⊢
  have : Trans Within Within Within := ⟨Within.trans⟩
  exact List.isChain_iff_pairwise.mp steps

end Toard.Deployment
