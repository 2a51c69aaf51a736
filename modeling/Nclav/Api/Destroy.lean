import Nclav.Api.Handlers

/-!
# The command that destroys

`nclav destroy` sends a deletion for each enclave and fails if one of the answers is not a clean
one. The enclaves are named on the command line, or they are all that the server lists. Their ids
are put into the path of the request as they are, and an answer whose body cannot be read counts as
one without errors. A request that is not answered ends the command.
-/

namespace Nclav

open Effect

/-- Programs of the command line: they end with a message where they fail. -/
abbrev Cli : Type → Type := ExceptT String Sys

/-- Let a handler answer, and look at its answer. -/
abbrev respond {α : Type} (handler : Api α) : Cli (Except ApiError α) := monadLift handler.run

/-! ## Requests -/

/-- A handler that deletes, with what it takes from the URL. -/
inductive Endpoint : Type where
  | deleteEnclave (id : EnclaveId) (resourcesOnly : Bool)
  | deletePartition (id : EnclaveId) (pid : PartitionId)

/-- The way of a DELETE, from the text that `reqwest` makes a URL of, behind the base, to the handler
that `axum` chooses; and whether the body of its answer can be read. -/
structure Transport : Type where
  route : String → Option Endpoint
  readable : String → Bool

/-- A text that is one segment of a path and stays what it is in a URL. -/
structure PathSegment (s : String) : Prop where
  ne_empty : s ≠ ""
  ne_dots : s ≠ "." ∧ s ≠ ".."
  unreserved : ∀ c ∈ s.toList, c.isAlphanum = true ∨ c ∈ ['-', '.', '_', '~']

/-- With ids that are such texts a request arrives where it is to. -/
structure Transport.Lawful (transport : Transport) : Prop where
  enclave : ∀ id, PathSegment id →
    transport.route s!"/enclaves/{id}" = some (.deleteEnclave ⟨id⟩ false)
  resources : ∀ id, PathSegment id →
    transport.route s!"/enclaves/{id}?resources_only=true" = some (.deleteEnclave ⟨id⟩ true)
  partition : ∀ id pid, PathSegment id → PathSegment pid →
    transport.route s!"/enclaves/{id}/partitions/{pid}" = some (.deletePartition ⟨id⟩ ⟨pid⟩)

/-- The errors that are read in the body of an answer. -/
def Transport.errors (transport : Transport) (path : String) (report : DestroyReport) : List String :=
  if transport.readable path then report.errors else []

/-- Send a DELETE. -/
def sendDelete (transport : Transport) (state : AppState) (path : String) :
    Cli (Except ApiError (List String)) := do
  let answer ← match transport.route path with
    | some (.deleteEnclave id resourcesOnly) => respond (deleteEnclave state id resourcesOnly)
    | some (.deletePartition id pid) => respond (deletePartition state id pid)
    | none => return .error (.notFound "")
  return answer.map (transport.errors path)

/-! ## The command -/

/-- `Display` of the statuses that the handlers answer with. -/
def statusText : Nat → String
  | 404 => "404 Not Found"
  | 500 => "500 Internal Server Error"
  | n => toString n

/-- The lines of the standard input, an error for one that cannot be read. -/
abbrev Lines : Type := List (Except String String)

/-- `confirm_destructive`, and the lines that are left. -/
def confirmDestructive (label expected : String) : Lines → Except String Unit × Lines
  | [] => (.error "no input", [])
  | .error e :: rest => (.error e, rest)
  | .ok line :: rest =>
    if String.ofList (trim line.toList) = expected then (.ok (), rest)
    else (.error s!"aborted: {label} not destroyed", rest)

def destroyOnePartition (transport : Transport) (state : AppState) (id : EnclaveId)
    (pid : PartitionId) : Cli Unit := do
  match ← sendDelete transport state s!"/enclaves/{id.val}/partitions/{pid.val}" with
  | .ok errors => if errors.isEmpty then return else throw "partition destroy completed with errors"
  | .error _ => throw "partition destroy failed"

def enclavePath (id : EnclaveId) (resourcesOnly : Bool) : String :=
  if resourcesOnly then s!"/enclaves/{id.val}?resources_only=true" else s!"/enclaves/{id.val}"

/-- Whether something has gone wrong, after the deletion of one more enclave, and the lines that are
left. -/
def destroyOne (transport : Transport) (state : AppState) (yes resourcesOnly : Bool) :
    Bool × Lines → EnclaveId → Cli (Bool × Lines)
  | (anyError, lines), id => do
    match if yes then (.ok (), lines) else confirmDestructive id.val id.val lines with
    | (.error _, rest) => return (true, rest)
    | (.ok (), rest) =>
      match ← sendDelete transport state (enclavePath id resourcesOnly) with
      | .ok errors => return (anyError || !errors.isEmpty, rest)
      | .error _ => return (true, rest)

def destroyEach (transport : Transport) (state : AppState) (yes resourcesOnly : Bool) (lines : Lines)
    (ids : List EnclaveId) : Cli Unit := do
  let done ← ids.foldlM (destroyOne transport state yes resourcesOnly) (false, lines)
  if done.1 then throw "one or more enclave destroys failed"

/-- `GET /enclaves`. -/
def listEnclaves : Api (List EnclaveState) := apiStoreCall (perform .listEnclaves)

/-- `nclav destroy`. -/
def destroy (transport : Transport) (state : AppState) (enclaveIds : List EnclaveId) (all : Bool)
    (partition : Option PartitionId) (yes resourcesOnly : Bool) (lines : Lines) : Cli Unit := do
  match partition, enclaveIds with
  | some pid, [id] =>
    match if yes then .ok () else (confirmDestructive s!"{id.val}/{pid.val}" pid.val lines).1 with
    | .error e => throw e
    | .ok () => destroyOnePartition transport state id pid
  | some _, _ => throw "--partition requires exactly one enclave ID"
  | none, _ =>
    if all then
      match ← respond listEnclaves with
      | .error e => throw s!"server returned {statusText e.status}: {e.message}"
      | .ok states =>
        if transport.readable "/enclaves" then
          -- nobody is asked
          destroyEach transport state true resourcesOnly lines (states.map (·.desired.id))
        else throw "Failed to parse enclave list"
    else destroyEach transport state yes resourcesOnly lines enclaveIds

end Nclav
