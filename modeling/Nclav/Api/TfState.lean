import Nclav.Api.Handlers
import Nclav.Store.Redb
import Nclav.Store.Postgres

/-!
# The Terraform state backend

The handlers of `/terraform/state/{enc}/{part}`: Terraform reads and writes the state of a partition
there, and locks it for the time of a run.
-/

namespace Nclav

open Serde (Value)

/-- A request on the state of a partition. -/
inductive TfRequest : Type where
  | get (enc part : String)
  | put (enc part : String) (body : Bytes)
  | delete (enc part : String)
  | lock (enc part : String) (lockInfo : Value)
  | unlock (enc part : String) (body : Bytes)

inductive TfBody : Type where
  | empty
  | bytes (state : Bytes)
  | json (v : Value)

structure TfResponse : Type where
  status : Nat
  body : TfBody

def ApiError.response (e : ApiError) : TfResponse :=
  ⟨e.status, .json (.object [("error", .str e.message)])⟩

/-- `format!("{}/{}", enc, part)` -/
def tfStateKey (enc part : String) : String := s!"{enc}/{part}"

def TfRequest.key : TfRequest → String
  | .get enc part | .put enc part _ | .delete enc part | .lock enc part _ | .unlock enc part _ =>
    tfStateKey enc part

section

variable (store : StateStore) (parse : Bytes → Option Value) (d : store.Data)

/-- A handler that answers 200 unless the store fails. -/
def okUnless (r : Except StoreError Unit) : TfResponse :=
  match r with
  | .ok () => ⟨200, .empty⟩
  | .error e => (ApiError.ofStore e).response

def getTfState (enc part : String) : TfResponse × store.Data :=
  let (r, d) := store.call d (.getTfState (tfStateKey enc part))
  match r with
  | .ok (some bytes) => (⟨200, .bytes bytes⟩, d)
  | .ok none => (⟨204, .empty⟩, d)
  | .error e => ((ApiError.ofStore e).response, d)

def putTfState (enc part : String) (body : Bytes) : TfResponse × store.Data :=
  let (r, d) := store.call d (.putTfState (tfStateKey enc part) body)
  (okUnless r, d)

def deleteTfState (enc part : String) : TfResponse × store.Data :=
  let (r, d) := store.call d (.deleteTfState (tfStateKey enc part))
  (okUnless r, d)

def lockTfState (enc part : String) (lockInfo : Value) : TfResponse × store.Data :=
  let (r, d) := store.call d (.lockTfState (tfStateKey enc part) lockInfo)
  match r with
  | .ok () => (⟨200, .empty⟩, d)
  -- Terraform shows the owner of the lock from the body
  | .error (.lockConflict holder) => (⟨409, .json holder⟩, d)
  | .error e => ((ApiError.ofStore e).response, d)

/-- The id of the lock that a body names: empty if it names none. -/
def unlockId (body : Bytes) : String :=
  (((parse body).bind (·.get? "ID")).bind (·.asStr)).getD ""

def unlockTfState (enc part : String) (body : Bytes) : TfResponse × store.Data :=
  let (r, d) := store.call d (.unlockTfState (tfStateKey enc part) (unlockId parse body))
  (okUnless r, d)

/-- Answer a request. -/
def serve : TfRequest → TfResponse × store.Data
  | .get enc part => getTfState store d enc part
  | .put enc part body => putTfState store d enc part body
  | .delete enc part => deleteTfState store d enc part
  | .lock enc part lockInfo => lockTfState store d enc part lockInfo
  | .unlock enc part body => unlockTfState store parse d enc part body

end

/-- Each request of a sequence is such where it is served. -/
def EachRequest (store : StateStore) (parse : Bytes → Option Value)
    (P : store.Data → TfRequest → Prop) : store.Data → List TfRequest → Prop
  | _, [] => True
  | d, req :: reqs => P d req ∧ EachRequest store parse P (serve store parse d req).2 reqs

theorem eachRequest_iff {store : StateStore} {parse : Bytes → Option Value}
    {P P' : store.Data → TfRequest → Prop} (h : ∀ d req, P d req ↔ P' d req) (d : store.Data)
    (reqs : List TfRequest) :
    EachRequest store parse P d reqs ↔ EachRequest store parse P' d reqs := by
  induction reqs generalizing d with
  | nil => exact Iff.rfl
  | cons req reqs ih => exact and_congr (h d req) (ih _)

end Nclav
