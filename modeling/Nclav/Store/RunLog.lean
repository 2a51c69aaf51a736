import Nclav.Store.Encoding
import Nclav.Store.Redb
import Nclav.Text.Rfc3339

/-!
# The log of the runs of Terraform

In memory the runs are a map, in a file a table, with a second one that indexes them by partition and
time.
-/

namespace Nclav

open Serde (Value)

/-- The runs of the store in memory. -/
abbrev InMemoryRuns : Type := HashMap Uuid IacRun

namespace InMemoryRuns

def upsertIacRun (runs : InMemoryRuns) (run : IacRun) : InMemoryRuns := runs.insert run.id run

/-- The runs of a partition, of those that the map gives in some order. -/
def listIacRuns (values : List IacRun) (enclaveId : EnclaveId) (partitionId : PartitionId) :
    List IacRun :=
  let runs := values.filter fun r => r.enclaveId = enclaveId && r.partitionId = partitionId
  (runs.mergeSort fun a b => b.startedAt ≤ a.startedAt).take 100

end InMemoryRuns

/-- The tables of runs. -/
structure RedbRuns : Type where
  iacRuns : HashMap String Value
  iacRunsByPart : HashMap String String

namespace RedbRuns

def empty : RedbRuns := ⟨∅, ∅⟩

variable (F : Formats)

/-- The key of a run in the index. -/
def indexKey (run : IacRun) : String :=
  iacRunIndexKey run.enclaveId run.partitionId (String.ofList (Text.rfc3339 run.startedAt))
    (F.uuid run.id)

def upsertIacRun (db : RedbRuns) (run : IacRun) : RedbRuns where
  iacRuns := db.iacRuns.insert (F.uuid run.id) (run.encode F)
  iacRunsByPart := db.iacRunsByPart.insert (indexKey F run) (F.uuid run.id)

/-- The runs of a partition, or nothing where one of them cannot be read. -/
def listIacRuns (db : RedbRuns) (enclaveId : EnclaveId) (partitionId : PartitionId) :
    Option (List IacRun) :=
  let start := iacRunPrefix enclaveId partitionId
  let entries := (db.iacRunsByPart.toList.filter fun kv => !decide (kv.1 < start)).filter
    fun kv => start.toList.isPrefixOf kv.1.toList
  let runIds := (entries.map (·.2)).reverse.take 100
  (runIds.filterMap (db.iacRuns[·]?)).mapM (IacRun.decode F)

end RedbRuns

end Nclav
