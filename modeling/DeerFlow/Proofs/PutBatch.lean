import DeerFlow.Events.Db
import DeerFlow.Proofs.JsonlStore

/-!
# Batches that fail

The store in memory cannot fail and the database takes a batch in one transaction. The JSONL store
writes event by event, so a write that raises leaves the lines before it in the files.
-/

namespace DeerFlow

open List Option DbEventStore

variable {J : Type} {V : JsonValues J}

namespace JsonlEventStore

variable {s s' : JsonlEventStore} {log : List (EventRecord J)} {e : EventArgs J} {w : WriteEnd}
  {x : EventStoreError}

variable {es : List (EventArgs J × WriteEnd)}

end JsonlEventStore

end DeerFlow
