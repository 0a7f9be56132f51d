import DeerFlow.Data.Journal
import DeerFlow.Data.Slots
import DeerFlow.Memory.Storage

/-!
# Edits and background updates

Every call saves the whole memory it made from the one it loaded, so what it saves undoes what was
saved since (`model_call_loses_edit`). Where each save replaces the memory its call loaded, it is as
if no two calls ran at the same time (`user_edits_survive`).
-/

namespace DeerFlow

open List Option Journal MemoryDesk MemoryData MemoryChange

variable (lib : PyLib) (config : UpdaterConfig)

@[simp] theorem MemoryData.getSection_mapSections
    (f : MemorySection → ContextSection → ContextSection) (d : MemoryData) (sec : MemorySection) :
    (d.mapSections f).getSection sec = f sec (d.getSection sec) := by
  cases sec <;> rfl

@[simp] theorem MemoryData.getSection_empty (sec : MemorySection) :
    ({} : MemoryData).getSection sec = {} := by
  cases sec <;> rfl

@[simp] theorem MemoryData.getSection_withFacts (d : MemoryData) (fs : List MemoryFact)
    (sec : MemorySection) : { d with facts := fs }.getSection sec = d.getSection sec := by
  cases sec <;> rfl

theorem scrubSummary_empty : scrubSummary lib "" = "" := by
  unfold scrubSummary
  rfl

theorem FactEdit.id_of_apply {e : FactEdit} {f g : MemoryFact} (h : e.apply f = .ok g) :
    g.id = f.id := by
  obtain ⟨content, -, h⟩ := exists_of_bind_ok h
  obtain ⟨confidence, -, h⟩ := exists_of_bind_ok h
  cases h
  rfl

theorem editFacts_spec {factId : String} {e : FactEdit} :
    ∀ {fs gs : List MemoryFact}, editFacts factId e fs = .ok gs →
      (∀ f ∈ fs, f.id ≠ factId → f ∈ gs) ∧ ∀ g ∈ gs, ∃ f ∈ fs, f.id = g.id
  | [], gs, h => by
    cases h
    simp
  | f :: fs, gs, h => by
    rw [editFacts] at h
    obtain ⟨f', hf, h⟩ := exists_of_bind_ok h
    obtain ⟨fs', hfs, h⟩ := exists_of_bind_ok h
    cases h
    obtain ⟨hkeep, hids⟩ := editFacts_spec hfs
    unfold FactEdit.applyTo at hf
    have hid : f'.id = f.id := by
      split_ifs at hf
      · exact FactEdit.id_of_apply hf
      · cases hf
        rfl
    refine ⟨fun g hg hne => ?_, fun g hg => ?_⟩
    · rcases mem_cons.1 hg with rfl | hg
      · rw [if_neg hne] at hf
        cases hf
        exact mem_cons_self
      · exact mem_cons_of_mem _ (hkeep g hg hne)
    · rcases mem_cons.1 hg with rfl | hg
      · exact ⟨f, mem_cons_self, hid.symm⟩
      · obtain ⟨f0, hf0, h0⟩ := hids g hg
        exact ⟨f0, mem_cons_of_mem _ hf0, h0⟩

/-- The loop over the new facts `fs` makes the fact. -/
def UpdateContext.Makes (ctx : UpdateContext) (fs : List NewFact) (g : MemoryFact) : Prop :=
  ∃ n, ∃ f ∈ fs, config.factConfidenceThreshold ≤ f.confidence ∧ g = ctx.entry n f

theorem addNewFacts_spec (ctx : UpdateContext) :
    ∀ (fs : List NewFact) (n : ℕ) (keys : List String) (facts : List MemoryFact),
      ∃ added, addNewFacts lib config ctx fs n keys facts = facts ++ added ∧
        ∀ g ∈ added, ctx.Makes config fs g
  | [], _, _, facts => ⟨[], (append_nil facts).symm, nofun⟩
  | f :: fs, n, keys, facts => by
    have hlater : ∀ {g}, ctx.Makes config fs g → ctx.Makes config (f :: fs) g :=
      fun ⟨k, f', hf', h⟩ => ⟨k, f', mem_cons_of_mem _ hf', h⟩
    obtain ⟨skipped, hskip, hs⟩ := addNewFacts_spec ctx fs n keys facts
    unfold addNewFacts
    split_ifs with hlow
    · exact ⟨skipped, hskip, fun g hg => hlater (hs g hg)⟩
    · have hadd : ∀ keys', ∃ added,
          addNewFacts lib config ctx fs (n + 1) keys' (facts ++ [ctx.entry n f]) = facts ++ added ∧
            ∀ g ∈ added, ctx.Makes config (f :: fs) g := by
        intro keys'
        obtain ⟨added, heq, h⟩ := addNewFacts_spec ctx fs (n + 1) keys' (facts ++ [ctx.entry n f])
        refine ⟨ctx.entry n f :: added, by rw [heq, append_assoc, singleton_append], ?_⟩
        exact forall_mem_cons.2
          ⟨⟨n, f, mem_cons_self, not_lt.1 hlow, rfl⟩, fun g hg => hlater (h g hg)⟩
      split
      · split_ifs
        · exact ⟨skipped, hskip, fun g hg => hlater (hs g hg)⟩
        · exact hadd _
      · exact hadd _

theorem mergedFacts_spec (ctx : UpdateContext) (u : UpdateData) (facts : List MemoryFact) :
    ∃ added, mergedFacts lib config ctx u facts = facts.filter (·.id ∉ u.factsToRemove) ++ added ∧
      ∀ g ∈ added, ctx.Makes config u.newFacts g :=
  addNewFacts_spec ..

theorem mem_of_mem_limitFacts {facts : List MemoryFact} {f : MemoryFact}
    (h : f ∈ limitFacts config facts) : f ∈ facts := by
  unfold limitFacts at h
  split_ifs at h
  · exact (perm_insertionSort _ facts).mem_iff.1 (mem_of_mem_take h)
  · exact h

section Changes

def MemoryChange.Draws (id : String) : MemoryChange → Prop
  | .create f => id = f.id
  | .revise ctx _ => ∃ n, id = "fact_" ++ ctx.hex n
  | _ => False

/-- A change takes a fact away: it edits the same fact, or the model's answer names it, or it is
over the limit. -/
def MemoryChange.Removes (d : MemoryData) (f : MemoryFact) : MemoryChange → Prop
  | .create _ => False
  | .edit factId _ | .delete factId => f.id = factId
  | .clear => True
  | .revise ctx u =>
    f.id ∈ u.factsToRemove ∨
      f ∈ mergedFacts lib config ctx u d.facts ∧
        f ∉ limitFacts config (mergedFacts lib config ctx u d.facts)

instance decidableRemoves (d : MemoryData) (f : MemoryFact) (change : MemoryChange) :
    Decidable (change.Removes lib config d f) := by
  unfold MemoryChange.Removes
  split <;> infer_instance

variable {lib config} {change : MemoryChange} {d d' : MemoryData}

theorem facts_of_revise {ctx : UpdateContext} {u : UpdateData}
    (h : reviseMemory lib config ctx u d = .ok d') :
    d' = stripUploadMentionsFromMemory lib (withUpdates lib config ctx u d) := by
  obtain ⟨d1, happly, h⟩ := exists_of_bind_ok h
  obtain ⟨-, -, happly⟩ := exists_of_bind_ok happly
  obtain ⟨-, -, h⟩ := exists_of_bind_ok h
  cases happly
  cases h
  rfl

theorem facts_of_delete {factId : String} (h : deleteMemoryFact factId d = .ok d') :
    d' = { d with facts := d.facts.filter (·.id ≠ factId) } ∧ ∃ f ∈ d.facts, f.id = factId := by
  simp only [deleteMemoryFact] at h
  split_ifs at h with hlen
  cases h
  refine ⟨rfl, ?_⟩
  by_contra hno
  push Not at hno
  exact hlen (congrArg length (filter_eq_self.2 fun f hf => by simpa using hno f hf))

theorem facts_of_edit {factId : String} {e : FactEdit} (h : updateMemoryFact factId e d = .ok d') :
    ∃ facts, editFacts factId e d.facts = .ok facts ∧ d' = { d with facts } := by
  obtain ⟨facts, hfacts, h⟩ := exists_of_bind_ok h
  refine ⟨facts, hfacts, ?_⟩
  split_ifs at h
  · cases h
  · cases h
    rfl

theorem MemoryChange.mem_of_apply {f : MemoryFact} (h : change.apply lib config d = .ok d')
    (hf : f ∈ d.facts) (hplain : mentionsUpload lib f.content = false)
    (hrem : ¬ change.Removes lib config d f) : f ∈ d'.facts := by
  cases change with
  | create g =>
    cases h
    exact mem_append_left _ hf
  | edit factId e =>
    obtain ⟨facts, hfacts, rfl⟩ := facts_of_edit h
    exact (editFacts_spec hfacts).1 f hf hrem
  | delete factId =>
    obtain ⟨rfl, -⟩ := facts_of_delete h
    exact mem_filter.2 ⟨hf, decide_eq_true hrem⟩
  | clear => exact absurd trivial hrem
  | revise ctx u =>
    obtain rfl := facts_of_revise h
    simp only [MemoryChange.Removes, not_or, not_and, not_not] at hrem
    have hkept : f ∈ d.facts.filter (·.id ∉ u.factsToRemove) :=
      mem_filter.2 ⟨hf, decide_eq_true hrem.1⟩
    obtain ⟨added, hmerged, -⟩ := mergedFacts_spec lib config ctx u d.facts
    have hlimit := hrem.2 (hmerged ▸ mem_append_left added hkept)
    exact mem_filter.2 ⟨hlimit, by rw [hplain]; rfl⟩

theorem MemoryChange.id_of_apply {g : MemoryFact} (h : change.apply lib config d = .ok d')
    (hg : g ∈ d'.facts) : (∃ f ∈ d.facts, f.id = g.id) ∨ change.Draws g.id := by
  cases change with
  | create f =>
    cases h
    rcases mem_append.1 hg with hg | hg
    · exact .inl ⟨g, hg, rfl⟩
    · rw [mem_singleton] at hg
      exact .inr (congrArg MemoryFact.id hg)
  | edit factId e =>
    obtain ⟨facts, hfacts, rfl⟩ := facts_of_edit h
    exact .inl ((editFacts_spec hfacts).2 g hg)
  | delete factId =>
    obtain ⟨rfl, -⟩ := facts_of_delete h
    exact .inl ⟨g, (mem_filter.1 hg).1, rfl⟩
  | clear =>
    cases h
    cases hg
  | revise ctx u =>
    obtain rfl := facts_of_revise h
    obtain ⟨added, hmerged, hadded⟩ := mergedFacts_spec lib config ctx u d.facts
    have hg' := mem_of_mem_limitFacts config (mem_filter.1 hg).1
    rcases mem_append.1 (hmerged ▸ hg') with hg | hg
    · exact .inl ⟨g, (mem_filter.1 hg).1, rfl⟩
    · obtain ⟨n, -, -, -, rfl⟩ := hadded g hg
      exact .inr ⟨n, rfl⟩

theorem MemoryChange.summary_of_apply (h : change.apply lib config d = .ok d')
    (sec : MemorySection) :
    (d'.getSection sec).summary = (d.getSection sec).summary ∨ (d'.getSection sec).summary = "" ∨
      ∃ ctx u, change = .revise ctx u ∧ (d'.getSection sec).summary =
        scrubSummary lib ((u.newSummary sec).getD (d.getSection sec).summary) := by
  cases change with
  | create f =>
    cases h
    exact .inl (congrArg _ (getSection_withFacts ..))
  | edit factId e =>
    obtain ⟨facts, -, rfl⟩ := facts_of_edit h
    exact .inl (congrArg _ (getSection_withFacts ..))
  | delete factId =>
    obtain ⟨rfl, -⟩ := facts_of_delete h
    exact .inl (congrArg _ (getSection_withFacts ..))
  | clear =>
    cases h
    exact .inr (.inl (by rw [getSection_empty]))
  | revise ctx u =>
    obtain rfl := facts_of_revise h
    refine .inr (.inr ⟨ctx, u, rfl, ?_⟩)
    simp only [stripUploadMentionsFromMemory, withUpdates, getSection_withFacts,
      getSection_mapSections, UpdateData.applySection]
    cases u.newSummary sec <;> rfl

end Changes

section Reflected

def SummaryFrom (later : List SavedMemory) (sec : MemorySection) (text : String) : Prop :=
  text = "" ∨ ∃ e ∈ later, ∃ ctx u given n, e.change = .revise ctx u ∧
    u.newSummary sec = some given ∧ text = (scrubSummary lib)^[n] given

def Lasts (later : List SavedMemory) (d : MemoryData) (f : MemoryFact) : Prop :=
  f ∈ d.facts ∨ ∃ e ∈ later, e.change.Removes lib config e.before f

/-- The memory `d` reflects a save under the `later` ones: what it made or edited is there, what it
deleted or cleared is not. -/
def SavedMemory.Reflected (e : SavedMemory) (later : List SavedMemory) (d : MemoryData) : Prop :=
  match e.change with
  | .create f => Lasts lib config later d f
  | .edit factId _ => ∀ f ∈ e.after.facts, f.id = factId → Lasts lib config later d f
  | .delete factId => ∀ g ∈ d.facts, g.id ≠ factId
  | .clear =>
    (∀ f ∈ e.before.facts, ∀ g ∈ d.facts, g.id ≠ f.id) ∧
      ∀ sec, SummaryFrom lib later sec (d.getSection sec).summary
  | .revise _ _ => True

/-- The facts a change of a user puts into the memory `d`. -/
def MemoryChange.written (d : MemoryData) : MemoryChange → List MemoryFact
  | .create f => [f]
  | .edit factId _ => d.facts.filter (·.id = factId)
  | _ => []

variable {lib config} {e x : SavedMemory} {later : List SavedMemory}

theorem SavedMemory.reflected_new (h : e.change.apply lib config e.before = .ok e.after) :
    e.Reflected lib config [] e.after := by
  unfold SavedMemory.Reflected
  split
  case h_1 f hc =>
    rw [hc] at h
    have hafter : createMemoryFact f e.before = e.after := Except.ok.inj h
    refine .inl ?_
    rw [← hafter]
    exact mem_append_right _ mem_cons_self
  case h_2 => exact fun f hf _ => .inl hf
  case h_3 factId hc =>
    rw [hc] at h
    intro g hg
    rw [(facts_of_delete h).1] at hg
    exact of_decide_eq_true (mem_filter.1 hg).2
  case h_4 hc =>
    rw [hc] at h
    have hafter : ({} : MemoryData) = e.after := Except.ok.inj h
    rw [← hafter]
    refine ⟨fun _ _ g hg => ?_, fun sec => .inl (by rw [getSection_empty])⟩
    cases hg
  case h_5 => trivial

theorem Lasts.concat {f : MemoryFact} (hx : x.change.apply lib config x.before = .ok x.after)
    (hplain : mentionsUpload lib f.content = false) (h : Lasts lib config later x.before f) :
    Lasts lib config (later ++ [x]) x.after f := by
  rcases h with h | ⟨y, hy, hrem⟩
  · by_cases hrem : x.change.Removes lib config x.before f
    · exact .inr ⟨x, by simp, hrem⟩
    · exact .inl (mem_of_apply hx h hplain hrem)
  · exact .inr ⟨y, mem_append_left _ hy, hrem⟩

theorem SummaryFrom.concat (hx : x.change.apply lib config x.before = .ok x.after)
    {sec : MemorySection} (h : SummaryFrom lib later sec (x.before.getSection sec).summary) :
    SummaryFrom lib (later ++ [x]) sec (x.after.getSection sec).summary := by
  have hmono : ∀ {text}, SummaryFrom lib later sec text →
      SummaryFrom lib (later ++ [x]) sec text := by
    rintro text (rfl | ⟨y, hy, hfrom⟩)
    · exact .inl rfl
    · exact .inr ⟨y, mem_append_left _ hy, hfrom⟩
  rcases summary_of_apply hx sec with hs | hs | ⟨ctx, u, hc, hs⟩
  · rw [hs]
    exact hmono h
  · exact .inl hs
  · rw [hs]
    cases hgiven : u.newSummary sec with
    | some given => exact .inr ⟨x, by simp, ctx, u, given, 1, hc, hgiven, rfl⟩
    | none =>
      -- The section is scrubbed once more.
      rcases h with h | ⟨y, hy, ctx', u', given, n, hc', hgiven', h⟩
      · rw [h]
        exact .inl (scrubSummary_empty lib)
      · refine .inr ⟨y, mem_append_left _ hy, ctx', u', given, n + 1, hc', hgiven', ?_⟩
        rw [Function.iterate_succ_apply', ← h]
        rfl

theorem absent_of_apply (ids : String → Prop)
    (hx : x.change.apply lib config x.before = .ok x.after)
    (hfresh : ∀ id, x.change.Draws id → ¬ ids id) (h : ∀ g ∈ x.before.facts, ¬ ids g.id) :
    ∀ g ∈ x.after.facts, ¬ ids g.id := by
  intro g hg
  rcases id_of_apply hx hg with ⟨f, hf, hid⟩ | hdraw
  · rw [← hid]
    exact h f hf
  · exact hfresh _ hdraw

theorem SavedMemory.Reflected.concat (he : e.change.apply lib config e.before = .ok e.after)
    (hplain : ∀ f ∈ e.change.written e.after, mentionsUpload lib f.content = false)
    (hx : x.change.apply lib config x.before = .ok x.after)
    (hfresh : ∀ id, x.change.Draws id → ∀ f ∈ e.before.facts, f.id ≠ id)
    (h : e.Reflected lib config later x.before) :
    e.Reflected lib config (later ++ [x]) x.after := by
  unfold SavedMemory.Reflected at h ⊢
  split
  case h_1 f hc =>
    rw [hc] at h hplain
    exact Lasts.concat hx (hplain f mem_cons_self) h
  case h_2 factId _ hc =>
    rw [hc] at h hplain
    intro f hf hid
    exact Lasts.concat hx (hplain f (mem_filter.2 ⟨hf, decide_eq_true hid⟩)) (h f hf hid)
  case h_3 factId hc =>
    rw [hc] at h he
    obtain ⟨-, f, hf, hid⟩ := facts_of_delete he
    exact absent_of_apply (· = factId) hx
      (fun id hdraw hid' => hfresh id hdraw f hf (hid.trans hid'.symm)) h
  case h_4 hc =>
    rw [hc] at h
    refine ⟨fun f hf => ?_, fun sec => SummaryFrom.concat hx (h.2 sec)⟩
    exact absent_of_apply (· = f.id) hx
      (fun id hdraw hid => hfresh id hdraw f hf hid.symm) (h.1 f hf)
  case h_5 => trivial

end Reflected

section Desk

variable {μ : Type} (format : List μ → String)

/-- The file holds what the call loaded, the ids drawn are new, and the facts a user wrote do not
mention an upload. -/
structure Draft.Undisturbed (s : MemoryDesk μ) (draft : Draft) : Prop where
  current : ∀ d, draft.loaded = some d → d = s.stored
  fresh : ∀ id, draft.change.Draws id → ∀ e ∈ s.log, ∀ f ∈ e.before.facts, f.id ≠ id
  plain : ∀ f ∈ draft.change.written draft.data, mentionsUpload lib f.content = false

def undisturbed (s : MemoryDesk μ) : MemoryDeskAct μ → Prop
  | .replace i _ =>
    ∀ call draft, s.calls[i]? = some (call, .saving draft) → draft.Undisturbed lib s
  | _ => True

def Draft.Sound (call : MemoryCall μ) (draft : Draft) : Prop :=
  (∀ edit, call.userEdit = some edit → edit = .ok draft.change) ∧
    ∀ d, (∀ d', draft.loaded = some d' → d' = d) → draft.change.apply lib config d = .ok draft.data

def CallPhase.hasSaved : CallPhase → Bool
  | .replaced _ | .recording _ _ | .done .saved => true
  | _ => false

def CallPhase.plain : CallPhase → Bool
  | .called | .statted _ | .reading _ | .storing _ _ | .done .notSaved | .done (.raised _) => true
  | _ => false

/-- What is known of a call: that it is an update where it waits for the model, its draft, and its
save in the log. -/
structure CallKnown (log : List SavedMemory) (i : ℕ) (call : MemoryCall μ) (phase : CallPhase) :
    Prop where
  thinking : ∀ d, phase = .thinking d → call.userEdit = none
  draft : ∀ draft, phase = .saving draft → draft.Sound lib config call
  saved : phase.hasSaved = true →
    ∃ e ∈ log, e.call = i ∧ ∀ edit, call.userEdit = some edit → edit = .ok e.change

structure Serial (s : MemoryDesk μ) : Prop where
  calls : ∀ (i : ℕ) (call : MemoryCall μ) (phase : CallPhase), s.calls[i]? = some (call, phase) →
    CallKnown lib config s.log i call phase
  applied : ∀ e ∈ s.log, e.change.apply lib config e.before = .ok e.after ∧
    ∀ f ∈ e.change.written e.after, mentionsUpload lib f.content = false
  reflected : Since (SavedMemory.Reflected lib config) s.log s.stored

variable {lib config format} {s s' : MemoryDesk μ} {call : MemoryCall μ} {i : ℕ}
  {log : List SavedMemory}
  {phase : CallPhase} {loaded : MemoryData}

theorem CallKnown.of_plain (h : phase.plain) : CallKnown lib config log i call phase where
  thinking d hd := by
    rw [hd] at h
    cases h
  draft draft hd := by
    rw [hd] at h
    cases h
  saved hsaved := by
    unfold CallPhase.plain CallPhase.hasSaved at *
    split at hsaved <;> simp_all

theorem CallKnown.of_thinking (h : call.userEdit = none) :
    CallKnown lib config log i call (.thinking loaded) where
  thinking _ _ := h
  draft _ heq := by cases heq
  saved h := by cases h

theorem CallKnown.of_saving {draft : Draft} (h : draft.Sound lib config call) :
    CallKnown lib config log i call (.saving draft) where
  thinking _ heq := by cases heq
  draft _ heq := by
    cases heq
    exact h
  saved h := by cases h

theorem CallKnown.of_saved (hphase : phase.hasSaved)
    (h : ∃ e ∈ log, e.call = i ∧ ∀ edit, call.userEdit = some edit → edit = .ok e.change) :
    CallKnown lib config log i call phase where
  thinking d hd := by
    rw [hd] at hphase
    cases hphase
  draft d hd := by
    rw [hd] at hphase
    cases hphase
  saved _ := h

theorem known_draftPhase {change : MemoryChange}
    (hcall : ∀ edit, call.userEdit = some edit → edit = .ok change) :
    CallKnown lib config log i call (draftPhase lib config loaded change) := by
  unfold draftPhase
  split
  · exact .of_plain rfl
  · rename_i data hdata
    refine .of_saving ⟨hcall, fun d hd => ?_⟩
    rw [← hd loaded rfl]
    exact hdata

theorem known_afterLoad (loaded : MemoryData) :
    CallKnown lib config log i call (call.afterLoad lib config format loaded) := by
  unfold MemoryCall.afterLoad
  split
  · split_ifs
    · exact .of_plain rfl
    · exact .of_thinking rfl
  · split
    · rename_i change hchange
      refine known_draftPhase fun edit hedit => ?_
      rw [hchange] at hedit
      exact (some.inj hedit).symm
    · exact .of_plain rfl
    · exact .of_plain rfl

theorem known_start : CallKnown lib config log i call (call.start config) := by
  unfold MemoryCall.start
  split
  · split_ifs
    · exact .of_plain rfl
    · exact .of_plain rfl
  · exact .of_saving ⟨fun edit h => (some.inj h).symm, fun _ _ => rfl⟩
  · split
    · exact .of_plain rfl
    · exact .of_plain rfl

theorem known_finalizeUpdate {ctx : UpdateContext}
    {answer : Option SubagentContent} (hcall : call.userEdit = none) :
    CallKnown lib config log i call (finalizeUpdate lib config ctx loaded answer) := by
  unfold finalizeUpdate
  split
  · exact .of_plain rfl
  · split
    · exact .of_plain rfl
    · split
      · exact .of_plain rfl
      · rename_i hdata
        refine .of_saving ⟨fun edit h => ?_, fun d hd => ?_⟩
        · rw [hcall] at h
          cases h
        · rw [← hd loaded rfl]
          exact hdata

/-- A step that leaves the file alone: call number `i` moves on to another phase. -/
structure Moves (s s' : MemoryDesk μ) (i : ℕ) (call : MemoryCall μ) (phase : CallPhase) : Prop where
  file : s'.file = s.file
  log : s'.log = s.log
  calls : s'.calls = s.calls.set i (call, phase)

theorem stepCall_cases {act : MemoryDeskAct μ}
    (h : s.stepCall lib config format act i call phase = some s')
    (hknown : CallKnown lib config s.log i call phase) :
    (∃ phase', Moves s s' i call phase' ∧ CallKnown lib config s.log i call phase') ∨
      ∃ draft j mtime, phase = .saving draft ∧ act = .replace j mtime ∧
        s' = (s.replaceFile i draft mtime).setPhase i call (.replaced draft.data) := by
  cases phase with
  | called =>
    cases act <;> simp only [stepCall, reduceCtorEq] at h
    cases h
    exact .inl ⟨_, ⟨rfl, rfl, rfl⟩, .of_plain rfl⟩
  | statted mtime =>
    cases act <;> simp only [stepCall, reduceCtorEq] at h
    cases h
    refine .inl ⟨_, ⟨rfl, rfl, rfl⟩, ?_⟩
    cases s.cached mtime with
    | none => exact .of_plain rfl
    | some d => exact known_afterLoad d
  | reading mtime =>
    cases act <;> simp only [stepCall, reduceCtorEq] at h
    cases h
    exact .inl ⟨_, ⟨rfl, rfl, rfl⟩, .of_plain rfl⟩
  | storing mtime data =>
    cases act <;> simp only [stepCall, reduceCtorEq] at h
    cases h
    exact .inl ⟨_, ⟨rfl, rfl, rfl⟩, known_afterLoad data⟩
  | thinking loaded =>
    cases act <;> simp only [stepCall, reduceCtorEq] at h
    cases h
    exact .inl ⟨_, ⟨rfl, rfl, rfl⟩, known_finalizeUpdate (hknown.thinking loaded rfl)⟩
  | saving draft =>
    cases act <;> simp only [stepCall, reduceCtorEq] at h
    · cases h
      exact .inr ⟨draft, _, _, rfl, rfl, rfl⟩
    · cases h
      refine .inl ⟨_, ⟨rfl, rfl, rfl⟩, ?_⟩
      cases call.saveFailure <;> exact .of_plain rfl
  | replaced data | recording data mtime =>
    cases act <;> simp only [stepCall, reduceCtorEq] at h
    cases h
    exact .inl ⟨_, ⟨rfl, rfl, rfl⟩, CallKnown.of_saved rfl (hknown.saved rfl)⟩
  | done result => cases h

theorem CallKnown.mono {log' : List SavedMemory} (hlog : ∀ e ∈ log, e ∈ log')
    (h : CallKnown lib config log i call phase) : CallKnown lib config log' i call phase where
  thinking := h.thinking
  draft := h.draft
  saved hs := by
    obtain ⟨e, he, hcall⟩ := h.saved hs
    exact ⟨e, hlog e he, hcall⟩

theorem Serial.moves {phase' : CallPhase} (hs : Serial lib config s)
    (hm : Moves s s' i call phase') (hknown : CallKnown lib config s.log i call phase') :
    Serial lib config s' where
  calls j c p hj := by
    rw [hm.calls] at hj
    rw [hm.log]
    rcases Slots.getElem?_set_cases hj with ⟨rfl, heq⟩ | ⟨-, hj⟩
    · cases heq
      exact hknown
    · exact hs.calls j c p hj
  applied e he := hs.applied e (hm.log ▸ he)
  reflected := by
    have hstored : s'.stored = s.stored := by simp only [stored, hm.file]
    rw [hm.log, hstored]
    exact hs.reflected

theorem Serial.replace {draft : Draft} {mtime : ℤ} (hs : Serial lib config s)
    (hi : s.calls[i]? = some (call, .saving draft)) (hok : draft.Undisturbed lib s) :
    Serial lib config ((s.replaceFile i draft mtime).setPhase i call (.replaced draft.data)) := by
  have hsound := (hs.calls i call _ hi).draft draft rfl
  have happly : draft.change.apply lib config s.stored = .ok draft.data :=
    hsound.2 s.stored fun d hd => hok.current d hd
  refine ⟨fun j c p hj => ?_, Slots.forall_mem_concat hs.applied ⟨happly, hok.plain⟩, ?_⟩
  · rcases Slots.getElem?_set_cases hj with ⟨rfl, heq⟩ | ⟨-, hj⟩
    · cases heq
      exact .of_saved rfl ⟨_, mem_append_right _ mem_cons_self, rfl, hsound.1⟩
    · exact (hs.calls j c p hj).mono fun e he => mem_append_left _ he
  · refine Since.concat (SavedMemory.reflected_new happly) hs.reflected fun e he later hr => ?_
    exact hr.concat (hs.applied e he).1 (hs.applied e he).2 happly
      fun id hdraw => hok.fresh id hdraw e he

theorem Serial.addCall {c : MemoryCall μ} (hs : Serial lib config s) :
    Serial lib config { s with calls := s.calls ++ [(c, c.start config)] } := by
  refine ⟨fun j c' p hj => ?_, hs.applied, hs.reflected⟩
  rcases Slots.getElem?_concat_cases hj with hj | ⟨-, heq⟩
  · exact hs.calls j c' p hj
  · cases heq
    exact known_start

theorem Serial.step {act : MemoryDeskAct μ} (hs : Serial lib config s) (hok : undisturbed lib s act)
    (h : (memoryDesk lib config format).step s act = some s') : Serial lib config s' := by
  have hcall : ∀ i, act.call? = some i → (s.calls[i]?.bind fun x =>
      s.stepCall lib config format act i x.1 x.2) = some s' → Serial lib config s' := by
    intro i hact h
    obtain ⟨⟨call, phase⟩, hi, h⟩ := bind_eq_some_iff.1 h
    have hknown := hs.calls i call phase hi
    rcases stepCall_cases h hknown with ⟨phase', hm, hknown'⟩ | ⟨draft, j, mtime, rfl, rfl, rfl⟩
    · exact hs.moves hm hknown'
    · cases hact
      exact hs.replace hi (hok call draft hi)
  cases act with
  | call c =>
    cases h
    exact hs.addCall
  | stat i _ | lookup i | read i _ | store i | respond i _ _ _ | replace i _
  | writeFails i | record i => exact hcall i rfl h

end Desk

section Edits

variable {lib config} {μ : Type} {format : List μ → String} {s0 s : MemoryDesk μ}

/-- Where no save is disturbed, every edit of a user that has returned is in the log as the change
it makes, and the memory that is stored reflects it. -/
theorem user_edits_survive {acts : List (MemoryDeskAct μ)} (hcalls : s0.calls = []) (hlog : s0.log = [])
    (hok : (memoryDesk lib config format).Along (undisturbed lib) acts s0)
    (hrun : (memoryDesk lib config format).run acts s0 = some s)
    {i : ℕ} {call : MemoryCall μ} (hi : s.calls[i]? = some (call, .done .saved))
    {edit : Except MemoryError MemoryChange} (hedit : call.userEdit = some edit) :
    ∃ earlier e later, s.log = earlier ++ e :: later ∧ e.call = i ∧ edit = .ok e.change ∧
      e.change.apply lib config e.before = .ok e.after ∧ e.Reflected lib config later s.stored := by
  have h0 : Serial lib config s0 := by
    refine ⟨fun i call phase hi => ?_, fun e he => ?_, ?_⟩
    · rw [hcalls] at hi
      cases hi
    · rw [hlog] at he
      cases he
    · rw [hlog]
      trivial
  have hs : Serial lib config s := Machine.run_inv (fun _ _ _ hs hok h => hs.step hok h) h0 hok hrun
  obtain ⟨e, he, hcall, hchange⟩ := (hs.calls i call _ hi).saved rfl
  obtain ⟨earlier, later, hsplit⟩ := append_of_mem he
  refine ⟨earlier, e, later, hsplit, hcall, hchange edit hedit, (hs.applied e he).1, ?_⟩
  have href := hs.reflected
  rw [hsplit] at href
  exact href.at

def emptyUpdate : Decoded :=
  .obj [("user", .obj []), ("history", .obj []), ("newFacts", .arr []), ("factsToRemove", .arr [])]

def emptyAnswer : String :=
  "\x7b\"user\": \x7b\x7d, \"history\": \x7b\x7d, \"newFacts\": [], \"factsToRemove\": []\x7d"

def plainLib : PyLib where
  rawDecode text := if text = emptyAnswer.toList then some emptyUpdate else none
  floatOfText _ := none
  floatOfInt n := some n
  casefold := id
  isAlnum _ := false

def teaFact : MemoryFact where
  id := "fact_aa"
  content := "tea"
  confidence := 1 / 2
  createdAt := "t"
  source := "manual"

def createTea : MemoryCall String :=
  .createMemoryFact "tea" "context" (.finite (1 / 2)) "t" "aa"

def editWhileThinking : List (MemoryDeskAct String) :=
  [.call (.updateMemory ["hi"] none), .stat 0 false, .lookup 0, .read 0 false, .store 0,
    .call createTea, .stat 1 false, .lookup 1, .replace 1 5, .stat 1 false, .record 1,
    .respond 0 "t" (fun _ => "bb") (some (.str emptyAnswer)), .replace 0 7, .stat 0 false, .record 0]

/-- Both calls have saved, the save of the update does not take the fact away, and it is gone. -/
theorem model_call_loses_edit :
    ∃ s, (memoryDesk plainLib {} String.join).run editWhileThinking {} = some s ∧
      s.calls.map (fun x => x.2.hasSaved) = [true, true] ∧
      s.log.map (fun e => (e.call, e.change.written e.after)) = [(1, [teaFact]), (0, [])] ∧
      (∀ e ∈ s.log, ¬ e.change.Removes plainLib {} e.before teaFact) ∧ s.stored.facts = [] := by
  exact Machine.exists_of_run_any (by decide +kernel)

def calm (lib : PyLib) (s : MemoryDesk μ) : MemoryDeskAct μ → Bool
  | .replace i _ =>
    match s.calls[i]? with
    | some (_, .saving draft) =>
      draft.loaded.all (· = s.stored) && s.log.all (·.before.facts = []) &&
        (draft.change.written draft.data).all fun f => !mentionsUpload lib f.content
    | _ => true
  | _ => true

theorem undisturbed_of_calm {act : MemoryDeskAct μ} (h : calm lib s act) :
    undisturbed lib s act := by
  cases act with
  | replace i mtime =>
    intro call draft hi
    simp only [calm, hi, Bool.and_eq_true, List.all_eq_true, decide_eq_true_eq,
      Bool.not_eq_true'] at h
    obtain ⟨⟨hloaded, hlog⟩, hplain⟩ := h
    refine ⟨fun d hd => ?_, fun id _ e he f hf => ?_, hplain⟩
    · rw [hd] at hloaded
      exact of_decide_eq_true hloaded
    · rw [hlog e he] at hf
      cases hf
  | _ => trivial

def MemoryDesk.hasReturned [DecidableEq μ] (s : MemoryDesk μ) (i : ℕ) (call : MemoryCall μ) : Bool :=
  match s.calls[i]? with
  | some (c, .done .saved) => c = call
  | _ => false

theorem MemoryDesk.getElem?_of_hasReturned [DecidableEq μ] {i : ℕ} {call : MemoryCall μ}
    (h : s.hasReturned i call) : s.calls[i]? = some (call, .done .saved) := by
  unfold hasReturned at h
  split at h
  · rename_i c hc
    rw [hc, of_decide_eq_true h]
  · cases h

def editBeforeLoad : List (MemoryDeskAct String) :=
  [.call (.updateMemory ["hi"] none), .call createTea, .stat 1 false, .lookup 1, .read 1 false,
    .store 1, .replace 1 5, .stat 1 false, .record 1, .stat 0 false, .lookup 0,
    .respond 0 "t" (fun _ => "bb") (some (.str emptyAnswer)), .replace 0 7, .stat 0 false, .record 0]

theorem edit_before_load_survives :
    ∃ s, (memoryDesk plainLib {} String.join).run editBeforeLoad {} = some s ∧
      s.stored.facts = [teaFact] ∧ ∃ earlier e later, s.log = earlier ++ e :: later ∧ e.call = 1 ∧
        .ok (.create teaFact) = (.ok e.change : Except MemoryError MemoryChange) ∧
        e.change.apply plainLib {} e.before = .ok e.after ∧
        e.Reflected plainLib {} later s.stored := by
  obtain ⟨s, hrun, hreturned, hfacts⟩ :
      ∃ s, (memoryDesk plainLib {} String.join).run editBeforeLoad {} = some s ∧
        s.hasReturned 1 createTea = true ∧ s.stored.facts = [teaFact] :=
    Machine.exists_of_run_any (by decide +kernel)
  have hok : (memoryDesk plainLib {} String.join).Along (fun s a => calm plainLib s a = true)
      editBeforeLoad {} := by decide +kernel
  have hfact : manualFact "tea" "context" (.finite (1 / 2)) "t" "aa" = .ok teaFact := by
    decide +kernel
  have hedit : createTea.userEdit = some (.ok (.create teaFact)) :=
    congrArg (fun f => some (Except.map create f)) hfact
  exact ⟨s, hrun, hfacts, user_edits_survive rfl rfl (hok.mono fun _ _ => undisturbed_of_calm)
    hrun (getElem?_of_hasReturned hreturned) hedit⟩

end Edits

end DeerFlow
