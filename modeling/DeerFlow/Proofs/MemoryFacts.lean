import DeerFlow.Proofs.MemoryUpdates
import Mathlib.Data.List.DropRight

/-!
# The facts of a memory

Whichever way a fact came, its content is stripped and not blank, its category is not blank and its
confidence is not negative. That the confidence is at most one is checked for users only
(`answer_stores_confidence_five`, `stored_facts_well_formed`).
-/

namespace DeerFlow

open List Option

theorem strip_strip (cs : List Char) : strip (strip cs) = strip cs := by
  change (((cs.dropWhile isSpace).rdropWhile isSpace).dropWhile isSpace).rdropWhile isSpace =
    (cs.dropWhile isSpace).rdropWhile isSpace
  have hhead : ((cs.dropWhile isSpace).rdropWhile isSpace).dropWhile isSpace =
      (cs.dropWhile isSpace).rdropWhile isSpace := by
    rw [dropWhile_eq_self_iff]
    intro hpos
    have hprefix := rdropWhile_prefix isSpace (cs.dropWhile isSpace)
    have hfirst := hprefix.getElem hpos
    rw [hfirst]
    exact dropWhile_get_zero_not isSpace cs (hpos.trans_le hprefix.length_le)
  rw [hhead, rdropWhile_idempotent]

theorem stripText_stripText (text : String) : stripText (stripText text) = stripText text := by
  unfold stripText
  rw [String.toList_ofList, strip_strip]

/-- What `create_memory_fact` sees to. -/
structure MemoryFact.WellFormed (f : MemoryFact) : Prop where
  stripped : stripText f.content = f.content
  content : f.content ≠ ""
  category : stripText f.category ≠ ""
  nonneg : 0 ≤ f.confidence
  le_one : f.confidence ≤ 1

def MemoryData.WellFormed (d : MemoryData) : Prop := ∀ f ∈ d.facts, f.WellFormed

theorem normalizeContent_spec {content t : String} (h : normalizeContent content = .ok t) :
    stripText t = t ∧ t ≠ "" := by
  unfold normalizeContent at h
  split_ifs at h with hblank
  cases h
  exact ⟨stripText_stripText content, hblank⟩

theorem normalizeCategory_nonblank (category : String) :
    stripText (normalizeCategory category) ≠ "" := by
  unfold normalizeCategory
  split_ifs with hblank
  · decide +kernel
  · rw [stripText_stripText]
    exact hblank

theorem validateConfidence_spec {x : PyFloat} {q : ℚ} (h : validateConfidence x = .ok q) :
    0 ≤ q ∧ q ≤ 1 := by
  cases x with
  | finite r =>
    simp only [validateConfidence, Bool.or_eq_true, decide_eq_true_eq] at h
    split_ifs at h with hout
    cases h
    push Not at hout
    exact hout
  | infinite _ | nan => cases h

theorem nonBlank_spec {v : Option Decoded} {t : String} (h : nonBlank v = some t) :
    stripText t = t ∧ t ≠ "" := by
  unfold nonBlank at h
  split at h
  · split_ifs at h with hblank
    cases h
    exact ⟨stripText_stripText _, hblank⟩
  · cases h

theorem wellFormed_manualFact {content category now hex : String} {confidence : PyFloat}
    {f : MemoryFact} (h : manualFact content category confidence now hex = .ok f) :
    f.WellFormed := by
  obtain ⟨t, ht, h⟩ := exists_of_bind_ok h
  obtain ⟨q, hq, h⟩ := exists_of_bind_ok h
  cases h
  obtain ⟨hstripped, hcontent⟩ := normalizeContent_spec ht
  obtain ⟨hnonneg, hle⟩ := validateConfidence_spec hq
  refine ⟨?_, hcontent, ?_, hnonneg, hle⟩
  · dsimp only
    exact hstripped
  · dsimp only
    exact normalizeCategory_nonblank category

theorem elim_spec {α β : Type} {Q : β → Prop} {f : α → Except MemoryError β} {b b' : β}
    (hb : Q b) (hf : ∀ a c, f a = .ok c → Q c) :
    ∀ {x : Option α}, x.elim (pure b) f = .ok b' → Q b'
  | none, h => by
    cases h
    exact hb
  | some a, h => hf a b' h

theorem FactEdit.wellFormed_apply {e : FactEdit} {f g : MemoryFact} (hf : f.WellFormed)
    (h : e.apply f = .ok g) : g.WellFormed := by
  obtain ⟨t, ht, h⟩ := exists_of_bind_ok h
  obtain ⟨q, hq, h⟩ := exists_of_bind_ok h
  cases h
  obtain ⟨hstripped, hcontent⟩ := elim_spec (Q := fun t => stripText t = t ∧ t ≠ "")
    ⟨hf.stripped, hf.content⟩ (fun _ _ => normalizeContent_spec) ht
  obtain ⟨hnonneg, hle⟩ := elim_spec (Q := fun q : ℚ => 0 ≤ q ∧ q ≤ 1) ⟨hf.nonneg, hf.le_one⟩
    (fun _ _ => validateConfidence_spec) hq
  have hcategory : stripText (e.category.elim f.category normalizeCategory) ≠ "" := by
    cases e.category with
    | none => simpa only [elim_none] using hf.category
    | some category => simpa only [elim_some] using normalizeCategory_nonblank category
  refine ⟨?_, hcontent, ?_, hnonneg, hle⟩
  · dsimp only
    exact hstripped
  · dsimp only
    exact hcategory

theorem editFacts_wellFormed {factId : String} {e : FactEdit} :
    ∀ {fs gs : List MemoryFact}, editFacts factId e fs = .ok gs → (∀ f ∈ fs, f.WellFormed) →
      ∀ g ∈ gs, g.WellFormed
  | [], gs, h, _ => by
    cases h
    simp
  | f :: fs, gs, h, hfs => by
    obtain ⟨g, hg, h⟩ := exists_of_bind_ok h
    obtain ⟨gs', hgs', h⟩ := exists_of_bind_ok h
    cases h
    obtain ⟨hf, hrest⟩ := forall_mem_cons.1 hfs
    refine forall_mem_cons.2 ⟨?_, editFacts_wellFormed hgs' hrest⟩
    unfold FactEdit.applyTo at hg
    split_ifs at hg
    · exact FactEdit.wellFormed_apply hf hg
    · cases hg
      exact hf

section Answers

variable {lib : PyLib} {config : UpdaterConfig}

structure NewFact.Checked (f : NewFact) : Prop where
  stripped : stripText f.content = f.content
  content : f.content ≠ ""
  category : stripText f.category ≠ ""

theorem normalizeMemoryUpdateFact_checked {v : Decoded} {f : NewFact}
    (h : normalizeMemoryUpdateFact lib v = .ok (some f)) : f.Checked := by
  unfold normalizeMemoryUpdateFact at h
  split at h
  · split at h
    · cases h
    · rename_i fact _ t ht
      obtain ⟨q, -, h⟩ := exists_of_bind_ok h
      cases q with
      | none => cases h
      | some q =>
        cases h
        obtain ⟨hstripped, hcontent⟩ := nonBlank_spec ht
        have hcategory : stripText ((nonBlank (lookup fact "category")).getD "context") ≠ "" := by
          cases hc : nonBlank (lookup fact "category") with
          | none => decide +kernel
          | some category =>
            obtain ⟨hs, hne⟩ := nonBlank_spec hc
            rw [getD_some, hs]
            exact hne
        refine ⟨?_, hcontent, ?_⟩
        · dsimp only
          exact hstripped
        · dsimp only
          exact hcategory
  · cases h

theorem normalizeNewFacts_checked : ∀ {vs : List Decoded} {fs : List NewFact} {dropped : Bool},
    normalizeNewFacts lib vs = .ok (fs, dropped) → ∀ f ∈ fs, f.Checked
  | [], fs, dropped, h => by
    cases h
    simp
  | v :: vs, fs, dropped, h => by
    obtain ⟨x, hx, h⟩ := exists_of_bind_ok h
    obtain ⟨⟨fs', dropped'⟩, hfs', h⟩ := exists_of_bind_ok h
    cases h
    intro f hf
    rcases mem_append.1 hf with hf | hf
    · rw [mem_toList] at hf
      cases hf
      exact normalizeMemoryUpdateFact_checked hx
    · exact normalizeNewFacts_checked hfs' f hf

theorem normalizeMemoryUpdateData_checked {kvs : List (String × Decoded)} {u : UpdateData}
    (h : normalizeMemoryUpdateData lib kvs = .ok u) : ∀ f ∈ u.newFacts, f.Checked := by
  have hnew : ∀ {x : Except MemoryError (List NewFact × Bool)} {k : List NewFact × Bool →
      Except MemoryError UpdateData}, (∀ y v, k y = .ok v → v.newFacts = y.1) →
      (x >>= k) = .ok u → ∃ dropped, x = .ok (u.newFacts, dropped) := by
    intro x k hk h
    obtain ⟨⟨fs, dropped⟩, hx, h⟩ := exists_of_bind_ok h
    exact ⟨dropped, by rw [hk _ _ h]; exact hx⟩
  unfold normalizeMemoryUpdateData at h
  simp only at h
  split at h
  · obtain ⟨dropped, hfs⟩ := hnew (fun y v h => by split_ifs at h <;> cases h; rfl) h
    exact normalizeNewFacts_checked hfs
  · obtain ⟨dropped, hfs⟩ := hnew (fun y v h => by split_ifs at h <;> cases h; rfl) h
    have hnone : [] = u.newFacts := congrArg Prod.fst (Except.ok.inj hfs)
    simp [← hnone]

theorem parseMemoryUpdateText_checked {u : UpdateData} :
    ∀ {cs : List Char}, parseMemoryUpdateText lib cs = .ok u → ∀ f ∈ u.newFacts, f.Checked
  | [], h => by cases h
  | c :: cs, h => by
    unfold parseMemoryUpdateText at h
    split at h
    · split_ifs at h
      · exact normalizeMemoryUpdateData_checked h
      · exact parseMemoryUpdateText_checked h
    · exact parseMemoryUpdateText_checked h

theorem wellFormed_of_makes {ctx : UpdateContext} {fs : List NewFact} {g : MemoryFact}
    (hthreshold : 0 ≤ config.factConfidenceThreshold) (hfs : ∀ f ∈ fs, f.Checked ∧ f.confidence ≤ 1)
    (hg : ctx.Makes config fs g) : g.WellFormed := by
  obtain ⟨n, f, hf, hhigh, rfl⟩ := hg
  obtain ⟨hchecked, hle⟩ := hfs f hf
  have hcontent : (ctx.entry n f).content = f.content := hchecked.stripped
  refine ⟨?_, ?_, hchecked.category, hthreshold.trans hhigh, hle⟩
  · rw [hcontent]
    exact hchecked.stripped
  · rw [hcontent]
    exact hchecked.content

def MemoryChange.Checked : MemoryChange → Prop
  | .create f => f.WellFormed
  | .revise _ u => ∀ f ∈ u.newFacts, f.Checked ∧ f.confidence ≤ 1
  | _ => True

theorem MemoryChange.wellFormed_of_apply {change : MemoryChange} {d d' : MemoryData}
    (hthreshold : 0 ≤ config.factConfidenceThreshold) (hchange : change.Checked)
    (h : change.apply lib config d = .ok d') (hd : d.WellFormed) : d'.WellFormed := by
  cases change with
  | create f =>
    cases h
    exact forall_mem_append.2 ⟨hd, forall_mem_singleton.2 hchange⟩
  | edit factId e =>
    obtain ⟨facts, hfacts, rfl⟩ := facts_of_edit h
    exact editFacts_wellFormed hfacts hd
  | delete factId =>
    obtain ⟨rfl, -⟩ := facts_of_delete h
    exact fun g hg => hd g (mem_filter.1 hg).1
  | clear =>
    cases h
    intro g hg
    cases hg
  | revise ctx u =>
    obtain rfl := facts_of_revise h
    intro g hg
    obtain ⟨added, hmerged, hadded⟩ := mergedFacts_spec lib config ctx u d.facts
    have hg' := mem_of_mem_limitFacts config (mem_filter.1 hg).1
    rcases mem_append.1 (hmerged ▸ hg') with hg | hg
    · exact hd g (mem_filter.1 hg).1
    · exact wellFormed_of_makes hthreshold hchange (hadded g hg)

end Answers

section Desk

variable {μ : Type}

def CallPhase.data? : CallPhase → Option MemoryData
  | .storing _ d | .thinking d | .replaced d | .recording d _ => some d
  | .saving draft => some draft.data
  | _ => none

structure MemoryDesk.All (P : MemoryData → Prop) (s : MemoryDesk μ) : Prop where
  stored : P s.stored
  cache : ∀ d mtime, s.cache = some (d, mtime) → P d
  calls : ∀ x ∈ s.calls, ∀ d, x.2.data? = some d → P d

variable {lib : PyLib} {config : UpdaterConfig} {format : List μ → String}
  {P : MemoryData → Prop} {s s' : MemoryDesk μ} {i : ℕ} {call : MemoryCall μ}

def KeptByEdits (lib : PyLib) (config : UpdaterConfig) (μ : Type) (P : MemoryData → Prop) : Prop :=
  ∀ (call : MemoryCall μ) change, call.userEdit = some (.ok change) →
    ∀ d d', change.apply lib config d = .ok d' → P d → P d'

variable {loaded d : MemoryData}

theorem all_draftPhase {change : MemoryChange}
    (hkept : ∀ d d', change.apply lib config d = .ok d' → P d → P d') (hloaded : P loaded)
    (hd : (draftPhase lib config loaded change).data? = some d) : P d := by
  unfold draftPhase at hd
  split at hd
  · cases hd
  · rename_i data hdata
    cases hd
    exact hkept loaded _ hdata hloaded

theorem all_afterLoad (hkept : KeptByEdits lib config μ P)
    (hloaded : P loaded) (hd : (call.afterLoad lib config format loaded).data? = some d) : P d := by
  unfold MemoryCall.afterLoad at hd
  split at hd
  · split_ifs at hd
    · cases hd
    · cases hd
      exact hloaded
  · split at hd
    · rename_i change hchange
      exact all_draftPhase (hkept _ change hchange) hloaded hd
    · cases hd
    · cases hd

theorem MemoryDesk.All.setPhase {phase : CallPhase} (hs : s.All P)
    (hphase : ∀ d, phase.data? = some d → P d) : (s.setPhase i call phase).All P where
  stored := hs.stored
  cache := hs.cache
  calls := Slots.forall_mem_set hs.calls hphase

variable {d : MemoryData}

theorem MemoryDesk.All.withCache {mtime : Option ℤ} (hs : s.All P) (hd : P d) :
    { s with cache := some (d, mtime) }.All P where
  stored := hs.stored
  cache d' mtime' h := by
    cases h
    exact hd
  calls := hs.calls

theorem MemoryDesk.All.cached {mtime : Option ℤ} (hs : s.All P)
    (h : s.cached mtime = some d) : P d := by
  obtain ⟨⟨d', m⟩, hc, rfl⟩ := map_eq_some_iff.1 h
  exact hs.cache d' m (eq_some_of_filter_eq_some hc)

def MemoryDeskAct.Kept (lib : PyLib) (config : UpdaterConfig) (P : MemoryData → Prop) :
    MemoryDeskAct μ → Prop
  | .respond _ _ _ (some content) => ∀ ctx u d d', parseMemoryUpdateResponse lib content = .ok u →
      reviseMemory lib config ctx u d = .ok d' → P d → P d'
  | _ => True

theorem all_finalizeUpdate {ctx : UpdateContext}
    {answer : Option SubagentContent} {now : String} {hex : ℕ → String}
    (hkept : (MemoryDeskAct.respond i now hex answer : MemoryDeskAct μ).Kept lib config P)
    (hloaded : P loaded) (hd : (finalizeUpdate lib config ctx loaded answer).data? = some d) :
    P d := by
  unfold finalizeUpdate at hd
  split at hd
  · cases hd
  · split at hd
    · cases hd
    · rename_i u hu
      split at hd
      · cases hd
      · rename_i data hdata
        cases hd
        exact hkept ctx u loaded _ hu hdata hloaded

theorem MemoryDesk.All.stepCall {act : MemoryDeskAct μ} {phase : CallPhase} (hempty : P {})
    (hedits : KeptByEdits lib config μ P) (hact : act.Kept lib config P) (hs : s.All P)
    (hphase : ∀ d, phase.data? = some d → P d)
    (h : s.stepCall lib config format act i call phase = some s') : s'.All P := by
  cases phase with
  | called =>
    cases act <;> simp only [MemoryDesk.stepCall, reduceCtorEq] at h
    cases h
    exact hs.setPhase (by rintro _ ⟨⟩)
  | statted mtime =>
    cases act <;> simp only [MemoryDesk.stepCall, reduceCtorEq] at h
    cases h
    refine hs.setPhase fun d hd => ?_
    cases hc : s.cached mtime with
    | none =>
      rw [hc] at hd
      cases hd
    | some loaded =>
      rw [hc] at hd
      exact all_afterLoad hedits (hs.cached hc) hd
  | reading mtime =>
    cases act <;> simp only [MemoryDesk.stepCall, reduceCtorEq] at h
    cases h
    refine hs.setPhase fun d hd => ?_
    cases hd
    split_ifs
    · exact hempty
    · exact hs.stored
  | storing mtime data =>
    cases act <;> simp only [MemoryDesk.stepCall, reduceCtorEq] at h
    cases h
    have hdata := hphase data rfl
    exact (hs.withCache hdata).setPhase fun d hd => all_afterLoad hedits hdata hd
  | thinking loaded =>
    cases act <;> simp only [MemoryDesk.stepCall, reduceCtorEq] at h
    cases h
    exact hs.setPhase fun d hd => all_finalizeUpdate hact (hphase loaded rfl) hd
  | saving draft =>
    have hdata := hphase draft.data rfl
    cases act <;> simp only [MemoryDesk.stepCall, reduceCtorEq] at h
    · cases h
      exact All.setPhase ⟨hdata, hs.cache, hs.calls⟩ fun d hd => by
        cases hd
        exact hdata
    · cases h
      refine hs.setPhase fun d hd => ?_
      cases hfail : call.saveFailure <;> rw [hfail] at hd <;> cases hd
  | replaced data =>
    cases act <;> simp only [MemoryDesk.stepCall, reduceCtorEq] at h
    cases h
    refine hs.setPhase fun d hd => ?_
    cases hd
    exact hphase data rfl
  | recording data mtime =>
    cases act <;> simp only [MemoryDesk.stepCall, reduceCtorEq] at h
    cases h
    exact (hs.withCache (hphase data rfl)).setPhase (by rintro _ ⟨⟩)
  | done result => cases h

theorem all_start (hempty : P {}) (hd : (call.start config).data? = some d) :
    P d := by
  unfold MemoryCall.start at hd
  split at hd
  · split_ifs at hd <;> cases hd
  · cases hd
    exact hempty
  · split at hd <;> cases hd

theorem MemoryDesk.All.step {act : MemoryDeskAct μ} (hempty : P {})
    (hedits : KeptByEdits lib config μ P) (hs : s.All P) (hact : act.Kept lib config P)
    (h : (memoryDesk lib config format).step s act = some s') : s'.All P := by
  have hcall : ∀ i, (s.calls[i]?.bind fun x => s.stepCall lib config format act i x.1 x.2) =
      some s' → s'.All P := by
    intro i h
    obtain ⟨⟨call, phase⟩, hi, h⟩ := bind_eq_some_iff.1 h
    exact hs.stepCall hempty hedits hact (hs.calls _ (mem_of_getElem? hi)) h
  cases act with
  | call c =>
    cases h
    exact ⟨hs.stored, hs.cache, Slots.forall_mem_concat hs.calls fun d => all_start hempty⟩
  | stat i _ | lookup i | read i _ | store i | respond i _ _ _ | replace i _
  | writeFails i | record i => exact hcall i h

end Desk

section Stored

variable {lib : PyLib} {config : UpdaterConfig} {μ : Type} {format : List μ → String}

def MemoryDeskAct.answersInRange (lib : PyLib) : MemoryDeskAct μ → Bool
  | .respond _ _ _ (some content) =>
    (parseMemoryUpdateResponse lib content).toOption.all fun u => u.newFacts.all (·.confidence ≤ 1)
  | _ => true

theorem wellFormed_keptByEdits (hthreshold : 0 ≤ config.factConfidenceThreshold) :
    KeptByEdits lib config μ MemoryData.WellFormed := by
  intro call change hedit d d' happly hd
  refine MemoryChange.wellFormed_of_apply hthreshold ?_ happly hd
  cases call with
  | createMemoryFact content category confidence now hex =>
    simp only [MemoryCall.userEdit, some.injEq] at hedit
    cases hf : manualFact content category confidence now hex with
    | error e =>
      rw [hf] at hedit
      cases hedit
    | ok f =>
      rw [hf] at hedit
      cases hedit
      exact wellFormed_manualFact hf
  | updateMemoryFact factId e | deleteMemoryFact factId | clearMemoryData =>
    cases hedit
    trivial
  | updateMemory messages threadId => cases hedit

theorem wellFormed_kept {act : MemoryDeskAct μ} (hthreshold : 0 ≤ config.factConfidenceThreshold)
    (hact : act.answersInRange lib) : act.Kept lib config MemoryData.WellFormed := by
  unfold MemoryDeskAct.Kept
  split
  · intro ctx u d d' hparse hrevise hd
    simp only [MemoryDeskAct.answersInRange, hparse] at hact
    have hchecked : (MemoryChange.revise ctx u).Checked := fun f hf =>
      ⟨parseMemoryUpdateText_checked hparse f hf, of_decide_eq_true (all_eq_true.1 hact f hf)⟩
    exact MemoryChange.wellFormed_of_apply hthreshold hchecked hrevise hd
  · trivial

/-- In every run from an empty memory, whatever its calls do at the same time, where no fact of an
answer has a confidence beyond one, the facts that are stored are well formed. -/
theorem stored_facts_well_formed {acts : List (MemoryDeskAct μ)} {s : MemoryDesk μ}
    (hthreshold : 0 ≤ config.factConfidenceThreshold)
    (hok : ∀ act ∈ acts, act.answersInRange lib = true)
    (hrun : (memoryDesk lib config format).run acts {} = some s) : s.stored.WellFormed := by
  have h0 : ({} : MemoryDesk μ).All MemoryData.WellFormed :=
    { stored := nofun
      cache := nofun
      calls := fun x hx => by cases hx }
  have hs : s.All MemoryData.WellFormed :=
    Machine.run_inv (fun _ _ _ hs hact h => hs.step nofun
      (wellFormed_keptByEdits hthreshold) (wellFormed_kept hthreshold hact) h) h0
      (Machine.along_of_forall hok _) hrun
  exact hs.stored

def oneFactAnswer (confidence : String) : String :=
  "\x7b\"user\": \x7b\x7d, \"history\": \x7b\x7d, \"newFacts\": [\x7b\"content\": \" likes tea \", "
    ++ "\"confidence\": " ++ confidence ++ "\x7d], \"factsToRemove\": []\x7d"

def oneFactLib (text : String) (confidence : ℚ) : PyLib :=
  { plainLib with
    rawDecode cs := if cs = (oneFactAnswer text).toList then
        some (.obj [("user", .obj []), ("history", .obj []),
          ("newFacts", .arr [.obj [("content", .str " likes tea "),
            ("confidence", .float (.finite confidence))]]),
          ("factsToRemove", .arr [])])
      else none }

def oneUpdate (text : String) : List (MemoryDeskAct String) :=
  [.call (.updateMemory ["hi"] none), .stat 0 false, .lookup 0, .read 0 false, .store 0,
    .respond 0 "t" (fun _ => "bb") (some (.str (oneFactAnswer text))), .replace 0 7]

theorem answer_stores_confidence_five :
    ∃ s, (memoryDesk (oneFactLib "5.0" 5) {} String.join).run (oneUpdate "5.0") {} = some s ∧
      s.stored.facts.map (·.confidence) = [5] ∧ ¬ s.stored.WellFormed := by
  obtain ⟨s, hrun, hfive⟩ : ∃ s,
      (memoryDesk (oneFactLib "5.0" 5) {} String.join).run (oneUpdate "5.0") {} = some s ∧
        s.stored.facts.map (·.confidence) = [5] :=
    Machine.exists_of_run_any (by decide +kernel)
  refine ⟨s, hrun, hfive, fun hwell => ?_⟩
  obtain ⟨f, hf, hconfidence⟩ : ∃ f ∈ s.stored.facts, f.confidence = 5 :=
    mem_map.1 (by rw [hfive]; exact mem_singleton_self _)
  have := (hwell f hf).le_one
  rw [hconfidence] at this
  exact absurd this (by decide +kernel)

theorem answer_in_range_is_well_formed :
    ∃ s, (memoryDesk (oneFactLib "1.0" 1) {} String.join).run (oneUpdate "1.0") {} = some s ∧
      s.stored.facts.map (·.content) = ["likes tea"] ∧ s.stored.WellFormed := by
  obtain ⟨s, hrun, hfacts⟩ : ∃ s,
      (memoryDesk (oneFactLib "1.0" 1) {} String.join).run (oneUpdate "1.0") {} = some s ∧
        s.stored.facts.map (·.content) = ["likes tea"] :=
    Machine.exists_of_run_any (by decide +kernel)
  exact ⟨s, hrun, hfacts, stored_facts_well_formed (by decide +kernel) (by decide +kernel) hrun⟩

end Stored

end DeerFlow
