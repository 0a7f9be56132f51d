import DeerFlow.Journal

/-!
# What the journal counts

Each message and each external record offers a contribution; of those with tokens the first of every
source is taken. The accumulators are the sums over what was taken.
-/

namespace DeerFlow

open List Option ExternalUsage UsageCall

variable {J : Type}

inductive Source where
  | llm (rid : String)
  | external (sourceRunId : String)
  deriving DecidableEq

def Source.isLlm : Source → Bool
  | .llm _ => true
  | .external _ => false

structure Contribution where
  source : Source
  bucket : Bucket
  model : String
  input : Int
  output : Int
  total : Int

def ResponseMessage.offer (rid : String) (tags : Option (List (Option String)))
    (m : ResponseMessage J) : Contribution where
  source := .llm rid
  bucket := .ofCaller (identifyCaller tags)
  model := (orText (orText m.modelName m.model) none).getD "unknown"
  input := (m.usage.getD {}).inputTokens.getD 0
  output := (m.usage.getD {}).outputTokens.getD 0
  total := RunJournal.totalOf (m.usage.getD {})

def ExternalUsage.offer (x : ExternalUsage) : Contribution where
  source := .external x.sourceRunId
  bucket := .ofCaller x.caller
  model := (orText x.modelName none).getD "unknown"
  input := x.usage.inputTokens.getD 0
  output := x.usage.outputTokens.getD 0
  total := RunJournal.externalTotal x.usage

def UsageCall.offers : UsageCall J → List Contribution
  | .onLlmEnd rid tags _ messages => messages.map fun m => m.offer rid tags
  | .recordExternal records => records.map offer

/-- An offer that counts: tokens are tracked, it has some, and an external source has a name. -/
def Contribution.Counts (track : Bool) (c : Contribution) : Prop :=
  track = true ∧ 0 < c.total ∧ c.source ≠ .external ""

instance (track : Bool) (c : Contribution) : Decidable (c.Counts track) :=
  inferInstanceAs (Decidable (_ ∧ _))

def take (track : Bool) (taken : List Contribution) (c : Contribution) : List Contribution :=
  if c.Counts track ∧ c.source ∉ taken.map Contribution.source then taken ++ [c] else taken

def taken (track : Bool) (offers : List Contribution) : List Contribution :=
  offers.foldl (take track) []

theorem taken_concat (track : Bool) (offers : List Contribution) (c : Contribution) :
    taken track (offers ++ [c]) = take track (taken track offers) c := by
  simp [taken]

theorem taken_nodup (track : Bool) (offers : List Contribution) :
    ((taken track offers).map Contribution.source).Nodup := by
  induction offers using reverseRecOn with
  | nil => exact nodup_nil
  | append_singleton offers c ih =>
    rw [taken_concat, take]
    split_ifs with h
    · rw [map_append]
      refine nodup_append.2 ⟨ih, by simp, ?_⟩
      rintro s hs t ht rfl
      rw [map_cons, map_nil, mem_singleton] at ht
      exact h.2 (ht ▸ hs)
    · exact ih

theorem taken_sublist (track : Bool) (offers : List Contribution) :
    (taken track offers).Sublist offers := by
  induction offers using reverseRecOn with
  | nil => exact List.Sublist.refl _
  | append_singleton offers c ih =>
    rw [taken_concat, take]
    split_ifs with h
    · exact ih.append (List.Sublist.refl _)
    · exact ih.trans (sublist_append_left _ _)

theorem mem_taken_source {track : Bool} {offers : List Contribution} {c : Contribution}
    (hc : c ∈ offers) (h : c.Counts track) :
    c.source ∈ (taken track offers).map Contribution.source := by
  induction offers using reverseRecOn with
  | nil => simp at hc
  | append_singleton offers d ih =>
    rw [taken_concat, take]
    split_ifs with hd
    · rw [map_append, mem_append]
      rcases mem_append.1 hc with hc | hc
      · exact .inl (ih hc)
      · rw [mem_singleton] at hc
        exact .inr (by simp [hc])
    · rcases mem_append.1 hc with hc | hc
      · exact ih hc
      · rw [mem_singleton] at hc
        subst hc
        by_contra hn
        exact hd ⟨h, hn⟩

def usageOf (cs : List Contribution) : ModelUsage where
  inputTokens := (cs.map Contribution.input).sum
  outputTokens := (cs.map Contribution.output).sum
  totalTokens := (cs.map Contribution.total).sum

theorem usageOf_concat (cs : List Contribution) (c : Contribution) :
    usageOf (cs ++ [c]) = ⟨(usageOf cs).inputTokens + c.input,
      (usageOf cs).outputTokens + c.output, (usageOf cs).totalTokens + c.total⟩ := by
  simp [usageOf]

namespace RunJournal

variable {cs : List Contribution} {j : RunJournal J} {track : Bool}

def tokensOf (j : RunJournal J) : Bucket → Int
  | .subagent => j.subagentTokens
  | .middleware => j.middlewareTokens
  | .leadAgent => j.leadAgentTokens

def totals (j : RunJournal J) : ModelUsage :=
  ⟨j.totalInputTokens, j.totalOutputTokens, j.totalTokens⟩

def modelTotals (j : RunJournal J) : ModelUsage where
  inputTokens := (j.tokensByModel.values.map ModelUsage.inputTokens).sum
  outputTokens := (j.tokensByModel.values.map ModelUsage.outputTokens).sum
  totalTokens := (j.tokensByModel.values.map ModelUsage.totalTokens).sum

structure Sums (j : RunJournal J) (cs : List Contribution) : Prop where
  totals : j.totals = usageOf cs
  bucket : ∀ b, j.tokensOf b = (usageOf (cs.filter fun c => c.bucket = b)).totalTokens
  model : ∀ key, (j.tokensByModel.get? key).getD {} = usageOf (cs.filter fun c => c.model = key)
  models : j.modelTotals = usageOf cs

structure Seen (j : RunJournal J) (cs : List Contribution) : Prop where
  llm : ∀ rid, rid ∈ j.countedLlmRunIds ↔ .llm rid ∈ cs.map Contribution.source
  external : ∀ sid, sid ∈ j.countedExternalSourceIds ↔ .external sid ∈ cs.map Contribution.source
  calls : j.llmCallCount = (cs.filter fun c => c.source.isLlm).length

theorem account_spec (j : RunJournal J) (caller : String) (modelName : Option String)
    (input output : Int) {total : Int} (h : 0 < total) :
    (j.account caller modelName input output total).totals
      = ⟨j.totalInputTokens + input, j.totalOutputTokens + output, j.totalTokens + total⟩
    ∧ (∀ b, (j.account caller modelName input output total).tokensOf b
      = j.tokensOf b + if Bucket.ofCaller caller = b then total else 0)
    ∧ (j.account caller modelName input output total).tokensByModel
      = let key := (orText modelName none).getD "unknown"
        let bucket := (j.tokensByModel.get? key).getD {}
        j.tokensByModel.set key
          ⟨bucket.inputTokens + input, bucket.outputTokens + output, bucket.totalTokens + total⟩ := by
  have ht : ¬ total ≤ 0 := by omega
  unfold account recordModelUsage
  simp only [if_neg ht]
  cases hb : Bucket.ofCaller caller <;> refine ⟨rfl, ?_, rfl⟩ <;> intro b <;> cases b <;>
    simp [tokensOf]

@[simp] theorem account_counted (j : RunJournal J) (caller : String) (modelName : Option String)
    (input output total : Int) :
    (j.account caller modelName input output total).countedLlmRunIds = j.countedLlmRunIds
    ∧ (j.account caller modelName input output total).countedExternalSourceIds
      = j.countedExternalSourceIds
    ∧ (j.account caller modelName input output total).llmCallCount = j.llmCallCount
    ∧ (j.account caller modelName input output total).trackTokens = j.trackTokens := by
  unfold account recordModelUsage
  cases Bucket.ofCaller caller <;> dsimp only <;> split_ifs <;> exact ⟨rfl, rfl, rfl, rfl⟩

theorem Sums.account (h : j.Sums cs)
    {c : Contribution} {caller : String} {modelName : Option String} (hpos : 0 < c.total)
    (hb : c.bucket = .ofCaller caller) (hm : c.model = (orText modelName none).getD "unknown") :
    (j.account caller modelName c.input c.output c.total).Sums (cs ++ [c]) := by
  obtain ⟨hin, hbu, hmo⟩ := account_spec j caller modelName c.input c.output hpos
  rw [← hm] at hmo
  rw [← hb] at hbu
  have htot := h.totals
  simp only [RunJournal.totals, usageOf, ModelUsage.mk.injEq] at htot
  refine ⟨?_, ?_, ?_, ?_⟩
  · rw [hin, usageOf_concat]
    simp [htot, usageOf]
  · intro b
    rw [hbu b, h.bucket b, filter_append]
    by_cases hcb : c.bucket = b
    · simp [hcb, usageOf]
    · simp [hcb, usageOf]
  · intro key
    rw [hmo, OrdDict.get?_set, filter_append]
    by_cases hk : c.model = key
    · subst hk
      simp only [if_true, getD_some, h.model c.model, filter_cons, decide_true,
        filter_nil, usageOf_concat]
    · simp [hk, h.model key]
  · have hms := h.models
    simp only [modelTotals, usageOf, ModelUsage.mk.injEq] at hms
    have hold : ∀ f : ModelUsage → Int, f {} = 0 → ((j.tokensByModel.get? c.model).map f).getD 0
          = f ((j.tokensByModel.get? c.model).getD {}) := by
      intro f hf
      cases j.tokensByModel.get? c.model <;> simp [hf]
    rw [usageOf_concat]
    simp only [modelTotals, hmo, OrdDict.sum_set, hms, hold ModelUsage.inputTokens rfl,
      hold ModelUsage.outputTokens rfl, hold ModelUsage.totalTokens rfl, usageOf,
      ModelUsage.mk.injEq]
    exact ⟨by omega, by omega, by omega⟩

structure Reflects (track : Bool) (j : RunJournal J) (cs : List Contribution) : Prop where
  track : j.trackTokens = track
  sums : j.Sums cs
  seen : j.Seen cs

theorem Sums.congr {j j' : RunJournal J} (h : j.Sums cs)
    (ht : j'.totals = j.totals) (hb : ∀ b, j'.tokensOf b = j.tokensOf b)
    (hm : j'.tokensByModel = j.tokensByModel) : j'.Sums cs where
  totals := ht.trans h.totals
  bucket b := (hb b).trans (h.bucket b)
  model key := by rw [hm, h.model key]
  models := by rw [← h.models, modelTotals, modelTotals, hm]

theorem Reflects.congr
    (h : j.Reflects track cs) (times : OrdDict String ℕ) (index : ℕ)
    (starts summarized : List String) (events : List (JournalEvent J)) (lastMsg : Option String)
    (count : ℕ) (fallback : Bool) (fallbackMsg : Option String) :
    ({ j with
      llmStartTimes := times, llmCallIndex := index, seenLlmStarts := starts
      countedMessageLlmRunIds := summarized, emitted := events, lastAiMsg := lastMsg
      msgCount := count, hadLlmErrorFallback := fallback
      llmErrorFallbackMessage := fallbackMsg } : RunJournal J).Reflects track cs :=
  ⟨h.track, h.sums.congr rfl (fun b => by cases b <;> rfl) rfl,
    ⟨h.seen.llm, h.seen.external, h.seen.calls⟩⟩

theorem reflects_fresh (track : Bool) :
    ({ trackTokens := track } : RunJournal J).Reflects track [] := by
  refine ⟨rfl, ⟨rfl, ?_, ?_, rfl⟩, ⟨by simp, by simp, rfl⟩⟩
  · intro b
    cases b <;> rfl
  · intro key
    simp [usageOf]

theorem Reflects.account
    {c : Contribution} {caller : String} {modelName : Option String}
    (ht : j.trackTokens = track) (hs : j.Sums cs) (hn : j.Seen (cs ++ [c])) (hpos : 0 < c.total)
    (hb : c.bucket = .ofCaller caller) (hm : c.model = (orText modelName none).getD "unknown") :
    (j.account caller modelName c.input c.output c.total).Reflects track (cs ++ [c]) := by
  obtain ⟨hl, he, hc, ht'⟩ := account_counted j caller modelName c.input c.output c.total
  exact ⟨ht'.trans ht, hs.account hpos hb hm,
    ⟨fun rid => by rw [hl, hn.llm], fun sid => by rw [he, hn.external], hc.trans hn.calls⟩⟩

theorem Reflects.countMessage
    (h : j.Reflects track cs) (rid : String) (tags : Option (List (Option String)))
    (m : ResponseMessage J) :
    (j.countMessage rid (identifyCaller tags) m).Reflects track
      (take track cs (m.offer rid tags)) := by
  have hiff : ((m.offer rid tags).Counts track
        ∧ (m.offer rid tags).source ∉ cs.map Contribution.source)
      ↔ j.trackTokens ∧ 0 < totalOf (m.usage.getD {}) ∧ rid ∉ j.countedLlmRunIds := by
    rw [h.seen.llm rid, h.track]
    simp [Contribution.Counts, ResponseMessage.offer, and_assoc]
  unfold RunJournal.countMessage take
  by_cases hc : j.trackTokens ∧ 0 < totalOf (m.usage.getD {}) ∧ rid ∉ j.countedLlmRunIds
  · rw [if_pos (hiff.2 hc), if_pos (by simpa [and_assoc] using hc)]
    refine Reflects.account (c := m.offer rid tags) h.track
      (h.sums.congr rfl (fun b => by cases b <;> rfl) rfl) ⟨?_, ?_, ?_⟩ hc.2.1 rfl rfl
    · intro r
      simp [h.seen.llm r, ResponseMessage.offer]
    · intro sid
      simp [h.seen.external sid, ResponseMessage.offer]
    · simp [h.seen.calls, ResponseMessage.offer, Source.isLlm]
  · rw [if_neg fun hc' => hc (hiff.1 hc'), if_neg (by simpa [and_assoc] using hc)]
    exact h

theorem Reflects.recordExternalUsage
    (h : j.Reflects true cs) (x : ExternalUsage) :
    (j.recordExternalUsage x).Reflects true (take true cs x.offer) := by
  have hiff : (x.offer.Counts true ∧ x.offer.source ∉ cs.map Contribution.source)
      ↔ x.sourceRunId ≠ "" ∧ x.sourceRunId ∉ j.countedExternalSourceIds
        ∧ 0 < externalTotal x.usage := by
    rw [h.seen.external]
    simp only [Contribution.Counts, offer, ne_eq, Source.external.injEq, true_and]
    tauto
  unfold RunJournal.recordExternalUsage take
  by_cases hc : x.sourceRunId ≠ "" ∧ x.sourceRunId ∉ j.countedExternalSourceIds
      ∧ 0 < externalTotal x.usage
  · rw [if_pos (hiff.2 hc), if_neg hc.1, if_neg hc.2.1, if_neg (by omega)]
    refine Reflects.account (c := x.offer) h.track
      (h.sums.congr rfl (fun b => by cases b <;> rfl) rfl) ⟨?_, ?_, ?_⟩ hc.2.2 rfl rfl
    · intro r
      simp [h.seen.llm r, offer]
    · intro sid
      simp [h.seen.external sid, offer]
    · simp [h.seen.calls, offer, Source.isLlm]
  · rw [if_neg fun hc' => hc (hiff.1 hc')]
    split_ifs with h1 h2 h3
    · exact h
    · exact h
    · exact h
    · exact absurd ⟨h1, h2, by omega⟩ hc

theorem Reflects.onLlmEndMessage
    (h : j.Reflects track cs) (rid : String) (tags : Option (List (Option String))) (now : ℕ)
    (m : ResponseMessage J) :
    (j.onLlmEndMessage rid tags now m).Reflects track (take track cs (m.offer rid tags)) := by
  refine Reflects.countMessage ?_ rid tags m
  have h1 : ∀ times, ({ j with llmStartTimes := times } : RunJournal J).Reflects track cs :=
    fun times => h.congr times _ _ _ _ _ _ _ _
  have h2 : (({ j with llmStartTimes := j.llmStartTimes.pop rid } : RunJournal J).noteFallback
      m).Reflects track cs := by
    unfold noteFallback
    split
    · exact h1 _
    · exact (h1 (j.llmStartTimes.pop rid)).congr _ _ _ _ _ _ _ _ _
  generalize ({ j with llmStartTimes := j.llmStartTimes.pop rid } : RunJournal J).noteFallback m
    = j2 at h2 ⊢
  have h3 : (if rid ∈ j2.seenLlmStarts then j2 else { j2 with
      llmCallIndex := j2.llmCallIndex + 1
      seenLlmStarts := j2.seenLlmStarts ++ [rid] }).Reflects track cs := by
    split_ifs
    · exact h2
    · exact h2.congr _ _ _ _ _ _ _ _ _
  generalize (if rid ∈ j2.seenLlmStarts then j2 else { j2 with
      llmCallIndex := j2.llmCallIndex + 1
      seenLlmStarts := j2.seenLlmStarts ++ [rid] }) = j3 at h3 ⊢
  split_ifs
  · exact h3.congr _ _ _ _ _ _ _ _ _
  · exact h3.congr _ _ _ _ _ _ _ _ _

theorem reflects_foldl {β : Type} {f : RunJournal J → β → RunJournal J}
    (offer : β → Contribution)
    (hf : ∀ j cs b, j.Reflects track cs → (f j b).Reflects track (take track cs (offer b)))
    (bs : List β) (j : RunJournal J) (cs : List Contribution) (h : j.Reflects track cs) :
    (bs.foldl f j).Reflects track ((bs.map offer).foldl (take track) cs) := by
  induction bs generalizing j cs with
  | nil => exact h
  | cons b bs ih => exact ih _ _ (hf j cs b h)

theorem take_untracked (cs : List Contribution) (c : Contribution) : take false cs c = cs := by
  simp [take, Contribution.Counts]

theorem Reflects.apply
    (h : j.Reflects track cs) (call : UsageCall J) :
    (j.apply call).Reflects track (call.offers.foldl (take track) cs) := by
  cases call with
  | onLlmEnd rid tags now messages =>
    have hall := reflects_foldl (f := fun j m => j.onLlmEndMessage rid tags now m)
      (fun m => m.offer rid tags)
      (fun j cs m hj => hj.onLlmEndMessage rid tags now m) messages j cs h
    unfold RunJournal.apply RunJournal.onLlmEnd
    dsimp only
    split_ifs
    · exact hall
    · exact hall
    · exact hall.congr _ _ _ _ _ _ _ _ _
  | recordExternal records =>
    unfold RunJournal.apply RunJournal.recordExternalLlmUsageRecords
    cases track with
    | true =>
      have hall := reflects_foldl offer
        (fun j cs x hj => Reflects.recordExternalUsage hj x) records j cs h
      simpa [h.track, offers] using hall
    | false =>
      have hnone : ∀ offers : List Contribution, offers.foldl (take false) cs = cs := by
        intro offers
        induction offers with
        | nil => rfl
        | cons c offers ih => rw [foldl_cons, take_untracked, ih]
      simpa [h.track, hnone] using h

theorem reflects_run (track : Bool) (calls : List (UsageCall J)) :
    (calls.foldl RunJournal.apply { trackTokens := track }).Reflects track
      (taken track (calls.flatMap offers)) := by
  induction calls using reverseRecOn with
  | nil => exact reflects_fresh track
  | append_singleton calls call ih =>
    have h := ih.apply call
    simpa [taken, foldl_append, flatMap_append] using h

end RunJournal

theorem total_eq_buckets (cs : List Contribution) : (usageOf cs).totalTokens
      = (usageOf (cs.filter fun c => c.bucket = .leadAgent)).totalTokens
        + (usageOf (cs.filter fun c => c.bucket = .subagent)).totalTokens
        + (usageOf (cs.filter fun c => c.bucket = .middleware)).totalTokens := by
  induction cs using reverseRecOn with
  | nil => rfl
  | append_singleton cs c ih =>
    simp only [usageOf_concat, filter_append, ih]
    cases hb : c.bucket <;> simp [hb, usageOf] <;> omega

/-- After any calls the totals are the callers' tokens summed and the models' tokens summed, and all
of them are sums over contributions of which no two come from one source. -/
theorem completion_data_adds_up (track : Bool) (calls : List (UsageCall J)) :
    let d := (calls.foldl RunJournal.apply { trackTokens := track }).getCompletionData
    let models := d.tokenUsageByModel.map Prod.snd
    (d.totalTokens = d.leadAgentTokens + d.subagentTokens + d.middlewareTokens
      ∧ d.totalTokens = (models.map ModelUsage.totalTokens).sum
      ∧ d.totalInputTokens = (models.map ModelUsage.inputTokens).sum
      ∧ d.totalOutputTokens = (models.map ModelUsage.outputTokens).sum)
    ∧ ∃ cs : List Contribution,
      cs.Sublist (calls.flatMap offers) ∧ (cs.map Contribution.source).Nodup
      ∧ (∀ c ∈ calls.flatMap offers, c.Counts track →
          c.source ∈ cs.map Contribution.source)
      ∧ usageOf cs = ⟨d.totalInputTokens, d.totalOutputTokens, d.totalTokens⟩
      ∧ d.leadAgentTokens = (usageOf (cs.filter fun c => c.bucket = .leadAgent)).totalTokens
      ∧ d.subagentTokens = (usageOf (cs.filter fun c => c.bucket = .subagent)).totalTokens
      ∧ d.middlewareTokens = (usageOf (cs.filter fun c => c.bucket = .middleware)).totalTokens
      ∧ (∀ e ∈ d.tokenUsageByModel, e.2 = usageOf (cs.filter fun c => c.model = e.1))
      ∧ d.llmCallCount = (cs.filter fun c => c.source.isLlm).length := by
  have h := RunJournal.reflects_run track calls
  generalize hj : calls.foldl RunJournal.apply { trackTokens := track } = j at h
  have htot := h.sums.totals
  have hmod := h.sums.models.trans htot.symm
  simp only [RunJournal.modelTotals, RunJournal.totals, ModelUsage.mk.injEq, OrdDict.values] at hmod
  obtain ⟨hin, hout, hsum⟩ := hmod
  have hlead := h.sums.bucket .leadAgent
  have hsub := h.sums.bucket .subagent
  have hmid := h.sums.bucket .middleware
  refine ⟨⟨?_, hsum.symm, hin.symm, hout.symm⟩, taken track (calls.flatMap offers),
    taken_sublist _ _, taken_nodup _ _, fun c hc hcount => mem_taken_source hc hcount, htot.symm,
    hlead, hsub, hmid, ?_, h.seen.calls⟩
  · have hparts := total_eq_buckets (taken track (calls.flatMap offers))
    rw [← htot, ← hlead, ← hsub, ← hmid] at hparts
    exact hparts
  · intro e he
    rw [← h.sums.model e.1, OrdDict.mem_entries_iff.1 he]
    rfl

end DeerFlow
