import DeerFlow.Proofs.MemoryUpdates
import DeerFlow.Sandbox.Provider

/-!
# Whose sandbox it is

The mappings of a thread are those of the user who asked for it first. As long as every thread is
asked for by one user, its sandbox has the directories of that user (`SandboxProvider.Owned`), and
none of another user's.
-/

namespace DeerFlow

open List Option PosixPath PurePath

variable {mappings : List PathMapping} {base : PurePath} {cap : ℕ}
variable {s s' : SandboxProvider} {thread user : List Char}

def singleOwner (s : SandboxProvider) : ProviderAct → Bool
  | .acquire user (some thread) => s.calls.all fun c => c.thread ≠ some thread || c.user = user
  | _ => true

def IsSandboxOf (mappings : List PathMapping) (base : PurePath) (thread user : List Char)
    (sandbox : LocalSandbox) : Prop :=
  ∃ built, buildThreadPathMappings base thread user = .ok built ∧
    sandbox = ⟨"local:".toList ++ thread, mappings ++ built⟩

def SandboxProvider.owners (s : SandboxProvider) : List (List Char × Option (List Char)) :=
  s.calls.map fun c => (c.user, c.thread)

def SandboxProvider.Owns (mappings : List PathMapping) (base : PurePath) (s : SandboxProvider)
    (thread : List Char) (sandbox : LocalSandbox) : Prop :=
  ∃ user, (user, some thread) ∈ s.owners ∧ IsSandboxOf mappings base thread user sandbox

def AcquireCall.Known (mappings : List PathMapping) (base : PurePath) (c : AcquireCall) : Prop :=
  ∀ thread, c.thread = some thread →
    match c.phase with
    | .inserting ms =>
      ∃ built, buildThreadPathMappings base thread c.user = .ok built ∧ ms = mappings ++ built
    | .done sandbox => IsSandboxOf mappings base thread c.user sandbox
    | _ => True

structure SandboxProvider.Owned (mappings : List PathMapping) (base : PurePath)
    (s : SandboxProvider) : Prop where
  single : ∀ thread user user', (user, some thread) ∈ s.owners → (user', some thread) ∈ s.owners →
    user = user'
  cached : ∀ e ∈ s.threadSandboxes, s.Owns mappings base e.1 e.2
  known : ∀ c ∈ s.calls, c.Known mappings base
  gets : ∀ g ∈ s.gets, ∀ thread, g.sandboxId = "local:".toList ++ thread →
    ∀ sandbox, g.sandbox = some sandbox → s.Owns mappings base thread sandbox

theorem SandboxProvider.mem_of_cached {sandbox : LocalSandbox} (h : s.cached thread = some sandbox) :
    (thread, sandbox) ∈ s.threadSandboxes := by
  obtain ⟨⟨t, sb⟩, hfind, rfl⟩ := map_eq_some_iff.1 h
  have ht : t = thread := by simpa using find?_some hfind
  exact ht ▸ mem_of_find?_eq_some hfind

theorem SandboxProvider.mem_putLast {sandbox : LocalSandbox} {e : List Char × LocalSandbox}
    (h : e ∈ (s.putLast thread sandbox).threadSandboxes) :
    e ∈ s.threadSandboxes ∨ e = (thread, sandbox) := by
  rcases mem_append.1 h with h | h
  · exact .inl (mem_of_mem_filter h)
  · exact .inr (mem_singleton.1 h)

theorem mem_of_mem_evict {e : List Char × LocalSandbox} : ∀ {es : List (List Char × LocalSandbox)},
    e ∈ evictUntilWithinCap cap es → e ∈ es
  | [], h => h
  | d :: es, h => by
    rw [evictUntilWithinCap] at h
    split_ifs at h
    · exact mem_cons_of_mem _ (mem_of_mem_evict h)
    · exact h

theorem SandboxProvider.owners_moveTo {i : ℕ} {c : AcquireCall} (hi : s.calls[i]? = some c)
    (phase : AcquirePhase) : (s.moveTo i c phase).owners = s.owners := by
  obtain ⟨hlt, rfl⟩ := List.getElem?_eq_some_iff.1 hi
  have hlt' : i < (s.calls.map fun c => (c.user, c.thread)).length := by simpa using hlt
  have hself := set_getElem_self hlt'
  rw [getElem_map] at hself
  unfold owners moveTo
  rw [map_set]
  exact hself

section Step

variable {c : AcquireCall}

theorem SandboxProvider.mem_owners (hc : c ∈ s.calls)
    (ht : c.thread = some thread) : (c.user, some thread) ∈ s.owners :=
  mem_map.2 ⟨c, hc, by rw [ht]⟩

theorem SandboxProvider.Owned.isSandboxOf (hs : s.Owned mappings base) {sandbox : LocalSandbox}
    (h : s.Owns mappings base thread sandbox) (hu : (user, some thread) ∈ s.owners) :
    IsSandboxOf mappings base thread user sandbox := by
  obtain ⟨user', hu', hof⟩ := h
  rw [hs.single thread user user' hu hu']
  exact hof

theorem SandboxProvider.Owned.moveTo {i : ℕ} {phase : AcquirePhase}
    {t : SandboxProvider} (hs : s.Owned mappings base) (hi : s.calls[i]? = some c)
    (hcalls : t.calls = s.calls) (hgets : t.gets = s.gets)
    (hcached : ∀ e ∈ t.threadSandboxes, s.Owns mappings base e.1 e.2)
    (hknown : { c with phase }.Known mappings base) : (t.moveTo i c phase).Owned mappings base := by
  have howners : (t.moveTo i c phase).owners = s.owners := by
    rw [owners_moveTo (by rw [hcalls]; exact hi)]
    unfold owners
    rw [hcalls]
  refine ⟨?_, fun e he => ?_, Slots.forall_mem_set (hcalls ▸ hs.known) hknown,
    fun g hg thread hid sandbox hsandbox => ?_⟩
  · rw [howners]
    exact hs.single
  · obtain ⟨user, hu, hof⟩ := hcached e he
    exact ⟨user, howners ▸ hu, hof⟩
  · obtain ⟨user, hu, hof⟩ := hs.gets g (hgets ▸ hg) thread hid sandbox hsandbox
    exact ⟨user, howners ▸ hu, hof⟩

theorem SandboxProvider.Owned.use {i : ℕ} {sandbox : LocalSandbox}
    (hs : s.Owned mappings base) (hi : s.calls[i]? = some c) (ht : c.thread = some thread)
    (hcached : s.cached thread = some sandbox) :
    ((s.putLast thread sandbox).moveTo i c (.done sandbox)).Owned mappings base := by
  have hmem := mem_of_cached hcached
  have hof : IsSandboxOf mappings base thread c.user sandbox :=
    hs.isSandboxOf (hs.cached _ hmem) (mem_owners (mem_of_getElem? hi) ht)
  refine hs.moveTo hi rfl rfl (fun e he => ?_) fun thread' ht' => ?_
  · rcases mem_putLast he with he | rfl
    · exact hs.cached e he
    · exact hs.cached _ hmem
  · obtain rfl := some.inj (ht.symm.trans ht')
    exact hof

theorem SandboxProvider.Owned.insert {i : ℕ} {ms : List PathMapping}
    (hs : s.Owned mappings base) (hi : s.calls[i]? = some c) (ht : c.thread = some thread)
    (hphase : c.phase = .inserting ms) :
    let sandbox : LocalSandbox := ⟨"local:".toList ++ thread, ms⟩
    let t := s.putLast thread sandbox
    ({ t with threadSandboxes := evictUntilWithinCap cap t.threadSandboxes }.moveTo i c
      (.done sandbox)).Owned mappings base := by
  intro sandbox t
  have hknown := hs.known c (mem_of_getElem? hi) thread ht
  rw [hphase] at hknown
  obtain ⟨built, hbuilt, rfl⟩ := hknown
  have hof : IsSandboxOf mappings base thread c.user sandbox := ⟨built, hbuilt, rfl⟩
  refine hs.moveTo hi rfl rfl (fun e he => ?_) fun thread' ht' => ?_
  · rcases mem_putLast (mem_of_mem_evict he) with he | rfl
    · exact hs.cached e he
    · exact ⟨c.user, mem_owners (mem_of_getElem? hi) ht, hof⟩
  · obtain rfl := some.inj (ht.symm.trans ht')
    exact hof

theorem SandboxProvider.Owned.stepCall {i : ℕ} (hs : s.Owned mappings base)
    (hi : s.calls[i]? = some c) (h : s.stepCall mappings base cap i c = some s') :
    s'.Owned mappings base := by
  unfold SandboxProvider.stepCall at h
  split at h
  · rename_i hphase ht
    cases h
    refine hs.moveTo hi rfl rfl hs.cached fun thread ht' => ?_
    rw [ht] at ht'
    cases ht'
  · rename_i thread hphase ht
    split at h
    · rename_i sandbox hcached
      cases h
      exact hs.use hi ht hcached
    · cases h
      exact hs.moveTo hi rfl rfl hs.cached fun _ _ => trivial
  · rename_i thread hphase ht
    split at h
    · rename_i built hbuilt
      cases h
      refine hs.moveTo hi rfl rfl hs.cached fun thread' ht' => ?_
      obtain rfl := some.inj (ht.symm.trans ht')
      exact ⟨built, hbuilt, rfl⟩
    · cases h
      exact hs.moveTo hi rfl rfl hs.cached fun _ _ => trivial
  · rename_i ms thread hphase ht
    split at h
    · rename_i sandbox hcached
      cases h
      exact hs.use hi ht hcached
    · cases h
      exact hs.insert hi ht hphase
  · cases h

theorem SandboxProvider.Owned.acquire {thread : Option (List Char)} (hs : s.Owned mappings base)
    (hok : singleOwner s (.acquire user thread)) :
    (s.addCall user thread).Owned mappings base := by
  have howners : (s.addCall user thread).owners = s.owners ++ [(user, thread)] := map_append
  have hgrow : ∀ {t sandbox}, s.Owns mappings base t sandbox →
      (s.addCall user thread).Owns mappings base t sandbox := by
    rintro t sandbox ⟨u, hu, hof⟩
    exact ⟨u, howners ▸ mem_append_left _ hu, hof⟩
  have hold : ∀ {t u}, (u, some t) ∈ s.owners → thread = some t → u = user := by
    rintro t u hu rfl
    obtain ⟨c, hc, hcu⟩ := mem_map.1 hu
    have hall := all_eq_true.1 hok c hc
    simp only [Prod.mk.injEq] at hcu
    simpa [hcu.1, hcu.2] using hall
  refine ⟨fun t u u' hu hu' => ?_, fun e he => hgrow (hs.cached e he),
    Slots.forall_mem_concat hs.known fun _ _ => trivial,
    fun g hg t hid sandbox hsandbox => hgrow (hs.gets g hg t hid sandbox hsandbox)⟩
  · rw [howners] at hu hu'
    rcases mem_append.1 hu with hu | hu
    · rcases mem_append.1 hu' with hu' | hu'
      · exact hs.single t u u' hu hu'
      · simp only [mem_singleton, Prod.mk.injEq] at hu'
        rw [hu'.1]
        exact hold hu hu'.2.symm
    · simp only [mem_singleton, Prod.mk.injEq] at hu
      rcases mem_append.1 hu' with hu' | hu'
      · rw [hu.1]
        exact (hold hu' hu.2.symm).symm
      · simp only [mem_singleton, Prod.mk.injEq] at hu'
        rw [hu.1, hu'.1]

theorem SandboxProvider.Owned.get {sandboxId : List Char} (hs : s.Owned mappings base) :
    (s.get mappings user sandboxId).Owned mappings base := by
  have hadd : ∀ {sandbox : Option LocalSandbox},
      (∀ thread, sandboxId = "local:".toList ++ thread → ∀ sb, sandbox = some sb →
        s.Owns mappings base thread sb) →
      ∀ g ∈ s.gets ++ [⟨user, sandboxId, sandbox⟩], ∀ thread,
        g.sandboxId = "local:".toList ++ thread → ∀ sb, g.sandbox = some sb →
          s.Owns mappings base thread sb := by
    exact fun hnew => Slots.forall_mem_concat hs.gets hnew
  unfold SandboxProvider.get
  split_ifs with hlocal hthread
  · refine ⟨hs.single, hs.cached, hs.known, hadd fun thread hid => ?_⟩
    rw [hlocal] at hid
    exact absurd (congrArg length hid) (by simp)
  · dsimp only
    split
    · rename_i sandbox hcached
      have hmem := mem_of_cached hcached
      refine ⟨hs.single, fun e he => ?_, hs.known, hadd fun thread hid sb hsb => ?_⟩
      · rcases mem_putLast he with he | rfl
        · exact hs.cached e he
        · exact hs.cached _ hmem
      · have hdrop : sandboxId.drop 6 = thread := by
          rw [hid]
          rfl
        rw [hdrop] at hmem
        cases hsb
        exact hs.cached _ hmem
    · exact ⟨hs.single, hs.cached, hs.known, hadd nofun⟩
  · exact ⟨hs.single, hs.cached, hs.known, hadd nofun⟩

theorem SandboxProvider.Owned.step {act : ProviderAct} (hs : s.Owned mappings base)
    (hok : singleOwner s act)
    (h : (sandboxProvider mappings base cap).step s act = some s') : s'.Owned mappings base := by
  cases act with
  | acquire user thread =>
    cases h
    exact hs.acquire hok
  | step i =>
    obtain ⟨c, hi, h⟩ := bind_eq_some_iff.1 h
    exact hs.stepCall hi h
  | get user sandboxId =>
    cases h
    exact hs.get
  | reset =>
    cases h
    exact ⟨hs.single, nofun, hs.known, hs.gets⟩

end Step

section Directories

variable {names : List (List Char)}

theorem safe_of_mem {id : List Char} (h : isSafePathId id) {c : Char} (hc : c ∈ id) :
    isSafeChar c ∨ c = '\n' := by
  simp only [isSafePathId, Bool.and_eq_true, List.all_eq_true] at h
  split_ifs at h with hlast
  · rw [← dropLast_append_getLast? _ hlast] at hc
    rcases mem_append.1 hc with hc | hc
    · exact .inl (h.2 c hc)
    · exact .inr (mem_singleton.1 hc)
  · exact .inl (h.2 c hc)

theorem isName_of_isSafePathId {id : List Char} (h : isSafePathId id) : IsName id := by
  refine ⟨?_, ?_, ?_, fun hslash => ?_⟩
  · rintro rfl
    cases h
  · rintro rfl
    exact absurd h (by decide)
  · rintro rfl
    exact absurd h (by decide)
  · rcases safe_of_mem h hslash with h | h
    · exact absurd h (by decide)
    · exact absurd h (by decide)

theorem not_isRelativeTo_userDir (hnames : ∀ n ∈ names, IsName n) {other : List Char}
    (hother : other ≠ user) {built : List PathMapping}
    (h : buildThreadPathMappings ⟨['/'], names⟩ thread user = .ok built) :
    ∀ m ∈ built,
      (ofText m.localPath).isRelativeTo (userDir ⟨['/'], names⟩ other) = false := by
  obtain ⟨dir, hdir, h⟩ := exists_of_bind_ok h
  cases h
  unfold threadDir at hdir
  split_ifs at hdir with huser hthread
  cases hdir
  have hbelow : ∀ (container : List Char) (below : List (List Char)), (∀ n ∈ below, IsName n) →
      (ofText (threadMapping ((userDir ⟨['/'], names⟩ user).div
        ⟨[], ["threads".toList, thread]⟩) container below).localPath).isRelativeTo
          (userDir ⟨['/'], names⟩ other) = false := by
    intro container below hbelow
    have hparts : ∀ n ∈ names ++ ("users".toList :: user :: "threads".toList :: thread :: below),
        IsName n := by
      simp only [forall_mem_append, forall_mem_cons]
      exact ⟨hnames, by decide, isName_of_isSafePathId huser, by decide, isName_of_isSafePathId hthread,
        hbelow⟩
    have htext : (threadMapping ((userDir ⟨['/'], names⟩ user).div
        ⟨[], ["threads".toList, thread]⟩) container below).localPath =
          rooted (names ++ ("users".toList :: user :: "threads".toList :: thread :: below)) := by
      simp [threadMapping, userDir, div, text, rooted]
    rw [htext, ofText_rooted hparts, ← Bool.not_eq_true]
    intro hrel
    simp only [isRelativeTo, userDir, div, Bool.and_eq_true,
      isPrefixOf_iff_prefix, prefix_append_right_inj, cons_prefix_cons] at hrel
    exact hother hrel.2.2.1
  simp only [forall_mem_cons]
  exact ⟨hbelow _ _ (by decide), hbelow _ _ (by decide), hbelow _ _ (by decide),
    hbelow _ _ (by decide), hbelow _ _ (by decide), by simp⟩

end Directories

/-- Where each thread is asked for by one user, the sandbox a user acquires for a thread, and every
sandbox the user gets by its id, has the mappings of the thread's directories of that user; none of
them is a directory of another user. -/
theorem acquired_sandbox_is_of_user {names : List (List Char)} (hnames : ∀ n ∈ names, IsName n)
    {acts : List ProviderAct}
    (hok : (sandboxProvider mappings ⟨['/'], names⟩ cap).Along
      (fun s act => singleOwner s act = true) acts {})
    (hrun : (sandboxProvider mappings ⟨['/'], names⟩ cap).run acts {} = some s) :
    ∀ c ∈ s.calls, ∀ thread, c.thread = some thread → ∀ sandbox,
      (c.phase = .done sandbox ∨ ∃ g ∈ s.gets, g.user = c.user ∧
        g.sandboxId = "local:".toList ++ thread ∧ g.sandbox = some sandbox) →
      ∃ built, buildThreadPathMappings ⟨['/'], names⟩ thread c.user = .ok built ∧
        sandbox.pathMappings = mappings ++ built ∧ ∀ m ∈ built, ∀ other, other ≠ c.user →
          (ofText m.localPath).isRelativeTo (userDir ⟨['/'], names⟩ other) = false := by
  have h0 : SandboxProvider.Owned mappings ⟨['/'], names⟩ {} :=
    ⟨nofun, nofun, nofun, nofun⟩
  have hs : s.Owned mappings ⟨['/'], names⟩ :=
    Machine.run_inv (fun _ _ _ hs hok h => hs.step hok h) h0 hok hrun
  intro c hc thread ht sandbox hsandbox
  have hof : IsSandboxOf mappings ⟨['/'], names⟩ thread c.user sandbox := by
    rcases hsandbox with hdone | ⟨g, hg, -, hid, hgot⟩
    · have hknown := hs.known c hc thread ht
      rw [hdone] at hknown
      exact hknown
    · exact hs.isSandboxOf (hs.gets g hg thread hid sandbox hgot)
        (SandboxProvider.mem_owners hc ht)
  obtain ⟨built, hbuilt, rfl⟩ := hof
  exact ⟨built, hbuilt, rfl, fun m hm other hother =>
    not_isRelativeTo_userDir hnames hother hbuilt m hm⟩

def acquireSteps (i : ℕ) : List ProviderAct := [.step i, .step i, .step i]

/-- Two users ask for one thread, and the second gets the sandbox of the first. -/
theorem second_user_gets_sandbox_of_first :
    ∃ s, (sandboxProvider [] ⟨['/'], ["data".toList]⟩ 256).run
        ([.acquire "alice".toList (some "t1".toList)] ++ acquireSteps 0 ++
          [.acquire "bob".toList (some "t1".toList), .step 1,
            .get "bob".toList "local:t1".toList]) {} = some s ∧
      s.gets.map (fun g => g.sandbox.map fun sb =>
        (sb.pathMappings.map PathMapping.localPath).map String.ofList) =
          [some ["/data/users/alice/threads/t1/user-data",
            "/data/users/alice/threads/t1/user-data/workspace",
            "/data/users/alice/threads/t1/user-data/uploads",
            "/data/users/alice/threads/t1/user-data/outputs",
            "/data/users/alice/threads/t1/acp-workspace"]] :=
  Machine.exists_of_run_any (by decide +kernel)

/-- Two users ask for threads of their own. -/
theorem two_users_get_their_sandboxes : ∃ s, (sandboxProvider [] ⟨['/'], ["data".toList]⟩ 256).run
        ([.acquire "alice".toList (some "t1".toList), .acquire "bob".toList (some "t2".toList)] ++
          acquireSteps 0 ++ acquireSteps 1 ++
          [.get "bob".toList "local:t2".toList]) {} = some s ∧
      s.gets.map (fun g => g.sandbox.isSome) = [true] ∧
      ∀ c ∈ s.calls, ∀ thread, c.thread = some thread → ∀ sandbox,
        (c.phase = .done sandbox ∨ ∃ g ∈ s.gets, g.user = c.user ∧
          g.sandboxId = "local:".toList ++ thread ∧ g.sandbox = some sandbox) →
        ∃ built, buildThreadPathMappings ⟨['/'], ["data".toList]⟩ thread c.user = .ok built ∧
          sandbox.pathMappings = [] ++ built ∧ ∀ m ∈ built, ∀ other, other ≠ c.user →
            (ofText m.localPath).isRelativeTo
              (userDir ⟨['/'], ["data".toList]⟩ other) = false := by
  obtain ⟨s, hrun, hgets⟩ : ∃ s, (sandboxProvider [] ⟨['/'], ["data".toList]⟩ 256).run
      ([.acquire "alice".toList (some "t1".toList), .acquire "bob".toList (some "t2".toList)] ++
        acquireSteps 0 ++ acquireSteps 1 ++
        [.get "bob".toList "local:t2".toList]) {} = some s ∧
          s.gets.map (fun g => g.sandbox.isSome) = [true] :=
    Machine.exists_of_run_any (by decide +kernel)
  exact ⟨s, hrun, hgets, acquired_sandbox_is_of_user (by decide) (by decide +kernel) hrun⟩

end DeerFlow
