import DeerFlow.Proofs.MemoryUpdates
import DeerFlow.Sandbox.Tools

/-!
# Files of a thread

A path under `/mnt/user-data` is translated by the tool, which checks that the result is in a
directory of the thread, and once more by the sandbox. What the sandbox opens is in the thread
unless a mapping covers the host path and leads away.
-/

namespace DeerFlow

open List Option PosixPath PurePath FileTool Host

variable {cwd : List (List Char)} {pathExists : List Char → Bool} {tools : ToolHost}
variable {sandbox : LocalSandbox} {td : ThreadData} {path : List Char}

section Mapped

variable {m : PathMapping} {names : List (List Char)} {rel : List Char}

theorem relative?_rooted (hnames : ∀ n ∈ names, IsName n)
    (h : m.relative? (rooted names) = some rel) : rel = [] ∨ ∀ n ∈ split rel, IsName n := by
  unfold PathMapping.relative? at h
  split_ifs at h with hroot hhead hunder
  · cases h
    have hstrip : lstrip (rooted names) = join names := by
      unfold lstrip rooted
      rw [dropWhile_cons_of_pos (by simp)]
      have hhead := head?_join hnames
      cases hj : join names with
      | nil => rfl
      | cons c cs =>
        rw [hj] at hhead
        exact dropWhile_cons_of_neg (by simpa using hhead)
    rw [hstrip]
    cases names with
    | nil => exact .inl rfl
    | cons n names =>
      rw [split_join (cons_ne_nil _ _) fun n hn => (hnames n hn).noSlash]
      exact .inr hnames
  · cases h
    simp only [isAtOrUnder, Bool.or_eq_true, decide_eq_true_eq, isPrefixOf_iff_prefix] at hunder
    rcases hunder with heq | ⟨rest, hrest⟩
    · rw [heq, drop_length]
      exact .inl rfl
    · rw [append_assoc, singleton_append] at hrest
      rw [← hrest, drop_left]
      have hstrip : lstrip ('/' :: rest) = lstrip rest := dropWhile_cons_of_pos (by simp)
      rw [hstrip]
      cases rest with
      | nil => exact .inl rfl
      | cons c rest =>
        have hrest' := isName_split_suffix hnames hrest.symm (cons_ne_nil c rest)
        rw [lstrip_of_names hrest']
        exact .inr hrest'

theorem localFile_rooted (hcwd : ∀ n ∈ cwd, IsName n)
    (hrel : rel = [] ∨ ∀ n ∈ split rel, IsName n) :
    ∃ names, (∀ n ∈ names, IsName n) ∧ m.localFile (plain cwd pathExists) rel = rooted names ∧
      (ofText (m.resolvedLocal (plain cwd pathExists))).parts ++
        (ofText rel).parts = names ∧
      (ofText (rooted names)).isRelativeTo
        (ofText (m.resolvedLocal (plain cwd pathExists))) := by
  obtain ⟨ls, hls, hlocal⟩ := resolve_eq_rooted hcwd m.localPath
  have hresolved : m.resolvedLocal (plain cwd pathExists) = rooted ls := hlocal
  have htext : ∀ names : List (List Char), (⟨['/'], names⟩ : PurePath).text = rooted names := by
    intro names
    simp [text, rooted]
  unfold PathMapping.localFile
  rw [hresolved, ofText_rooted hls]
  rcases hrel with rfl | hrel
  · refine ⟨ls, hls, ?_, ?_, ?_⟩
    · rw [if_pos rfl, htext]
    · exact append_nil ls
    · rw [ofText_rooted hls]
      simp [isRelativeTo]
  · have hne : rel ≠ [] := by
      rintro rfl
      exact (hrel [] (by simp [split])).nonempty rfl
    have hall : ∀ n ∈ ls ++ split rel, IsName n := forall_mem_append.2 ⟨hls, hrel⟩
    refine ⟨ls ++ split rel, hall, ?_, ?_, ?_⟩
    · rw [if_neg hne, div, parts_ofText_of_names hrel, htext]
      exact resolve_rooted hall
    · rw [parts_ofText_of_names hrel]
    · rw [ofText_rooted hall]
      simp [isRelativeTo]

end Mapped

theorem isInThread_rooted (hcwd : ∀ n ∈ cwd, IsName n)
    (hhost : tools.host = plain cwd pathExists) {names : List (List Char)}
    (hnames : ∀ n ∈ names, IsName n) : tools.isInThread td (rooted names) ↔
      ∃ root ∈ tools.allowedRoots td, (ofText root).parts <+: names := by
  unfold ToolHost.isInThread
  rw [List.any_eq_true]
  refine exists_congr fun root => and_congr_right fun hroot => ?_
  obtain ⟨p, -, hp⟩ := mem_filterMap.1 hroot
  obtain ⟨q, -, rfl⟩ := map_eq_some_iff.1 hp
  obtain ⟨rs, hrs, hq⟩ := resolve_eq_rooted hcwd q
  have hq' : tools.host.resolve q = rooted rs := by
    rw [hhost]
    exact hq
  rw [hq', ofText_rooted hrs, ofText_rooted hnames]
  simp [isRelativeTo, isPrefixOf_iff_prefix]

theorem resolved_of_userData (hcwd : ∀ n ∈ cwd, IsName n)
    (hhost : tools.host = plain cwd pathExists) {p : List Char}
    (h : tools.resolveAndValidateUserDataPath td path = .ok p) :
    tools.isInThread td p ∧ ∃ names, (∀ n ∈ names, IsName n) ∧ p = rooted names := by
  obtain ⟨_, hvalid, hp⟩ := exists_of_bind_ok h
  cases hp
  refine ⟨?_, ?_⟩
  · unfold ToolHost.validateResolvedUserDataPath at hvalid
    split_ifs at hvalid with hempty hin
    exact hin
  · rw [hhost]
    exact resolve_eq_rooted hcwd _

theorem prefix_of_isAtOrUnder {dir : List Char} (h : isAtOrUnder dir path) : dir <+: path := by
  simp only [isAtOrUnder, Bool.or_eq_true, decide_eq_true_eq, isPrefixOf_iff_prefix] at h
  rcases h with rfl | h
  · exact prefix_rfl
  · exact (prefix_append dir ['/']).trans h

theorem not_acp_of_userData (h : isAtOrUnder userDataPath path) :
    isAcpWorkspacePath path = false := by
  rw [← Bool.not_eq_true]
  intro hacp
  rcases prefix_or_prefix_of_prefix (prefix_of_isAtOrUnder h) (prefix_of_isAtOrUnder hacp) with
    h | h
  · exact absurd h (by decide)
  · exact absurd h (by decide)

theorem userData_of_path {tool : FileTool} (hunder : isAtOrUnder userDataPath path)
    (hcustom : tools.isCustomMountPath path = false) (hskills : tools.isSkillsPath path = false)
    {p : List Char} (h : tool.path tools (some td) path = .ok p) :
    tools.resolveAndValidateUserDataPath td path = .ok p := by
  cases tool with
  | readFile =>
    obtain ⟨_, -, h⟩ := exists_of_bind_ok h
    simpa [hskills, not_acp_of_userData hunder, hcustom] using h
  | writeFile | strReplace =>
    obtain ⟨_, -, h⟩ := exists_of_bind_ok h
    simpa [hcustom] using h

def FileTool.Refused (tools : ToolHost) (tool : FileTool) (sandbox : LocalSandbox)
    (resolved : ResolvedPath) : Prop :=
  tool = .writeFile ∧ sandbox.isResolvedPathReadOnly tools.host resolved = true

theorem FileTool.opens_eq_some {tool : FileTool} {file : List Char} :
    tool.opens tools sandbox (some td) path = some file ↔
      ∃ p resolved, tool.path tools (some td) path = .ok p ∧
        sandbox.resolvePathWithMapping tools.host p = .ok resolved ∧
        ¬ tool.Refused tools sandbox resolved ∧ tools.host.resolve resolved.path = file := by
  unfold opens FileTool.Refused
  cases tool.path tools (some td) path with
  | error e => simp
  | ok p =>
    cases hr : sandbox.resolvePathWithMapping tools.host p with
    | error e | ok resolved => simp [hr]

theorem FileTool.eq_readFile {tool : FileTool} (hskills : tools.isSkillsPath path)
    {p : List Char} (h : tool.path tools (some td) path = .ok p) : tool = .readFile := by
  have hwrite : ∀ q, tools.writePath td path ≠ .ok q := by
    intro q hq
    obtain ⟨_, hvalid, -⟩ := exists_of_bind_ok hq
    obtain ⟨_, -, hvalid⟩ := exists_of_bind_ok hvalid
    simp [hskills] at hvalid
  cases tool with
  | readFile => rfl
  | writeFile | strReplace => exact absurd h (hwrite p)

/-- The sandbox denies the path. -/
def PathMapping.Escapes (host : Host) (m : PathMapping) (rel : List Char) : Prop :=
  ¬ (ofText (m.localFile host rel)).isRelativeTo (ofText (m.resolvedLocal host)) = true

theorem resolved_isInThread_iff {p : List Char} :
    (∀ resolved, sandbox.resolvePathWithMapping tools.host p = .ok resolved →
      tools.isInThread td (tools.host.resolve resolved.path) = true) ↔
    (sandbox.findPathMapping p = none → tools.isInThread td (tools.host.resolve p) = true) ∧
      ∀ m rel, sandbox.findPathMapping p = some (m, rel) → m.Escapes tools.host rel ∨
        tools.isInThread td (tools.host.resolve (m.localFile tools.host rel)) = true := by
  unfold LocalSandbox.resolvePathWithMapping PathMapping.Escapes
  cases sandbox.findPathMapping p with
  | none => simp
  | some found =>
    obtain ⟨m, rel⟩ := found
    by_cases hwithin : (ofText (m.localFile tools.host rel)).isRelativeTo
        (ofText (m.resolvedLocal tools.host)) = true <;> simp [hwithin]

theorem resolvePathWithMapping_rooted (hcwd : ∀ n ∈ cwd, IsName n)
    (hhost : tools.host = plain cwd pathExists) {names : List (List Char)}
    (hnames : ∀ n ∈ names, IsName n) {m : PathMapping} {rel : List Char}
    (hm : sandbox.findPathMapping (rooted names) = some (m, rel)) :
    sandbox.resolvePathWithMapping tools.host (rooted names) =
        .ok ⟨m.localFile tools.host rel, some m⟩ ∧
      (tools.isInThread td (tools.host.resolve (m.localFile tools.host rel)) ↔
        ∃ root ∈ tools.allowedRoots td, (ofText root).parts <+:
          (ofText (m.resolvedLocal tools.host)).parts ++ (ofText rel).parts) := by
  obtain ⟨m', -, hm'⟩ := exists_of_findSome?_eq_some hm
  obtain ⟨rel', hrel, heq⟩ := map_eq_some_iff.1 hm'
  cases heq
  obtain ⟨ns, hns, hfile, hparts, hwithin⟩ := localFile_rooted hcwd (relative?_rooted hnames hrel)
  rw [← hhost] at hfile hparts hwithin
  refine ⟨?_, ?_⟩
  · unfold LocalSandbox.resolvePathWithMapping
    rw [hm]
    simp only
    rw [hfile, if_pos hwithin]
  · have hself : tools.host.resolve (rooted ns) = rooted ns := by
      rw [hhost]
      exact resolve_rooted hns
    rw [hfile, hself, hparts]
    exact isInThread_rooted hcwd hhost hns

/-- A path under `/mnt/user-data` and under no custom mount opens a file of the thread exactly if
the host path the tool translates it to is covered by no mapping, or by one that leads into the
thread again. A path of skills is not checked: what it is in the skills directory, or in the mapping
that covers that, has to be in the thread. -/
theorem user_data_file_in_thread_iff {tool : FileTool} (hcwd : ∀ n ∈ cwd, IsName n)
    (hhost : tools.host = plain cwd pathExists)
    (hunder : isAtOrUnder userDataPath path = true)
    (hcustom : tools.isCustomMountPath path = false) :
    (∀ file, tool.opens tools sandbox (some td) path = some file →
      tools.isInThread td file = true) ↔
    ∀ p, tool.path tools (some td) path = .ok p →
      if tools.isSkillsPath path then
        (sandbox.findPathMapping p = none → tools.isInThread td (tools.host.resolve p) = true) ∧
        ∀ m rel, sandbox.findPathMapping p = some (m, rel) → m.Escapes tools.host rel ∨
          tools.isInThread td (tools.host.resolve (m.localFile tools.host rel)) = true
      else
        ∀ m rel, sandbox.findPathMapping p = some (m, rel) →
          ¬ tool.Refused tools sandbox ⟨m.localFile tools.host rel, some m⟩ →
          ∃ root ∈ tools.allowedRoots td, (ofText root).parts <+:
            (ofText (m.resolvedLocal tools.host)).parts ++ (ofText rel).parts := by
  constructor
  · intro h p hp
    split_ifs with hskills
    · refine resolved_isInThread_iff.1 fun resolved hres =>
        h _ (opens_eq_some.2 ⟨p, resolved, hp, hres, ?_, rfl⟩)
      rintro ⟨hwrite, -⟩
      rw [eq_readFile hskills hp] at hwrite
      cases hwrite
    · intro m rel hm hrefused
      obtain ⟨-, names, hnames, rfl⟩ := resolved_of_userData hcwd hhost
        (userData_of_path hunder hcustom (eq_false_of_ne_true hskills) hp)
      obtain ⟨hres, hiff⟩ := resolvePathWithMapping_rooted hcwd hhost hnames hm
      exact hiff.1 (h _ (opens_eq_some.2 ⟨_, _, hp, hres, hrefused, rfl⟩))
  · intro h file hfile
    obtain ⟨p, resolved, hp, hres, hrefused, rfl⟩ := opens_eq_some.1 hfile
    have hcond := h p hp
    split_ifs at hcond with hskills
    · exact resolved_isInThread_iff.2 hcond resolved hres
    · obtain ⟨hin, names, hnames, rfl⟩ := resolved_of_userData hcwd hhost
        (userData_of_path hunder hcustom (eq_false_of_ne_true hskills) hp)
      cases hm : sandbox.findPathMapping (rooted names) with
      | none =>
        -- The sandbox opens the host path itself, which the tool has checked.
        rw [LocalSandbox.resolvePathWithMapping, hm] at hres
        cases hres
        have hself : tools.host.resolve (rooted names) = rooted names := by
          rw [hhost]
          exact resolve_rooted hnames
        rw [hself]
        exact hin
      | some found =>
        obtain ⟨m, rel⟩ := found
        obtain ⟨hres', hiff⟩ := resolvePathWithMapping_rooted hcwd hhost hnames hm
        rw [hres'] at hres
        cases hres
        exact hiff.2 (hcond m rel hm hrefused)

def sharedHost (containerPath : String) : ToolHost where
  host := plain [] fun p => p = "/srv/shared".toList
  settings :=
    { skillsPath := "/srv/skills".toList
      mounts := [⟨"/srv/shared".toList, containerPath.toList, false⟩] }
  acpWorkspace _ := none

def sharedThread : ThreadData where
  workspacePath := "/data/users/u/threads/t/user-data/workspace".toList
  uploadsPath := "/data/users/u/threads/t/user-data/uploads".toList
  outputsPath := "/data/users/u/threads/t/user-data/outputs".toList

def sharedSandbox (containerPath : String) : LocalSandbox where
  id := "local:t".toList
  pathMappings :=
    setupPathMappings (sharedHost containerPath).host (sharedHost containerPath).settings ++
      (buildThreadPathMappings ⟨['/'], ["data".toList]⟩ "t".toList "u".toList).toOption.getD []

/-- With a mount at `/`, a file of the workspace is looked for in the mount. -/
theorem file_leaves_thread :
    (sharedHost "/").isCustomMountPath "/mnt/user-data/workspace/a.txt".toList = false ∧
    (readFile.opens (sharedHost "/") (sharedSandbox "/") (some sharedThread)
      "/mnt/user-data/workspace/a.txt".toList).map String.ofList =
        some "/srv/shared/data/users/u/threads/t/user-data/workspace/a.txt" ∧
    (sharedHost "/").isInThread sharedThread
      "/srv/shared/data/users/u/threads/t/user-data/workspace/a.txt".toList = false := by
  decide +kernel

/-- With a mount at `/shared`, it is opened in the workspace. -/
theorem file_stays_in_thread :
    (readFile.opens (sharedHost "/shared") (sharedSandbox "/shared") (some sharedThread)
      "/mnt/user-data/workspace/a.txt".toList).isSome = true ∧
    ∀ file, readFile.opens (sharedHost "/shared") (sharedSandbox "/shared")
        (some sharedThread) "/mnt/user-data/workspace/a.txt".toList = some file →
      (sharedHost "/shared").isInThread sharedThread file = true := by
  have hpath : readFile.path (sharedHost "/shared") (some sharedThread)
      "/mnt/user-data/workspace/a.txt".toList =
        .ok "/data/users/u/threads/t/user-data/workspace/a.txt".toList := by decide +kernel
  refine ⟨by decide +kernel, (user_data_file_in_thread_iff (by simp) rfl (by decide)
    (by decide +kernel)).2 fun p hp => ?_⟩
  rw [hpath] at hp
  cases hp
  rw [if_neg (by decide)]
  intro m rel hm
  have hnone : (sharedSandbox "/shared").findPathMapping
      "/data/users/u/threads/t/user-data/workspace/a.txt".toList = none := by decide +kernel
  rw [hnone] at hm
  cases hm

end DeerFlow
