import DeerFlow.Proofs.SandboxContainment

/-!
# Mounts in the tools and in the sandbox

The tools and the provider read the configured mounts each for themselves. The tools take the
longest container path as it is written, of the mounts whose host path exists; the provider strips
slashes and leaves out relative paths and reserved prefixes, and the sandbox takes the longest of
what is left, the skills and the directories of the thread among them. `ls` and `read_file` leave a
path under a mount to the sandbox, `glob` and `grep` look for it in the directories of the thread.
-/

namespace DeerFlow

open PosixPath PurePath ToolHost Option

variable {tools : ToolHost} {sandbox : LocalSandbox} {td : Option ThreadData} {path : List Char}
  {mount : VolumeMount}

section Statement

variable (tools : ToolHost) (sandbox : LocalSandbox) (td : Option ThreadData) (path : List Char)

/-- The mapping a path goes through in the sandbox. -/
def LocalSandbox.mappingOf : Option PathMapping := (sandbox.findPathMapping path).map Prod.fst

/-- The tools can leave the path to the sandbox, and of the mounts that exist and are at or above it
as they are written, `mount` is the first of the longest. -/
structure ToolHost.Forwards (mount : VolumeMount) : Prop where
  hasThread : td.isSome = true
  noTraversal : (rejectPathTraversal path).isOk = true
  notSkills : tools.isSkillsPath path = false
  notAcp : isAcpWorkspacePath path = false
  longest : FirstLongest (fun m => isAtOrUnder m.containerPath path) (·.containerPath.length)
    tools.customMounts (some mount)

end Statement

theorem customMountForPath_eq_iff {o : Option VolumeMount} : tools.customMountForPath path = o ↔
    FirstLongest (fun m => isAtOrUnder m.containerPath path) (·.containerPath.length)
      tools.customMounts o :=
  FirstLongest.longest_eq_iff

section Tools

theorem isSome_customMountForPath :
    (tools.customMountForPath path).isSome = tools.isCustomMountPath path := by
  rw [Bool.eq_iff_iff, isSome_iff_ne_none, Ne, customMountForPath_eq_iff]
  simp [FirstLongest, isCustomMountPath]

theorem validate_eq (hskills : tools.isSkillsPath path = false)
    (hacp : isAcpWorkspacePath path = false) (hcustom : tools.isCustomMountPath path = true) :
    tools.validateLocalToolPath path true = rejectPathTraversal path := by
  unfold validateLocalToolPath
  cases rejectPathTraversal path with
  | error e => rfl
  | ok u => simp [hskills, hacp, hcustom, bind, Except.bind]

theorem custom_of_mount (h : tools.customMountForPath path = some mount) :
    tools.isCustomMountPath path = true := by
  rw [← isSome_customMountForPath, h]
  rfl

theorem ToolHost.Forwards.valid (h : tools.Forwards td path mount) :
    (tools.validateLocalToolPath path true).isOk = true := by
  rw [validate_eq h.notSkills h.notAcp (custom_of_mount (customMountForPath_eq_iff.2 h.longest))]
  exact h.noTraversal

end Tools

end DeerFlow
