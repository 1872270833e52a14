import Moduless.Go.Builtin

/-!
How the gateway takes a request path apart: the plugin it names and the
cleaned sub-path the plugin receives.
-/

namespace Moduless.Gateway
open Go

def pluginAPIPrefix : Str := "/api/plugins/".toList

/-- Resolves `.` and `..` and collapses repeated slashes, keeping a trailing one. -/
def cleanSubPath (sub : Str) : Str :=
  let cleaned := clean sub
  if hasSuffix sub ['/'] && !hasSuffix cleaned ['/'] then cleaned ++ ['/'] else cleaned

/-- The key and the sub-path of a plugin route. -/
def splitPluginPath (p : Str) : Option (Str × Str) :=
  let rest := trimPrefix p pluginAPIPrefix
  if rest = p ∨ rest = [] then none
  else if '/' ∈ rest then
    some (rest.takeWhile (· ≠ '/'), cleanSubPath (rest.dropWhile (· ≠ '/')))
  else some (rest, ['/'])

theorem slash_cleanSubPath (rest : Str) : ['/'] <+: cleanSubPath ('/' :: rest) := by
  have hClean : ['/'] <+: clean ('/' :: rest) := ⟨_, rfl⟩
  rw [cleanSubPath]
  split
  · exact hClean.trans (List.prefix_append _ _)
  · exact hClean

end Moduless.Gateway
