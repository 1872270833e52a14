import Moduless.Manifest.Declaration

/-!
Plugin packages on disk and what `LoadPackage` makes of them.

A `Package` carries the proofs that its manifest passed validation and that its
filters are the compiled ones, so a package with an unchecked declaration cannot
be built.
-/

namespace Moduless.PluginHost
open Go

structure FileInfo where
  isDir : Bool
  executable : Bool

/-- What is on disk in one package directory. `manifest` is `none` when the
file cannot be read or parsed; `frontend` says whether there is a directory of
that name. -/
structure PackageFiles where
  hasManifest : Bool
  manifest : Option Manifest
  entrypoint : Option FileInfo
  checksum : Option Str
  frontend : Bool := false

inductive PackageError where
  | manifestUnreadable (path : Str)
  | manifestInvalid (path : Str) (e : ManifestError)
  | entrypointRequired (path : Str)
  | entrypointMissing (key entrypoint : Str)
  | entrypointIsDirectory (key entrypoint : Str)
  | entrypointNotExecutable (key entrypoint : Str)
  | badFilters (key : Str) (e : ManifestError)
  | checksumFailed (key : Str)

structure Package where
  dir : Str
  manifest : Manifest
  binaryPath : Str
  checksum : Str
  filters : List CompiledFilter
  frontendDir : Str := []
  valid : manifest.validate = .ok ()
  compiled : manifest.compileFilters = .ok filters
  deriving DecidableEq

namespace Package

def key (p : Package) : Str := p.manifest.key

def version (p : Package) : Str := p.manifest.version

def allowsIdentityMutation (p : Package) : Bool :=
  p.manifest.hasPermission permFilterAuthenticate

theorem known_phases (p : Package) : ∀ f ∈ p.filters, f.decl.phase ∈ knownPhases := by
  intro f hf
  apply Manifest.validate_phases p.valid
  rw [← Manifest.compileFilters_decls p.compiled]
  exact List.mem_map_of_mem hf

end Package

/-- `filepath.Join`: empty elements are left out. -/
def joinPath (elems : List Str) : Str :=
  match elems.filter (· ≠ []) with
  | [] => []
  | parts => clean (join parts '/')

def manifestFilename : Str := "manifest.yaml".toList

def loadPackage (dir : Str) (files : PackageFiles) : Except PackageError Package :=
  let manifestPath := joinPath [dir, manifestFilename]
  match files.manifest with
  | none => .error (.manifestUnreadable manifestPath)
  | some m =>
    match hValid : m.validate with
    | .error e => .error (.manifestInvalid manifestPath e)
    | .ok () =>
      if m.entrypoint = [] then .error (.entrypointRequired manifestPath)
      else
        match files.entrypoint with
        | none => .error (.entrypointMissing m.key m.entrypoint)
        | some info =>
          if info.isDir then .error (.entrypointIsDirectory m.key m.entrypoint)
          else if !info.executable then .error (.entrypointNotExecutable m.key m.entrypoint)
          else
            match hFilters : m.compileFilters with
            | .error e => .error (.badFilters m.key e)
            | .ok filters =>
              match files.checksum with
              | none => .error (.checksumFailed m.key)
              | some sum =>
                .ok { dir := dir
                      manifest := m
                      binaryPath := joinPath [dir, clean ('/' :: m.entrypoint)]
                      checksum := sum
                      filters := filters
                      frontendDir := if files.frontend then
                        joinPath [dir, "frontend".toList] else []
                      valid := hValid
                      compiled := hFilters }

theorem loadPackage_paths {dir : Str} {files : PackageFiles} {pkg : Package}
    (h : loadPackage dir files = .ok pkg) :
    pkg.dir = dir ∧ pkg.binaryPath = joinPath [dir, clean ('/' :: pkg.manifest.entrypoint)] := by
  rw [loadPackage] at h
  repeat' split at h
  all_goals first | cases h; done | (cases h; exact ⟨rfl, rfl⟩)

end Moduless.PluginHost
