import Bindery.Binding.Embind
import Bindery.Binding.Napi
import Bindery.Binding.TypeScript

/-!
# Generated files

A run renders all of its files in memory.  Every function is checked before
anything is rendered, and at the end no two files may have the same path.
-/

namespace Bindery

/-- Bindings for Emscripten are always made; without a directory of their own
they go next to their headers.  The other targets need a directory. -/
structure OutputDirs where
  embind : Option Path := none
  napi : Option Path := none
  typeScript : Option Path := none
deriving DecidableEq

inductive Target where
  | embind (dir : Option Path)
  | napi (dir : Path)
  | typeScript (dir : Path)
deriving DecidableEq

def Target.name : Target → Text
  | embind _ => "embind"
  | napi _ => "napi"
  | typeScript _ => "typescript"

def OutputDirs.targets (dirs : OutputDirs) : List Target :=
  [.embind dirs.embind] ++ (dirs.napi.map Target.napi).toList ++
    (dirs.typeScript.map Target.typeScript).toList

structure Artifact where
  path : Path
  contents : Text
deriving DecidableEq

namespace Target

def inDir (dir : Path) (name : List Text) : Path := dir.join ⟨Text.concat name⟩

def embindPath (dir : Option Path) (h : Header) : Path :=
  match dir with
  | some dir => inDir dir ["emscripten-bindings-", h.stem, ".cpp"]
  | none => h.path.withFileName "emscripten-bindings.cpp"

def renderHeader (ctx : Context) (h : Header) :
    Target → Except Error (List Artifact)
  | embind dir => .ok [⟨embindPath dir h, ctx.preamble ++ Embind.render ctx h⟩]
  | napi dir => do
    let glue ← Napi.render ctx h
    return [⟨inDir dir ["gen-", h.stem, ".cpp"], ctx.preamble ++ glue.source⟩,
      ⟨inDir dir ["gen-", h.stem, ".h"], ctx.preamble ++ glue.header⟩]
  | typeScript dir =>
    .ok [⟨inDir dir [h.stem, ".d.ts"],
      ctx.preamble ++ TypeScript.render ctx h.entities⟩]

def renderIndex (ctx : Context) (headers : List Header) : Target → List Artifact
  | embind _ => []
  | napi dir =>
    let includes := headers.flatMap fun h =>
      Text.concat ["#include \"gen-", h.stem, ".h\"\n"]
    [⟨inDir dir ["gen.h"],
      Text.concat ["#pragma once\n", ctx.preamble, includes]⟩]
  | typeScript dir =>
    let names := headers.flatMap fun h => TypeScript.typeNames ctx h.entities
    [⟨inDir dir ["ode.d.ts"],
      ctx.preamble ++ TypeScript.renderIndex names.eraseDups⟩]

def render (ctx : Context) (headers : List Header) (target : Target) :
    Except Error (List Artifact) := do
  let perHeader ← headers.mapM fun h => target.renderHeader ctx h
  return perHeader.flatten ++ target.renderIndex ctx headers

end Target

def checkFunctions (d : Dialect) (headers : List Header) : Except Error Unit :=
  headers.forM fun h =>
    (h.entities.filter (·.category = .function)).forM (checkFunction d)

def sharedPath? (seen : List Path) : List Path → Option Path
  | [] => none
  | p :: ps =>
    if seen.any (·.same p) then some p else sharedPath? (p :: seen) ps

def renderAll (ctx : Context) (dirs : OutputDirs) (headers : List Header) :
    Except Error (List Artifact) := do
  checkFunctions ctx.dialect headers
  let artifacts := (← dirs.targets.mapM (Target.render ctx headers)).flatten
  match sharedPath? [] (artifacts.map Artifact.path) with
  | some path => throw (.config (.sharedTarget path))
  | none => return artifacts

end Bindery
