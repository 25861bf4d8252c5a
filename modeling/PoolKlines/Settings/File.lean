import PoolKlines.Json.Parser
import PoolKlines.Settings.Json

/-!
# Files of settings and of pools

* `Settings.ofFile` reads settings from a file, `poolsOfFile` a list of pools;
* `refreshPools` takes over the pools of a file, and keeps the known ones if it cannot be read;
* `FileError` says what is wrong with a file.

The content of a file is absent if there is no such file.
-/

namespace PoolKlines

/-- What a file holds. -/
inductive FileKind
  | settings
  | pools
  deriving DecidableEq

/-- What a file is called in an error. -/
def FileKind.name : FileKind → String
  | settings => "config"
  | pools => "pool config"

/-- What is wrong with a file: it cannot be read, or its content has the wrong form. -/
inductive FileError
  | unreadable (kind : FileKind) (path : String)
  | malformed (kind : FileKind) (path : String)
  deriving DecidableEq

/-- The wording of the error. -/
def FileError.message : FileError → String
  | unreadable kind path => "failed to read " ++ kind.name ++ " " ++ path
  | malformed kind path => "failed to parse " ++ kind.name ++ " " ++ path

/-- Read the value in a file. -/
def readFile {α : Type} (kind : FileKind) (value? : Json → Option α) (path : String)
    (content : Option String) : Except FileError α :=
  match content with
  | none => .error (.unreadable kind path)
  | some text =>
    match (Json.parse text).bind value? with
    | none => .error (.malformed kind path)
    | some value => .ok value

/-- Read settings. -/
def Settings.ofFile (path : String) (content : Option String) : Except FileError Settings :=
  readFile .settings Settings.ofJson? path content

/-- Read a list of pools. -/
def poolsOfFile (path : String) (content : Option String) : Except FileError (List PoolConfig) :=
  readFile .pools (Json.list? PoolConfig.ofJson?) path content

/-- The pools after a look at their file. -/
def refreshPools (pools : PoolSnapshot) (path : String) (content : Option String) :
    PoolSnapshot :=
  match poolsOfFile path content with
  | .ok pools => .ofPools pools
  | .error _ => pools

@[simp] theorem refreshPools_none (pools : PoolSnapshot) (path : String) :
    refreshPools pools path none = pools := rfl

end PoolKlines
