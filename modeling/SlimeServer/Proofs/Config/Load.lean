import SlimeServer.Program
import SlimeServer.Proofs.Config.Layers
/-!
# Settings from layers

What is loaded is what the layers come to of which there is one: the user's file, a file that is
named and the command line. Every file that is there or was asked for is told about once.
-/
namespace SlimeServer.Config

theorem environment?_namesOnce {value : Toml} {env : Environment}
    (h : environment? value = some env) : env.NamesOnce := by
  cases value with
  | table entries =>
    obtain ⟨texts, -, htexts⟩ := Option.bind_eq_some_iff.1 h
    cases htexts
    exact Environment.ofEntries_namesOnce texts
  | moment text =>
    cases h
    exact List.nodup_singleton _
  | _ => cases h

theorem field?_eq_some {α : Type} {table : Toml} {key : String} {convert? : Toml → Option α}
    {a : α} (h : field? table key convert? = some (some a)) :
    ∃ value, table.get? key = some value ∧ convert? value = some a := by
  unfold field? at h
  split at h
  · cases h
  · rename_i value hvalue
    exact ⟨value, hvalue, by simpa using h⟩

theorem Layer.ofToml?_namesOnce {table : Toml} {layer : Layer} (h : ofToml? table = some layer) :
    layer.NamesOnce := by
  simp only [ofToml?, Option.bind_eq_bind, Option.bind_eq_some_iff] at h
  obtain ⟨_, -, _, -, _, -, _, -, _, -, _, -, _, -, _, -, _, -, _, -, _, -, environment, henv, h⟩ := h
  cases h
  intro env hset
  cases hset
  obtain ⟨value, -, hvalue⟩ := field?_eq_some henv
  exact environment?_namesOnce hvalue

/-- No layer that a parser gives has a variable of the environment twice. -/
def Parser.NamesOnce (parse : Parser) : Prop :=
  ∀ text layer, parse text = .ok layer → layer.NamesOnce

theorem Layer.parse_namesOnce : Parser.NamesOnce Layer.parse := by
  intro text layer h
  rw [Layer.parse] at h
  split at h
  · rename_i found hfound
    cases h
    obtain ⟨table, -, htable⟩ := Option.bind_eq_some_iff.1 hfound
    exact ofToml?_namesOnce htable
  · cases h

section

variable (parse : Parser)

/-- The layer in a file, if it can be read and parsed. -/
def layerIn? : FileState → Option Layer
  | .bytes content => (Utf8.decode? content).bind fun text => (parse text).toOption
  | _ => none

theorem layerIn?_eq (file : FileState) : layerIn? parse file = (loadFile parse file).toOption := by
  cases file with
  | bytes content =>
    simp only [layerIn?, loadFile]
    cases Utf8.decode? content with
    | none => rfl
    | some text =>
      simp only [Option.bind_some]
      cases parse text <;> rfl
  | _ => rfl

/-- Why there is no layer in a file, as it is told; nothing where there is one. -/
def FileState.fault? (path : String) (file : FileState) : Option String :=
  let unread (reason : String) := some ("Failed to read " ++ path ++ ": " ++ reason)
  match file with
  | .missing => unread "No such file or directory (os error 2)"
  | .unreadable reason => unread reason
  | .bytes content =>
    match Utf8.decode? content with
    | none => unread "stream did not contain valid UTF-8"
    | some text => match parse text with
      | .ok _ => none
      | .error reason => some ("Failed to parse " ++ path ++ ": " ++ reason)

theorem FileState.fault?_eq (path : String) (file : FileState) : file.fault? parse path =
    match loadFile parse file with
    | .ok _ => none
    | .error error => some (error.message path) := by
  cases file with
  | bytes content =>
    simp only [fault?, loadFile]
    cases Utf8.decode? content with
    | none => rfl
    | some text =>
      simp only
      cases parse text <;> rfl
  | missing | unreadable _ => rfl

/-- What is told about the user's file, if it is there. -/
def userEvents (path : String) (user : FileState) : List Event :=
  if user = .missing then []
  else match user.fault? parse path with
    | none => [⟨.info, "Loaded user config"⟩]
    | some fault => [⟨.warning, "Failed to load user config: " ++ fault⟩]

/-- What is told about a file that is named, there or not. -/
def namedEvents (path : String) (file : Option FileState) : List Event :=
  match file with
  | none => []
  | some file => match file.fault? parse path with
    | none => [⟨.info, "Loaded config file: " ++ path⟩]
    | some fault => [⟨.warning, fault⟩]

theorem userLayer_eq (path : String) (user : FileState) :
    userLayer parse path user = (layerIn? parse user, userEvents parse path user) := by
  rw [layerIn?_eq]
  by_cases h : user = .missing
  · subst h
    rfl
  · have hload : loadUserFile parse user = (loadFile parse user).map some := by
      cases user with
      | missing => exact absurd rfl h
      | _ => rfl
    rw [userLayer, hload, userEvents, if_neg h, FileState.fault?_eq]
    cases loadFile parse user <;> rfl

theorem fileLayer_eq (path : String) (file : Option FileState) :
    fileLayer parse path file = (file.bind (layerIn? parse), namedEvents parse path file) := by
  cases file with
  | none => rfl
  | some file =>
    rw [fileLayer, Option.bind_some, layerIn?_eq, namedEvents, FileState.fault?_eq]
    cases loadFile parse file <;> rfl

def loadedLayers (user : FileState) (file : Option FileState) (overrides : Layer) :
    List (Option Layer) :=
  [layerIn? parse user, file.bind (layerIn? parse), some overrides]

theorem load_eq (userPath : String) (user : FileState) (path : String) (file : Option FileState)
    (overrides : Layer) :
    load parse userPath user path file overrides =
      (((Layer.mergeAll (loadedLayers parse user file overrides)).getD .empty).resolve,
        userEvents parse userPath user ++ namedEvents parse path file) := by
  rw [load, userLayer_eq, fileLayer_eq]
  rfl

end

section

variable {parse : Parser} (hparse : parse.NamesOnce)
include hparse

theorem layerIn?_namesOnce {file : FileState} {layer : Layer}
    (h : layerIn? parse file = some layer) : layer.NamesOnce := by
  cases file with
  | bytes content =>
    obtain ⟨text, -, hlayer⟩ := Option.bind_eq_some_iff.1 h
    cases hresult : parse text with
    | error reason =>
      rw [hresult] at hlayer
      cases hlayer
    | ok found =>
      rw [hresult] at hlayer
      cases hlayer
      exact hparse text layer hresult
  | _ => cases h

theorem loadedLayers_eachOnce (user : FileState) (file : Option FileState) {overrides : Layer}
    (h : overrides.NamesOnce) : Layer.EachOnce (loadedLayers parse user file overrides) := by
  intro layer hmem
  simp only [loadedLayers, List.mem_cons, List.not_mem_nil, or_false, Option.some_inj] at hmem
  obtain huser | hfile | rfl := hmem
  · exact layerIn?_namesOnce hparse huser.symm
  · obtain ⟨named, -, hnamed⟩ := Option.bind_eq_some_iff.1 hfile.symm
    exact layerIn?_namesOnce hparse hnamed
  · exact h

theorem load_stacked (userPath : String) (user : FileState) (path : String)
    (file : Option FileState) {overrides : Layer} (h : overrides.NamesOnce) :
    ∃ merged, Layer.mergeAll (loadedLayers parse user file overrides) = some merged ∧
      Layer.Stacked (loadedLayers parse user file overrides) merged ∧
      (load parse userPath user path file overrides).1 = merged.resolve := by
  obtain ⟨merged, hmerged⟩ :
      ∃ merged, Layer.mergeAll (loadedLayers parse user file overrides) = some merged := by
    refine Option.ne_none_iff_exists'.1 fun hnone => ?_
    have := (Layer.mergeAll_eq_none_iff _).1 hnone (some overrides) (by simp [loadedLayers])
    cases this
  refine ⟨merged, hmerged,
    Layer.mergeAll_stacked (loadedLayers_eachOnce hparse user file h) hmerged, ?_⟩
  rw [load_eq, hmerged]
  rfl

end

theorem overrides_namesOnce {args : List String} {invocation : CommandLine.Invocation}
    (h : CommandLine.parse args = .ok invocation) : invocation.overrides.NamesOnce := by
  rw [CommandLine.parse] at h
  cases hp : CommandLine.takeAll .start args with
  | error error =>
    rw [hp] at h
    cases h
  | ok progress =>
    rw [hp] at h
    cases h
    intro env henv
    cases henv

/-- The program runs with what its files and its arguments come to. -/
theorem configure_stacked (files : Program.Files) {args : List String}
    {invocation : CommandLine.Invocation} (h : CommandLine.parse args = .ok invocation) :
    ∃ merged, Layer.Stacked [layerIn? Layer.parse files.user,
        (invocation.config.map files.named).bind (layerIn? Layer.parse),
        some invocation.overrides] merged ∧
      (Program.configure files invocation).1 = merged.resolve := by
  obtain ⟨merged, -, hstacked, hsettings⟩ := load_stacked Layer.parse_namesOnce files.userPath
    files.user (invocation.config.getD "") (invocation.config.map files.named)
    (overrides_namesOnce h)
  exact ⟨merged, hstacked, hsettings⟩

def lowerLayer : Layer :=
  { Layer.empty with
    port := some 1, color := some true, environment := some [("A", "1"), ("B", "1")] }

def upperLayer : Layer :=
  { Layer.empty with port := some 3, environment := some [("B", "2")] }

theorem lowerLayer_namesOnce : lowerLayer.NamesOnce := by
  intro env henv
  cases henv
  unfold Environment.NamesOnce
  decide

theorem upperLayer_namesOnce : upperLayer.NamesOnce := by
  intro env henv
  cases henv
  unfold Environment.NamesOnce
  decide

def paintedFile : FileState := .bytes (Utf8.encode "port = 2\ncolor = true")

end SlimeServer.Config
