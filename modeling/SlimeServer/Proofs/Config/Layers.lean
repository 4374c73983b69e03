import Mathlib.Data.List.Induction
import Mathlib.Data.List.Nodup
import SlimeServer.Config.Settings
/-!
# Layers of configuration

Of every value the last layer that sets it decides, and of the environment the last layer that
sets the variable in question. So it does not matter how layers are grouped when they are merged.
-/
namespace SlimeServer

namespace Environment

def NamesOnce (env : Environment) : Prop := (env.map Prod.fst).Nodup

@[simp] theorem override_cons (env : Environment) (name value : String)
    (rest : List (String × String)) :
    env.override ((name, value) :: rest) = (env.set name value).override rest := rfl

theorem mem_names_set (env : Environment) (name value other : String) :
    other ∈ (env.set name value).map Prod.fst ↔ other = name ∨ other ∈ env.map Prod.fst := by
  induction env with
  | nil => simp [set]
  | cons entry rest ih =>
    obtain ⟨n, v⟩ := entry
    by_cases hn : n = name
    · simp [set, hn]
    · rw [set, if_neg hn, List.map_cons, List.map_cons, List.mem_cons, List.mem_cons, ih]
      exact or_left_comm

theorem NamesOnce.set {env : Environment} (h : env.NamesOnce) (name value : String) :
    (env.set name value).NamesOnce := by
  induction env with
  | nil => simp [Environment.set, NamesOnce]
  | cons entry rest ih =>
    obtain ⟨n, v⟩ := entry
    obtain ⟨hfresh, hrest⟩ : n ∉ rest.map Prod.fst ∧ NamesOnce rest := List.nodup_cons.1 h
    rw [Environment.set]
    split_ifs with hn
    · exact h
    · refine List.nodup_cons.2 ⟨fun hmem => ?_, ih hrest⟩
      exact ((mem_names_set rest name value n).1 hmem).elim hn hfresh

theorem NamesOnce.override {base : Environment} (h : base.NamesOnce) (top : Environment) :
    (base.override top).NamesOnce := by
  induction top generalizing base with
  | nil => exact h
  | cons entry rest ih => exact ih (h.set entry.1 entry.2)

theorem ofEntries_namesOnce (entries : List (String × String)) : (ofEntries entries).NamesOnce :=
  NamesOnce.override (show NamesOnce [] from List.nodup_nil) entries

/-- A variable has its value in `top`, and what `top` does not set its value in `base`. -/
theorem lookup_override (base : Environment) {top : Environment} (h : top.NamesOnce)
    (name : String) : (base.override top).lookup name = (top.lookup name).or (base.lookup name) := by
  induction top generalizing base with
  | nil => rfl
  | cons entry rest ih =>
    obtain ⟨n, v⟩ := entry
    obtain ⟨hfresh, hrest⟩ : n ∉ rest.map Prod.fst ∧ NamesOnce rest := List.nodup_cons.1 h
    rw [override_cons, ih _ hrest, lookup_set, List.lookup_cons]
    by_cases hname : name = n
    · subst hname
      have hnone : List.lookup name rest = none :=
        List.lookup_eq_none_iff.2 fun p hp => by
          simpa using fun heq : name = p.1 => hfresh (heq ▸ List.mem_map_of_mem hp)
      simp [hnone]
    · simp [hname, beq_eq_false_iff_ne.2 hname]

theorem set_set (env : Environment) (name first second : String) :
    (env.set name first).set name second = env.set name second := by
  induction env with
  | nil => simp [set]
  | cons entry rest ih =>
    obtain ⟨n, v⟩ := entry
    by_cases hn : n = name
    · simp [set, hn]
    · simp [set, hn, ih]

/-- Setting a variable that is there keeps its place, whatever else is set before or after. -/
theorem set_comm {env : Environment} {name other : String} (hmem : name ∈ env.map Prod.fst)
    (hne : other ≠ name) (value otherValue : String) :
    (env.set other otherValue).set name value = (env.set name value).set other otherValue := by
  induction env with
  | nil => cases hmem
  | cons entry rest ih =>
    obtain ⟨n, v⟩ := entry
    by_cases hn : n = name
    · subst hn
      simp [set, hne.symm]
    · have hrest : name ∈ rest.map Prod.fst :=
        (List.mem_cons.1 hmem).resolve_left fun heq => hn heq.symm
      by_cases ho : n = other
      · simp [set, ho, hne]
      · simp [set, hn, ho, ih hrest]

theorem set_override {base top : Environment} {name : String} (hmem : name ∈ base.map Prod.fst)
    (hfresh : name ∉ top.map Prod.fst) (value : String) :
    (base.override top).set name value = (base.set name value).override top := by
  induction top generalizing base with
  | nil => rfl
  | cons entry rest ih =>
    obtain ⟨n, v⟩ := entry
    have hfresh : n ≠ name ∧ name ∉ rest.map Prod.fst := by
      simpa [eq_comm, not_or] using hfresh
    rw [override_cons, override_cons, ih ((mem_names_set base n v name).2 (.inr hmem)) hfresh.2,
      set_comm hmem hfresh.1]

/-- A variable set in `top` is set in what `top` lies on. -/
theorem override_set (base : Environment) {top : Environment} (h : top.NamesOnce)
    (name value : String) :
    base.override (top.set name value) = (base.override top).set name value := by
  induction top generalizing base with
  | nil => rfl
  | cons entry rest ih =>
    obtain ⟨n, v⟩ := entry
    obtain ⟨hfresh, hrest⟩ : n ∉ rest.map Prod.fst ∧ NamesOnce rest := List.nodup_cons.1 h
    by_cases hn : n = name
    · subst hn
      have hmem : n ∈ (base.set n v).map Prod.fst := (mem_names_set base n v n).2 (.inl rfl)
      rw [override_cons, set_override hmem hfresh, set_set]
      simp [set]
    · rw [set, if_neg hn, override_cons, override_cons, ih _ hrest]

theorem override_assoc (base : Environment) {middle : Environment} (h : middle.NamesOnce)
    (top : Environment) :
    (base.override middle).override top = base.override (middle.override top) := by
  induction top generalizing middle with
  | nil => rfl
  | cons entry rest ih =>
    obtain ⟨n, v⟩ := entry
    rw [override_cons, override_cons, ← ih (h.set n v), override_set base h]

end Environment

namespace Config

namespace Layer

def NamesOnce (layer : Layer) : Prop := ∀ env, layer.environment = some env → env.NamesOnce

def lookup (name : String) (layer : Layer) : Option String :=
  layer.environment.bind (·.lookup name)

theorem lookup_override (base : Layer) {top : Layer} (h : top.NamesOnce) (name : String) :
    (base.override top).lookup name = (top.lookup name).or (base.lookup name) := by
  obtain hb | ⟨under, hb⟩ := base.environment.eq_none_or_eq_some <;>
    obtain ht | ⟨env, ht⟩ := top.environment.eq_none_or_eq_some
  · simp [lookup, override, mergeEnvironment, hb, ht]
  · simp [lookup, override, mergeEnvironment, hb, ht]
  · simp [lookup, override, mergeEnvironment, hb, ht]
  · simpa [lookup, override, mergeEnvironment, hb, ht] using
      Environment.lookup_override under (h env ht) name

theorem environment_override (base top : Layer) :
    (base.override top).environment.map (fun _ => ()) =
      (top.environment.map fun _ => ()).or (base.environment.map fun _ => ()) := by
  simp only [override]
  cases base.environment <;> cases top.environment <;> rfl

theorem NamesOnce.override {base top : Layer} (hb : base.NamesOnce) (ht : top.NamesOnce) :
    (base.override top).NamesOnce := by
  intro env henv
  simp only [Layer.override] at henv
  unfold mergeEnvironment at henv
  split at henv
  · rename_i under above hunder habove
    cases henv
    exact (hb under hunder).override above
  · obtain h | ⟨-, h⟩ := Option.or_eq_some_iff.1 henv
    · exact ht env h
    · exact hb env h

theorem mergeEnvironment_assoc (base : Option Environment) {middle : Option Environment}
    (h : ∀ env, middle = some env → env.NamesOnce) (top : Option Environment) :
    mergeEnvironment (mergeEnvironment base middle) top =
      mergeEnvironment base (mergeEnvironment middle top) := by
  cases middle with
  | none => cases base <;> cases top <;> rfl
  | some env =>
    cases base with
    | none => cases top <;> rfl
    | some under =>
      cases top with
      | none => rfl
      | some above => exact congrArg some (under.override_assoc (h env rfl) above)

theorem override_assoc (base : Layer) {middle : Layer} (h : middle.NamesOnce) (top : Layer) :
    (base.override middle).override top = base.override (middle.override top) := by
  simp only [override, Option.or_assoc, mergeEnvironment_assoc _ h]

theorem NamesOnce.merge {base top : Option Layer}
    (hb : ∀ layer, base = some layer → layer.NamesOnce)
    (ht : ∀ layer, top = some layer → layer.NamesOnce) :
    ∀ layer, Layer.merge base top = some layer → layer.NamesOnce := by
  intro layer hlayer
  cases base with
  | none => exact ht layer (by simpa using hlayer)
  | some under =>
    cases top with
    | none => exact hb layer (by simpa using hlayer)
    | some above =>
      cases hlayer
      exact (hb under rfl).override (ht above rfl)

theorem merge_eq_none_iff {base top : Option Layer} :
    merge base top = none ↔ base = none ∧ top = none := by
  cases base <;> cases top <;> simp [merge]

theorem merge_assoc (base : Option Layer) {middle : Option Layer}
    (h : ∀ layer, middle = some layer → layer.NamesOnce) (top : Option Layer) :
    merge (merge base middle) top = merge base (merge middle top) := by
  cases middle with
  | none => simp
  | some layer =>
    cases base with
    | none => simp
    | some under =>
      cases top with
      | none => simp
      | some above => exact congrArg some (under.override_assoc (h layer rfl) above)

@[simp] theorem mergeAll_concat (layers : List (Option Layer)) (layer : Option Layer) :
    mergeAll (layers ++ [layer]) = merge (mergeAll layers) layer := by
  simp [mergeAll]

def EachOnce (layers : List (Option Layer)) : Prop :=
  ∀ layer, some layer ∈ layers → layer.NamesOnce

theorem EachOnce.init {layers : List (Option Layer)} {last : Option Layer}
    (h : EachOnce (layers ++ [last])) : EachOnce layers :=
  fun layer hmem => h layer (List.mem_append_left _ hmem)

theorem EachOnce.last {layers : List (Option Layer)} {last : Option Layer}
    (h : EachOnce (layers ++ [last])) : ∀ layer, last = some layer → layer.NamesOnce :=
  fun layer hlast => h layer (by simp [hlast])

theorem EachOnce.mergeAll {layers : List (Option Layer)} (h : EachOnce layers) :
    ∀ layer, Layer.mergeAll layers = some layer → layer.NamesOnce := by
  induction layers using List.reverseRecOn with
  | nil => intro layer hlayer; cases hlayer
  | append_singleton layers last ih =>
    rw [mergeAll_concat]
    exact NamesOnce.merge (ih h.init) h.last

theorem mergeAll_eq_none_iff (layers : List (Option Layer)) :
    mergeAll layers = none ↔ ∀ layer ∈ layers, layer = none := by
  induction layers using List.reverseRecOn with
  | nil => simp [mergeAll]
  | append_singleton layers last ih => simp [merge_eq_none_iff, ih, or_imp, forall_and]

theorem mergeAll_append (first : List (Option Layer)) {second : List (Option Layer)}
    (h : EachOnce second) :
    mergeAll (first ++ second) = merge (mergeAll first) (mergeAll second) := by
  induction second using List.reverseRecOn with
  | nil => simp [mergeAll]
  | append_singleton layers last ih =>
    rw [← List.append_assoc, mergeAll_concat, ih h.init, mergeAll_concat,
      merge_assoc _ h.init.mergeAll]

/-- What the last of the layers that set a value sets it to. -/
def lastSet {α : Type} (value? : Layer → Option α) (layers : List (Option Layer)) : Option α :=
  layers.reverse.findSome? (·.bind value?)

@[simp] theorem lastSet_concat {α : Type} (value? : Layer → Option α)
    (layers : List (Option Layer)) (last : Option Layer) :
    lastSet value? (layers ++ [last]) = (last.bind value?).or (lastSet value? layers) := by
  simp only [lastSet, List.reverse_append, List.reverse_singleton, List.singleton_append,
    List.findSome?_cons]
  cases last.bind value? <;> rfl

theorem lastSet_isSome_iff {α : Type} {value? : Layer → Option α} {layers : List (Option Layer)} :
    (lastSet value? layers).isSome ↔ ∃ layer, some layer ∈ layers ∧ (value? layer).isSome := by
  rw [lastSet, List.isSome_findSome?, List.any_eq_true]
  constructor
  · rintro ⟨layer, hmem, hset⟩
    cases layer with
    | none => cases hset
    | some layer => exact ⟨layer, List.mem_reverse.1 hmem, hset⟩
  · rintro ⟨layer, hmem, hset⟩
    exact ⟨some layer, List.mem_reverse.2 hmem, hset⟩

/-- A value for which the upper one of two layers decides if it can is set by the last layer that
sets it. -/
theorem mergeAll_bind {α : Type} {value? : Layer → Option α}
    (hvalue : ∀ base top : Layer, top.NamesOnce →
      value? (base.override top) = (value? top).or (value? base))
    {layers : List (Option Layer)} (h : EachOnce layers) :
    (mergeAll layers).bind value? = lastSet value? layers := by
  induction layers using List.reverseRecOn with
  | nil => rfl
  | append_singleton layers last ih =>
    rw [mergeAll_concat, lastSet_concat, ← ih h.init]
    cases hmerged : mergeAll layers with
    | none => simp
    | some base =>
      cases last with
      | none => simp
      | some top => exact hvalue base top (h.last top rfl)

/-- A layer that sets what the last layers set: each value by itself, and the environment variable
by variable. -/
structure Stacked (layers : List (Option Layer)) (merged : Layer) : Prop where
  program : merged.program = lastSet Layer.program layers
  initFile : merged.initFile = lastSet Layer.initFile layers
  host : merged.host = lastSet Layer.host layers
  port : merged.port = lastSet Layer.port layers
  color : merged.color = lastSet Layer.color layers
  readBufferSize : merged.readBufferSize = lastSet Layer.readBufferSize layers
  pollIntervalMs : merged.pollIntervalMs = lastSet Layer.pollIntervalMs layers
  callStackDepth : merged.callStackDepth = lastSet Layer.callStackDepth layers
  connectTimeoutMs : merged.connectTimeoutMs = lastSet Layer.connectTimeoutMs layers
  terminateTimeoutMs : merged.terminateTimeoutMs = lastSet Layer.terminateTimeoutMs layers
  implementation : merged.implementation = lastSet Layer.implementation layers
  environment : merged.environment.isSome ↔
    ∃ layer, some layer ∈ layers ∧ layer.environment.isSome
  value : ∀ name, merged.lookup name = lastSet (lookup name) layers
  namesOnce : merged.NamesOnce

theorem mergeAll_stacked {layers : List (Option Layer)} (h : EachOnce layers) {merged : Layer}
    (hmerged : mergeAll layers = some merged) : Stacked layers merged := by
  have hfield {α : Type} (value? : Layer → Option α)
      (hvalue : ∀ base top : Layer, top.NamesOnce →
        value? (base.override top) = (value? top).or (value? base)) :
      value? merged = lastSet value? layers := by
    rw [← mergeAll_bind hvalue h, hmerged, Option.bind_some]
  exact
    { program := hfield program fun _ _ _ => rfl
      initFile := hfield initFile fun _ _ _ => rfl
      host := hfield host fun _ _ _ => rfl
      port := hfield port fun _ _ _ => rfl
      color := hfield color fun _ _ _ => rfl
      readBufferSize := hfield readBufferSize fun _ _ _ => rfl
      pollIntervalMs := hfield pollIntervalMs fun _ _ _ => rfl
      callStackDepth := hfield callStackDepth fun _ _ _ => rfl
      connectTimeoutMs := hfield connectTimeoutMs fun _ _ _ => rfl
      terminateTimeoutMs := hfield terminateTimeoutMs fun _ _ _ => rfl
      implementation := hfield implementation fun _ _ _ => rfl
      environment := by
        have hset := hfield (fun layer => layer.environment.map fun _ => ())
          fun base top _ => environment_override base top
        rw [← Option.isSome_map (f := fun _ => ()), hset, lastSet_isSome_iff]
        simp only [Option.isSome_map]
      value := fun name => hfield (lookup name) fun base _ ht => lookup_override base ht name
      namesOnce := h.mergeAll merged hmerged }

end Layer

end Config
end SlimeServer
