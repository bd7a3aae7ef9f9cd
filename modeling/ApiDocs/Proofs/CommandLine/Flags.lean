import ApiDocs.CommandLine.Run
import ApiDocs.Proofs.Config.Layers

/-!
# Flags over a configuration

The flags of a request are the topmost layer of its configuration. A flag that is not given is not
written into this layer, so it leaves its field to the layers below. A flag that is given replaces its
field: lists are not appended to.

## Main definitions

* `ExtractRequest.withoutOverrides`: a request without the flags that set fields of the configuration.
* `ExtractRequest.applied`: a configuration with the fields that a request sets.
* `ConfigSearch.Uses`: the file that a search uses in a store.
* `ConfigSearch.FileLayer`: the layer in this file.

## Main results

* `ExtractRequest.ofLayers?_applied`: flags over a configuration.
* `loadConfig_overrides`: loading a configuration with flags and without.
-/

namespace ApiDocs

open Json (member? timesOf)

namespace CommandLine

/-! ## Flags -/

namespace ExtractRequest

/-- The request without the flags that set fields of the configuration. -/
def withoutOverrides (r : ExtractRequest) : ExtractRequest where
  config := r.config
  keepEmpty := r.keepEmpty
  cwd := r.cwd

/-- **The configuration with the fields that the request sets.** -/
def applied (r : ExtractRequest) (c : DocsConfig) : DocsConfig :=
  { c with
    sources := if r.files.isEmpty then c.sources else r.files
    included := if r.included.isEmpty then c.included else r.included
    excluded := if r.excluded.isEmpty then c.excluded else r.excluded
    extension := r.extension.or c.extension
    output := r.out.or c.output
    pretty := if r.compact then false else c.pretty }

/-- The members that flags are. -/
def flagMembers (r : ExtractRequest) : List (String × Json) :=
  listMember "sources" r.files ++ listMember "include" r.included ++
    listMember "exclude" r.excluded ++ textMember "extension" r.extension ++
    textMember "output" r.out ++ if r.compact then [("pretty", .bool false)] else []

theorem member?_listMember (name other : String) (xs : List String) :
    member? (listMember name xs) other =
      if name = other then if xs.isEmpty then none else some (Json.strs xs) else none := by
  rw [listMember]
  by_cases hxs : xs.isEmpty = true
  · rw [if_pos hxs, if_pos hxs, ite_self]
    rfl
  · rw [if_neg hxs, if_neg hxs, Json.member?_cons]
    rfl

theorem member?_textMember (name other : String) (x : Option String) :
    member? (textMember name x) other = if name = other then x.map .str else none := by
  cases x with
  | none => exact (ite_self none).symm
  | some s =>
    rw [textMember, Json.member?_cons]
    rfl

theorem member?_compactMember (name : String) (compact : Bool) :
    member? (if compact then [("pretty", .bool false)] else []) name =
      if "pretty" = name then if compact then some (.bool false) else none else none := by
  cases compact with
  | false => exact (ite_self none).symm
  | true =>
    rw [if_pos rfl, if_pos rfl, Json.member?_cons]
    rfl

/-- What flags say of a field. -/
theorem member?_flagMembers (r : ExtractRequest) (name : String) :
    member? r.flagMembers name =
      (((((if "sources" = name then if r.files.isEmpty then none else some (Json.strs r.files)
          else none).or
        (if "include" = name then if r.included.isEmpty then none else some (Json.strs r.included)
          else none)).or
        (if "exclude" = name then if r.excluded.isEmpty then none else some (Json.strs r.excluded)
          else none)).or
        (if "extension" = name then r.extension.map .str else none)).or
        (if "output" = name then r.out.map .str else none)).or
        (if "pretty" = name then if r.compact then some (.bool false) else none else none) := by
  simp only [flagMembers, Json.member?_append, member?_listMember, member?_textMember,
    member?_compactMember]

/-- One member of a name, or none. Its value is no table. -/
structure IsFlag (name : String) (members : List (String × Json)) : Prop where
  names : (members.map Prod.fst).Sublist [name]
  plain : ∀ m ∈ members, m.2.isObj = false

theorem isFlag_nil (name : String) : IsFlag name [] :=
  ⟨List.nil_sublist _, fun _ h => nomatch h⟩

theorem isFlag_singleton (name : String) {v : Json} (h : v.isObj = false) : IsFlag name [(name, v)] :=
  ⟨List.Sublist.refl _, fun _ hm => List.mem_singleton.mp hm ▸ h⟩

theorem isFlag_listMember (name : String) (xs : List String) : IsFlag name (listMember name xs) := by
  rw [listMember]
  split
  · exact isFlag_nil name
  · exact isFlag_singleton name rfl

theorem isFlag_textMember (name : String) (x : Option String) : IsFlag name (textMember name x) := by
  cases x with
  | none => exact isFlag_nil name
  | some s => exact isFlag_singleton name rfl

theorem isFlag_compactMember (compact : Bool) :
    IsFlag "pretty" (if compact then [("pretty", .bool false)] else []) := by
  cases compact with
  | false => exact isFlag_nil _
  | true => exact isFlag_singleton _ rfl

theorem isObj_of_member?_flagMembers (r : ExtractRequest) (name : String) (v : Json)
    (h : member? r.flagMembers name = some v) : v.isObj = false := by
  obtain ⟨m, hm, rfl⟩ := Option.map_eq_some_iff.mp h
  have hmem := List.mem_of_find?_eq_some hm
  simp only [flagMembers, List.mem_append] at hmem
  obtain ((((hm | hm) | hm) | hm) | hm) | hm := hmem
  · exact (isFlag_listMember _ _).plain m hm
  · exact (isFlag_listMember _ _).plain m hm
  · exact (isFlag_listMember _ _).plain m hm
  · exact (isFlag_textMember _ _).plain m hm
  · exact (isFlag_textMember _ _).plain m hm
  · exact (isFlag_compactMember _).plain m hm

theorem timesOf_flagMembers_le (r : ExtractRequest) (name : String) :
    timesOf r.flagMembers name ≤ 1 := by
  have hnames : (r.flagMembers.map Prod.fst).Sublist
      ["sources", "include", "exclude", "extension", "output", "pretty"] := by
    simp only [flagMembers, List.map_append]
    exact ((((((isFlag_listMember _ _).names.append (isFlag_listMember _ _).names).append
      (isFlag_listMember _ _).names).append (isFlag_textMember _ _).names).append
      (isFlag_textMember _ _).names).append (isFlag_compactMember _).names)
  rw [Json.timesOf_eq_count]
  exact Nat.le_trans (hnames.count_le name) (List.nodup_iff_count.mp (by decide) name)

/-- **Flags over a configuration** set the fields that they name and no others. -/
theorem ofLayers?_applied (r : ExtractRequest) {members : List (String × Json)} {c : DocsConfig}
    (h : DocsConfig.ofLayers? (.obj members) = some c) :
    DocsConfig.ofLayers? (Json.overlay (.obj members) r.overrides) = some (r.applied c) := by
  obtain ⟨found, hfound, hc⟩ := DocsConfig.ofJsonWith?_eq_some_iff.mp h
  obtain ⟨found', hfound', hfind⟩ := Json.record?_overlay DocsConfig.fieldRules_optional hfound
    r.timesOf_flagMembers_le r.isObj_of_member?_flagMembers
  rw [DocsConfig.map_fst_fieldRules] at hfind
  refine DocsConfig.ofJsonWith?_eq_some_iff.mpr ⟨found', hfound', ?_⟩
  -- A flag that is given decodes to its own value, and any other field to what it was.
  have hlist : ∀ {name : String} {xs ys : List String}, name ∈ DocsConfig.fieldNames →
      member? r.flagMembers name = (if xs.isEmpty then none else some (Json.strs xs)) →
      found.defaulted name (Json.list? Json.str?) [] = some ys →
      found'.defaulted name (Json.list? Json.str?) [] = some (if xs.isEmpty then ys else xs) := by
    intro name xs ys hname hmember hys
    rw [Json.Record.defaulted, hfind name hname, hmember]
    by_cases hxs : xs.isEmpty = true
    · rw [if_pos hxs, if_pos hxs, Option.none_or]
      exact hys
    · rw [if_neg hxs, if_neg hxs, Option.some_or]
      exact Json.list?_strs xs
  have htext : ∀ {name : String} {x y : Option String}, name ∈ DocsConfig.fieldNames →
      member? r.flagMembers name = x.map .str → found.optional name Json.str? = some y →
      found'.optional name Json.str? = some (x.or y) := by
    intro name x y hname hmember hy
    rw [Json.Record.optional, hfind name hname, hmember]
    cases x with
    | none => exact hy
    | some s => rfl
  have hkept : ∀ {name : String}, name ∈ DocsConfig.fieldNames → member? r.flagMembers name = none →
      found'.find name = found.find name := by
    intro name hname hmember
    rw [hfind name hname, hmember, Option.none_or]
  exact {
    sources := hlist (by decide) (by simp [member?_flagMembers]) hc.sources
    included := hlist (by decide) (by simp [member?_flagMembers]) hc.included
    excluded := hlist (by decide) (by simp [member?_flagMembers]) hc.excluded
    extension := htext (by decide) (by simp [member?_flagMembers]) hc.extension
    rootDir := by
      rw [Json.Record.optional, hkept (by decide) (by simp [member?_flagMembers])]
      exact hc.rootDir
    outDir := by
      rw [Json.Record.optional, hkept (by decide) (by simp [member?_flagMembers])]
      exact hc.outDir
    maxAliasDepth := by
      rw [Json.Record.defaulted, hkept (by decide) (by simp [member?_flagMembers])]
      exact hc.maxAliasDepth
    output := htext (by decide) (by simp [member?_flagMembers]) hc.output
    pretty := by
      rw [Json.Record.defaulted, hfind _ (by decide)]
      cases hcompact : r.compact with
      | false => simpa [member?_flagMembers, applied, hcompact, Json.Record.defaulted] using hc.pretty
      | true => simp [member?_flagMembers, applied, hcompact, Json.bool?]
    settings := by
      rw [Json.Record.defaulted, hkept (by decide) (by simp [member?_flagMembers])]
      exact hc.settings }

/-- The layer of flags over layers that make a configuration. -/
theorem config_applied (r : ExtractRequest) {file environment : Json} {c : DocsConfig}
    (h : (ConfigLayers.mk file environment (.obj [])).config = .ok c) :
    (ConfigLayers.mk file environment r.overrides).config = .ok (r.applied c) := by
  have hvalue : (ConfigLayers.mk file environment r.overrides).value =
      (ConfigLayers.mk file environment (.obj [])).value.overlay r.overrides :=
    (Json.overlay_empty_overlay _ _).symm
  obtain ⟨members, hmembers⟩ : ∃ members,
      (ConfigLayers.mk file environment (.obj [])).value = .obj members :=
    Json.eq_obj_of_isObj (Json.isObj_overlay _ _)
  rw [ConfigLayers.config] at h ⊢
  rw [hmembers] at h hvalue
  split at h
  · next c' hlayers =>
    obtain rfl := Except.ok.inj h
    rw [hvalue, r.ofLayers?_applied hlayers]
  · cases h

end ExtractRequest

end CommandLine

/-! ## The layer in a file -/

/-- Does anything stand at the path? -/
def FileStore.has (s : FileStore) (path : String) : Bool := s.isFile path || s.isDirectory path

/-- The layer that a path of a configuration holds. What is neither a package nor a file counts as an
empty layer. -/
inductive FileStore.LayerAt (s : FileStore) (path : String) : Json → Prop
  | package {text : String} {layer : Json} (named : isPackagePath path = true)
      (read : s.read path = .ok text) (holds : packageLayer text = .ok layer) : LayerAt s path layer
  | table {text : String} {layer : Json} (named : isPackagePath path = false)
      (there : s.isFile path = true) (read : s.read path = .ok text)
      (holds : Toml.parse? text = some layer) : LayerAt s path layer
  | empty (named : isPackagePath path = false) (absent : s.isFile path = false) :
      LayerAt s path (.obj [])

namespace ConfigSearch

variable {s : ConfigSearch} {store : FileStore}

/-- **The file that a search uses:** the one that is given, or `tydoc.toml`, or a package with a field
for it, or none. -/
inductive Uses (s : ConfigSearch) (store : FileStore) : Option String → Prop
  | given {path : String} (given : s.given = some path) (there : store.has path = true) :
      Uses s store (some path)
  | own (searched : s.given = none) (there : store.has (pathIn s.root configFile) = true) :
      Uses s store (some (pathIn s.root configFile))
  | package {text : String} (searched : s.given = none)
      (absent : store.has (pathIn s.root configFile) = false)
      (read : store.read (pathIn s.root packageFile) = .ok text) (holds : holdsConfig text = true) :
      Uses s store (some (pathIn s.root packageFile))
  | nothing (searched : s.given = none) (absent : store.has (pathIn s.root configFile) = false)
      (without : ∀ text, store.read (pathIn s.root packageFile) = .ok text → holdsConfig text = false) :
      Uses s store none

/-- The layer of the file that a search uses; an empty one without a file. -/
inductive FileLayer (s : ConfigSearch) (store : FileStore) : Json → Prop
  | file {path : String} {layer : Json} (used : s.Uses store (some path))
      (holds : store.LayerAt path layer) : FileLayer s store layer
  | nothing (used : s.Uses store none) : FileLayer s store (.obj [])

/-- Find the file and read the layer in it. -/
def readLayer {m : Type → Type} [Monad m] [MonadFiles m] (s : ConfigSearch) :
    ExceptT ConfigError m Json := do
  match ← s.file (m := m) with
  | some path => fileLayer path
  | none => pure (.obj [])

/-- Loading is to read the layer of a file and to put the others over it. -/
theorem load_eq {m : Type → Type} [Monad m] [LawfulMonad m] [MonadFiles m] (s : ConfigSearch)
    (env : List (String × String)) :
    s.load (m := m) env = s.readLayer (m := m) >>= fun file => ExceptT.mk (pure
      (ConfigLayers.mk file (Environment.layer env) s.overrideLayer).config) := by
  rw [load, layers, readLayer, bind_assoc, bind_assoc]
  congr 1
  funext file
  cases file <;> simp

end ConfigSearch

/-! ## Reading a store -/

namespace FileStore

variable {store : FileStore}

/-- A step that only reads the store, and what holds of its result. -/
def Reads (x : ExceptT ε (StateM FileStore) α) (store : FileStore) (P : α → Prop) : Prop :=
  ∃ res : Except ε α, x.run.run store = pure (res, store) ∧ ∀ a, res = .ok a → P a

theorem reads_pure {a : α} {P : α → Prop} (h : P a) :
    Reads (pure a : ExceptT ε (StateM FileStore) α) store P :=
  ⟨.ok a, rfl, fun _ heq => Except.ok.inj heq ▸ h⟩

theorem reads_throw {e : ε} {P : α → Prop} :
    Reads (throw e : ExceptT ε (StateM FileStore) α) store P :=
  ⟨.error e, rfl, fun _ heq => nomatch heq⟩

theorem reads_mk {res : Except ε α} {P : α → Prop} (h : ∀ a, res = .ok a → P a) :
    Reads (ExceptT.mk (pure res) : ExceptT ε (StateM FileStore) α) store P :=
  ⟨res, rfl, h⟩

theorem reads_lift {x : StateM FileStore α} {a : α} {P : α → Prop}
    (hx : x.run store = pure (a, store)) (h : P a) :
    Reads (liftM x : ExceptT ε (StateM FileStore) α) store P := by
  refine ⟨.ok a, ?_, fun _ heq => Except.ok.inj heq ▸ h⟩
  simp [hx]

theorem Reads.bind {x : ExceptT ε (StateM FileStore) α} {f : α → ExceptT ε (StateM FileStore) β}
    {P : α → Prop} {Q : β → Prop} (hx : Reads x store P)
    (hf : ∀ a, P a → Reads (f a) store Q) : Reads (x >>= f) store Q := by
  obtain ⟨res, hrun, hP⟩ := hx
  cases res with
  | error e =>
    refine ⟨.error e, ?_, fun _ heq => nomatch heq⟩
    rw [ExceptT.run_bind, StateT.run_bind, hrun, pure_bind]
    rfl
  | ok a =>
    obtain ⟨res, hres, hQ⟩ := hf a (hP a rfl)
    refine ⟨res, ?_, hQ⟩
    rw [ExceptT.run_bind, StateT.run_bind, hrun, pure_bind]
    exact hres

theorem run_isFile (path : String) :
    (MonadFiles.isFile (m := StateM FileStore) path).run store = pure (store.isFile path, store) := rfl

theorem run_read (path : String) :
    (MonadFiles.read (m := StateM FileStore) path).run store = pure (store.read path, store) := rfl

theorem run_pathExists (path : String) :
    (MonadFiles.pathExists (m := StateM FileStore) path).run store = pure (store.has path, store) := by
  rw [has]
  cases h : store.isFile path
  · simp [MonadFiles.pathExists, MonadFiles.isFile, MonadFiles.isDirectory, h]
  · simp [MonadFiles.pathExists, MonadFiles.isFile, MonadFiles.isDirectory, h]

end FileStore

namespace ConfigSearch

open FileStore

variable {s : ConfigSearch} {store : FileStore}

theorem run_find (searched : s.given = none) :
    ∃ file, (s.find (m := StateM FileStore)).run store = pure (file, store) ∧ s.Uses store file := by
  cases hown : store.has (pathIn s.root configFile) with
  | true => exact ⟨_, by simp [find, run_pathExists, hown], .own searched hown⟩
  | false =>
    cases hread : store.read (pathIn s.root packageFile) with
    | error e =>
      refine ⟨none, ?_, .nothing searched hown fun text h => nomatch hread.symm.trans h⟩
      simp [find, run_pathExists, hown, run_read, hread]
    | ok text =>
      cases hholds : holdsConfig text with
      | true =>
        refine ⟨_, ?_, .package searched hown hread hholds⟩
        simp [find, run_pathExists, hown, run_read, hread, hholds]
      | false =>
        refine ⟨none, ?_, .nothing searched hown fun text' h => ?_⟩
        · simp [find, run_pathExists, hown, run_read, hread, hholds]
        · exact Except.ok.inj (hread.symm.trans h) ▸ hholds

/-- The file is found without a change to the store. -/
theorem reads_file : Reads (s.file (m := StateM FileStore)) store (s.Uses store) := by
  rw [file]
  cases hgiven : s.given with
  | some path =>
    refine (reads_lift (run_pathExists path) rfl).bind fun there hthere => ?_
    split
    · next htrue => exact reads_pure (.given hgiven (hthere.trans htrue))
    · exact reads_throw
  | none =>
    obtain ⟨_, hrun, huses⟩ := run_find hgiven
    exact reads_lift hrun huses

/-- A file is read without a change to the store. -/
theorem reads_fileLayer (path : String) :
    Reads (fileLayer (m := StateM FileStore) path) store (store.LayerAt path) := by
  rw [fileLayer]
  cases hnamed : isPackagePath path with
  | true =>
    rw [if_pos rfl]
    refine (reads_lift (run_read path) rfl).bind fun text htext => ?_
    split
    · exact reads_mk fun layer hholds => .package hnamed htext hholds
    · exact reads_throw
  | false =>
    rw [if_neg Bool.false_ne_true]
    refine (reads_lift (run_isFile path) rfl).bind fun there hthere => ?_
    split
    · next htrue =>
      refine (reads_lift (run_read path) rfl).bind fun text htext => ?_
      split
      · split
        · next hholds => exact reads_pure (.table hnamed (hthere.trans htrue) htext hholds)
        · exact reads_throw
      · exact reads_throw
    · next hfalse => exact reads_pure (.empty hnamed (hthere.trans (by simpa using hfalse)))

/-- **The layer of a file is read without a change to the store.** -/
theorem reads_readLayer : Reads (s.readLayer (m := StateM FileStore)) store (s.FileLayer store) := by
  rw [readLayer]
  refine reads_file.bind fun file huses => ?_
  cases file with
  | none => exact reads_pure (.nothing huses)
  | some path =>
    obtain ⟨res, hrun, hholds⟩ := reads_fileLayer path
    exact ⟨res, hrun, fun layer h => .file huses (hholds layer h)⟩

/-- Loading does not change the store. -/
theorem run_load (env : List (String × String)) {res : Except ConfigError Json}
    (hread : (s.readLayer (m := StateM FileStore)).run.run store = pure (res, store)) :
    (s.load (m := StateM FileStore) env).run.run store =
      pure (res.bind fun file =>
        (ConfigLayers.mk file (Environment.layer env) s.overrideLayer).config, store) := by
  rw [load_eq, ExceptT.run_bind, StateT.run_bind, hread, pure_bind]
  cases res <;> rfl

end ConfigSearch

namespace CommandLine

/-! ## Loading -/

/-- The directory of a request in a store. -/
def ExtractRequest.directoryIn (r : ExtractRequest) (store : FileStore) : String :=
  r.cwd.getD store.root

theorem run_directory (r : ExtractRequest) (store : FileStore) :
    (r.directory (m := StateM FileStore)).run store = pure (r.directoryIn store, store) := by
  rw [ExtractRequest.directory, ExtractRequest.directoryIn]
  cases r.cwd <;> rfl

theorem run_loadConfig (r : ExtractRequest) (env : List (String × String)) {store : FileStore}
    {res : Except ConfigError Json}
    (hread : ((r.search (r.directoryIn store)).readLayer (m := StateM FileStore)).run.run store =
      pure (res, store)) :
    (loadConfig (m := StateM FileStore) r env).run.run store =
      pure ((res.bind fun file =>
        (ConfigLayers.mk file (Environment.layer env) r.overrides).config).mapError .config,
        store) := by
  have hdirectory : StateT.run (liftM (r.directory (m := StateM FileStore)) :
      ExceptT Failure (StateM FileStore) String).run store =
      pure (.ok (r.directoryIn store), store) := by
    simp [run_directory]
  rw [loadConfig, ExceptT.run_bind, StateT.run_bind, hdirectory, pure_bind]
  change StateT.run (attempt _ _).run store = _
  rw [attempt, ExceptT.run_mk, StateT.run_bind, ConfigSearch.run_load env hread, pure_bind]
  rfl

/-- A store with a configuration file. -/
def kiosk : FileStore :=
  ({ root := "/kiosk" } : FileStore).put "tydoc.toml" "sources = [\"a.ts\"]\noutput = \"api.json\"\n"

/-- A request that replaces the sources and writes in short form. -/
def kioskRequest : ExtractRequest := { files := ["b.ts"], compact := true }

/-- A variable for a key under the settings. -/
def kioskEnvironment : List (String × String) := [("TYDOC_SETTINGS__LOG_LEVEL", "debug")]

/-- The configuration without flags. -/
def kioskConfig : DocsConfig where
  sources := ["a.ts"]
  output := some "api.json"
  settings := { logLevel := some "debug" }

end CommandLine

end ApiDocs
