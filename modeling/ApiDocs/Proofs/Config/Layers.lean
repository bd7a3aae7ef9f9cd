import ApiDocs.Config.Discovery
import ApiDocs.Proofs.Json.Fields

/-!
# A configuration and its layers

The layers of a configuration are merged into one value, and this value is decoded. Decoding loses
nothing of the fields that it knows: no field is a table but the settings, and a field that is none is
decoded only from a value that it would be written as. So each field of a configuration can be looked
for in the layers, from the highest to the lowest.

Settings can be written as an array as well, with the log level as the first item. An array is no table.
It is not merged with the settings of other layers but counts as a whole, or not at all.

## Main definitions

* `DocsConfig.Decodes`: a configuration has the fields of a record.
* `DocsConfig.TakenFrom`: each key of a configuration is that of the highest layer that has it.

## Main results

* `DocsConfig.ofJsonWith?_eq_some_iff`: when a value holds a configuration.
* `ConfigLayers.takenFrom`: a configuration is taken from its layers key by key.
-/

namespace ApiDocs

open Json (member? at? topmost? isObj)

/-! ## Decoding a configuration -/

namespace DocsConfig

/-- The configuration has the fields that were found in a value. -/
structure Decodes (settings : Json → Option Settings) (r : Json.Record) (c : DocsConfig) : Prop where
  sources : r.defaulted "sources" (Json.list? Json.str?) [] = some c.sources
  included : r.defaulted "include" (Json.list? Json.str?) [] = some c.included
  excluded : r.defaulted "exclude" (Json.list? Json.str?) [] = some c.excluded
  extension : r.optional "extension" Json.str? = some c.extension
  rootDir : r.optional "root_dir" Json.str? = some c.rootDir
  outDir : r.optional "out_dir" Json.str? = some c.outDir
  maxAliasDepth :
    r.defaulted "max_alias_depth" (Json.below? (Number.twoTo 64)) 64 = some c.maxAliasDepth
  output : r.optional "output" Json.str? = some c.output
  pretty : r.defaulted "pretty" Json.bool? true = some c.pretty
  settings : r.defaulted "settings" settings {} = some c.settings

/-- **When a value holds a configuration.** -/
theorem ofJsonWith?_eq_some_iff {settings : Json → Option Settings} {j : Json} {c : DocsConfig} :
    ofJsonWith? settings j = some c ↔
      ∃ r, Json.record? fieldRules j = some r ∧ Decodes settings r c := by
  simp only [ofJsonWith?, Option.bind_eq_bind, Option.bind_eq_some_iff, Option.pure_def,
    Option.some.injEq]
  constructor
  · rintro ⟨r, hr, _, h₁, _, h₂, _, h₃, _, h₄, _, h₅, _, h₆, _, h₇, _, h₈, _, h₉, _, h₁₀, rfl⟩
    exact ⟨r, hr, h₁, h₂, h₃, h₄, h₅, h₆, h₇, h₈, h₉, h₁₀⟩
  · rintro ⟨r, hr, h⟩
    exact ⟨r, hr, _, h.sources, _, h.included, _, h.excluded, _, h.extension, _, h.rootDir, _,
      h.outDir, _, h.maxAliasDepth, _, h.output, _, h.pretty, _, h.settings, rfl⟩

theorem fieldRules_optional : ∀ rule ∈ fieldRules, rule.2 ≠ .required := by decide

theorem map_fst_fieldRules : fieldRules.map Prod.fst = fieldNames := by decide

/-! ## Keys and layers -/

/-- The names of the fields that are no tables. -/
def plainNames : List String := fieldNames.dropLast

/-- The log level in layers, the highest first. Settings that are an array count as a whole. -/
def logLevelIn (layers : List Json) : Json :=
  match topmost? ["settings"] layers with
  | some (.arr items) => items.headD .null
  | _ => (topmost? ["settings", "log_level"] layers).getD .null

/-- **Each key is that of the highest layer that has it,** or else the default. The layers are given
with the highest first. -/
structure TakenFrom (c : DocsConfig) (layers : List Json) : Prop where
  plain : ∀ name ∈ plainNames,
    c.toJson.field? name = (topmost? [name] layers).or (({} : DocsConfig).toJson.field? name)
  logLevel : Json.ofOption .str c.settings.logLevel = logLevelIn layers

variable {settings : Json → Option Settings} {layers : List Json} {r : Json.Record} {c : DocsConfig}

/-- Layers, the highest first, over the defaults. -/
def overDefaults (layers : List Json) : Json :=
  Json.layered (({} : DocsConfig).toJson :: layers.reverse)

theorem reverse_overDefaults (layers : List Json) :
    (({} : DocsConfig).toJson :: layers.reverse).reverse = layers ++ [({} : DocsConfig).toJson] := by
  rw [List.reverse_cons, List.reverse_reverse]

/-- What is found over the defaults is that of the highest layer that has it, or the default. -/
theorem topmost?_or_default {name : String} {path : List String} {w fallback : Json}
    (hdefault : ({} : DocsConfig).toJson.at? (name :: path) = some fallback)
    (h : Json.Written ((overDefaults layers).at? (name :: path)) w fallback) :
    (topmost? (name :: path) layers).or (some fallback) = some w := by
  rw [← hdefault, ← Json.topmost?_append_singleton_or, hdefault]
  obtain ⟨hobj, h⟩ | ⟨h, rfl⟩ := h
  · rw [← reverse_overDefaults, Json.topmost?_of_at?_layered h hobj, Option.some_or]
  · rw [← reverse_overDefaults, Json.topmost?_of_at?_layered_none h, Option.none_or]

/-- The plain keys. -/
theorem Decodes.plain (h : Decodes settings r c)
    (hfind : ∀ name ∈ fieldNames, r.find name = (overDefaults layers).field? name)
    {name : String} (hname : name ∈ plainNames) :
    c.toJson.field? name = (topmost? [name] layers).or (({} : DocsConfig).toJson.field? name) := by
  have hkey : ∀ {w fallback : Json}, ({} : DocsConfig).toJson.field? name = some fallback →
      Json.Written (r.find name) w fallback →
      some w = (topmost? [name] layers).or (({} : DocsConfig).toJson.field? name) := by
    intro w fallback hdefault hw
    rw [hfind name (List.dropLast_subset _ hname), ← Json.at?_singleton] at hw
    rw [hdefault]
    exact (topmost?_or_default ((Json.at?_singleton _ _).trans hdefault) hw).symm
  simp only [plainNames, fieldNames, List.dropLast, List.mem_cons, List.not_mem_nil, or_false] at hname
  obtain rfl | rfl | rfl | rfl | rfl | rfl | rfl | rfl | rfl := hname
  · exact hkey rfl (Json.Record.of_defaulted Json.exact_strs h.sources)
  · exact hkey rfl (Json.Record.of_defaulted Json.exact_strs h.included)
  · exact hkey rfl (Json.Record.of_defaulted Json.exact_strs h.excluded)
  · exact hkey rfl (Json.Record.of_optional Json.exact_str h.extension)
  · exact hkey rfl (Json.Record.of_optional Json.exact_str h.rootDir)
  · exact hkey rfl (Json.Record.of_optional Json.exact_str h.outDir)
  · exact hkey rfl (Json.Record.of_defaulted (Json.exact_below _) h.maxAliasDepth)
  · exact hkey rfl (Json.Record.of_optional Json.exact_str h.output)
  · exact hkey rfl (Json.Record.of_defaulted Json.exact_bool h.pretty)

theorem logLevelIn_of_arr {items : List Json} (h : topmost? ["settings"] layers = some (.arr items)) :
    logLevelIn layers = items.headD .null := by
  rw [logLevelIn, h]

theorem logLevelIn_of_forall_ne_arr (h : ∀ items, topmost? ["settings"] layers ≠ some (.arr items)) :
    logLevelIn layers = (topmost? ["settings", "log_level"] layers).getD .null := by
  rw [logLevelIn]
  split
  · exact absurd ‹_› (h _)
  · rfl

/-- A log level that is found in a table, or in none, is that of the highest layer. -/
theorem eq_logLevelIn_of_table {level : Json}
    (htable : ∀ v, (overDefaults layers).at? ["settings"] = some v → v.isObj = true)
    (h : Json.Written ((overDefaults layers).at? ["settings", "log_level"]) level .null) :
    level = logLevelIn layers := by
  have hlevel : (topmost? ["settings", "log_level"] layers).or (some .null) = some level :=
    topmost?_or_default rfl h
  rw [logLevelIn_of_forall_ne_arr]
  · cases htop : topmost? ["settings", "log_level"] layers <;> rw [htop] at hlevel <;>
      exact (Option.some.inj hlevel).symm
  · intro items htop
    have hall := Json.topmost?_append_of_some htop ({} : DocsConfig).toJson
    rw [← reverse_overDefaults] at hall
    obtain ⟨v, hv, hobj⟩ := Json.isObj_of_topmost? hall
    have htrue := htable v hv
    rw [hobj] at htrue
    cases htrue

/-- Settings that are an array come from the highest layer that has settings. -/
theorem topmost?_settings_of_arr {items : List Json}
    (h : (overDefaults layers).at? ["settings"] = some (.arr items)) :
    topmost? ["settings"] layers = some (.arr items) := by
  have htop : (topmost? ["settings"] layers).or (some (.obj [("log_level", .null)])) =
      some (.arr items) := topmost?_or_default rfl (.inl ⟨rfl, h⟩)
  cases hupper : topmost? ["settings"] layers with
  | none =>
    rw [hupper] at htop
    cases htop
  | some v => rwa [hupper] at htop

/-- The log level in settings that are an array. -/
theorem logLevel_of_arr {items : List Json} {s : Settings}
    (h : Settings.ofLayer? (.arr items) = some s) :
    Json.ofOption .str s.logLevel = items.headD .null := by
  cases items with
  | nil =>
    obtain rfl := Option.some.inj h
    rfl
  | cons item items =>
    change (Json.Record.optional [("log_level", item)] "log_level" Json.str?).bind
      (fun level => some (Settings.mk level)) = some s at h
    obtain ⟨level, hlevel, h⟩ := Option.bind_eq_some_iff.mp h
    obtain rfl := Option.some.inj h
    obtain ⟨-, hfind⟩ | ⟨hfind, -⟩ := Json.Record.of_optional Json.exact_str hlevel
    · exact (Option.some.inj hfind).symm
    · cases hfind

/-- The log level in settings that are a table. -/
theorem logLevel_of_obj {members : List (String × Json)} {s : Settings}
    (h : Settings.ofLayer? (.obj members) = some s) :
    Json.Written (member? members "log_level") (Json.ofOption .str s.logLevel) .null := by
  obtain ⟨r, hr, h⟩ := Option.bind_eq_some_iff.mp h
  obtain ⟨level, hlevel, h⟩ := Option.bind_eq_some_iff.mp h
  obtain rfl := Option.some.inj h
  rw [← Json.find_of_record? (by decide) hr (by decide)]
  exact Json.Record.of_optional Json.exact_str hlevel

/-- The log level. -/
theorem Decodes.logLevel (h : Decodes Settings.ofLayer? r c)
    (hfind : r.find "settings" = (overDefaults layers).at? ["settings"]) :
    Json.ofOption .str c.settings.logLevel = logLevelIn layers := by
  have hsettings := h.settings
  rw [Json.Record.defaulted, hfind] at hsettings
  have hinner := Json.at?_pair "settings" "log_level" (overDefaults layers)
  cases hv : (overDefaults layers).at? ["settings"] with
  | none =>
    rw [hv] at hsettings hinner
    refine eq_logLevelIn_of_table (fun w hw => ?_) (.inr ⟨hinner, ?_⟩)
    · cases hv.symm.trans hw
    · rw [← Option.some.inj hsettings]
      rfl
  | some v =>
    rw [hv] at hsettings hinner
    cases v with
    | obj members =>
      refine eq_logLevelIn_of_table (fun w hw => ?_) (hinner ▸ logLevel_of_obj hsettings)
      rw [← Option.some.inj (hv.symm.trans hw)]
      rfl
    | arr items =>
      rw [logLevelIn_of_arr (topmost?_settings_of_arr hv)]
      exact logLevel_of_arr hsettings
    | _ => cases hsettings

end DocsConfig

/-- **A configuration is taken from its layers key by key.** -/
theorem ConfigLayers.takenFrom {l : ConfigLayers} {c : DocsConfig} (h : l.config = .ok c)
    (hoverrides : l.overrides.isObj = true) :
    c.TakenFrom [l.overrides, l.environment, l.file] := by
  rw [ConfigLayers.config] at h
  split at h
  · next c' hlayers =>
    obtain rfl := Except.ok.inj h
    obtain ⟨r, hr, hc⟩ := DocsConfig.ofJsonWith?_eq_some_iff.mp hlayers
    have hvalue : l.value = DocsConfig.overDefaults [l.overrides, l.environment, l.file] := rfl
    obtain ⟨members, hmembers⟩ : ∃ members, l.value = .obj members := by
      refine Json.eq_obj_of_isObj ?_
      rw [ConfigLayers.value, Json.layered, List.foldl_cons, List.foldl_cons, List.foldl_cons,
        List.foldl_cons, List.foldl_nil, Json.isObj_overlay, hoverrides]
    rw [hmembers] at hr
    have hfind : ∀ name ∈ DocsConfig.fieldNames, r.find name =
        (DocsConfig.overDefaults [l.overrides, l.environment, l.file]).field? name := by
      intro name hname
      rw [← hvalue, hmembers]
      exact Json.find_of_record? DocsConfig.fieldRules_optional hr
        (DocsConfig.map_fst_fieldRules ▸ hname)
    exact ⟨fun name hname => hc.plain hfind hname,
      hc.logLevel ((hfind _ (by decide)).trans (Json.at?_singleton _ _).symm)⟩
  · cases h

end ApiDocs
