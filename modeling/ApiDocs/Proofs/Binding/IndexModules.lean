import ApiDocs.Binding.ModulePath
import ApiDocs.Proofs.Graph.Builder
import ApiDocs.Proofs.Text.NormalForms

/-!
# Index modules

A specifier may name a directory and mean the index module in it. Its candidates are texts: an ending with a
slash is put behind the normal form of the directory, and the result is looked up among normal forms. Behind
a directory that is neither the root nor the one that relative paths start in, this is the normal form of the
index module. At the top there is nothing for a slash to stand behind: the starting directory is the empty
text, so the candidates are the index modules of the root instead, and the root ends in a slash already, so
its candidates are no normal forms at all. An index module at the top is therefore never found through its
directory.

What is found depends on the normal forms of the directory and of the specifier only, so other spellings of
the two find the same module.

## Main definitions

* `ModulePath.indexNames`: the names of index modules.
* `ModulePath.indexPath`: the path of an index module in a directory.
* `ModulePath.FindsIndex`: which index modules a specifier finds.

## Main results

* `ModulePath.resolve?_index`: index modules are found below the top, however paths are written.
* `ModulePath.topIndex_missed`: an index module at the top is not found.
-/

namespace ApiDocs

open SourcePath

namespace SourcePath

variable {path file directory directory' : List Char} {f : Folded}

/-! ## Directories -/

/-- Behind segments, a further one stands behind a slash. -/
theorem Folded.text_push (hf : f.segments ≠ []) (s : List Char) :
    Folded.text { f with segments := s :: f.segments } = f.text ++ '/' :: s := by
  obtain ⟨first, more, hmore⟩ := List.exists_cons_of_ne_nil (List.reverse_ne_nil_iff.mpr hf)
  simp [Folded.text_eq, Folded.root, List.reverse_cons, hmore, Text.intercalate_cons_flatMap]

/-- A path without segments is at the top. -/
theorem Folded.text_of_segments_eq_nil (hf : f.segments = []) :
    f.text = [] ∨ f.text = ['/'] := by
  cases ha : f.absolute <;> simp [Folded.text, ha, hf]

theorem fold_join_name (hf : f.Normal) (hfile : IsName file) :
    fold (join f.text file) = { f with segments := file :: f.segments } := by
  rw [fold_join (isAbsolute_of_isSegment hfile.toIsSegment), fold_text hf,
    bodyComponents_of_noSlash hfile.noSlash, hfile.ofSegment?, hfile.ofSegment]
  rfl

theorem parent_slash (hfile : '/' ∉ file) (hne : file ≠ []) (x : List Char) :
    parent (x ++ '/' :: file) = if x = [] then ['/'] else x := by
  have hroot : x ++ '/' :: file ≠ ['/'] := by
    intro h
    cases x <;> simp_all
  have hsplit : (Text.splitOn '/' (x ++ '/' :: file)).dropLast = Text.splitOn '/' x := by
    rw [Text.splitOn_append, Text.splitOn_of_not_mem hfile, List.dropLast_concat]
  have hback := Text.intercalate_splitOn '/' x
  rw [parent, if_neg hroot, hsplit]
  split
  next h =>
    rw [h] at hback
    exact (if_pos hback.symm).symm
  next h =>
    have hx : x ≠ [] := by
      rintro rfl
      exact h rfl
    rw [hback, if_neg hx]

/-- A file in a directory has this directory, in another spelling if it ends in a slash. -/
theorem fold_parent_join (hfile : IsSegment file) (directory : List Char) :
    fold (parent (join directory file)) = fold directory := by
  have hrelative := isAbsolute_of_isSegment hfile
  have hne : file ≠ [] := by
    rintro rfl
    exact absurd hfile.solid (by decide)
  cases directory using List.reverseRecOn with
  | nil =>
    have hroot : file ≠ ['/'] := fun h => hfile.noSlash (by simp [h])
    rw [join_nil hrelative, parent, if_neg hroot, Text.splitOn_of_not_mem hfile.noSlash]
    rfl
  | append_singleton directory a =>
    by_cases ha : a = '/'
    · subst ha
      rw [join_slash hrelative, parent_slash hfile.noSlash hne]
      by_cases hdirectory : directory = []
      · rw [if_pos hdirectory, hdirectory]
        rfl
      · rw [if_neg hdirectory, fold_eq (directory ++ ['/']), isAbsolute_append hdirectory,
          bodyComponents_snoc_slash, ← fold_eq]
    · rw [join_concat hrelative ha, parent_slash hfile.noSlash hne, if_neg (by simp)]

end SourcePath

namespace ModulePath

variable {modules : Table String SymbolId} {source specifier specifier' : String} {m : SymbolId}

/-- The names of index modules, the best first. -/
def indexNames : List String := ["index.ts", "index.tsx", "index.d.ts"]

/-- The endings of a specifier that names a file. -/
def fileEndings : List String := ["", ".ts", ".tsx", ".d.ts"]

/-- The path of an index module in a directory. -/
def indexPath (directory name : String) : String := normalize (joined directory name)

theorem endings_eq : endings = fileEndings ++ indexNames.map ("/" ++ ·) := rfl

/-! ## Candidates -/

theorem isAbsolute_of_isRelative (h : isRelative specifier = true) :
    isAbsolute specifier.toList = false := by
  rw [isRelative, Bool.or_eq_true] at h
  rcases h with h | h <;>
    obtain ⟨rest, hrest⟩ := List.isPrefixOf_iff_prefix.mp h <;> rw [← hrest] <;> rfl

/-- If the target of a specifier is no file, then its index modules come first, and the paths without an
emitted extension behind them. -/
theorem resolve?_of_absent (hspecifier : isRelative specifier = true)
    (habsent : ∀ e ∈ fileEndings, modules.get? (target source specifier ++ e) = none) :
    resolve? modules source specifier =
      ((indexNames.map (target source specifier ++ "/" ++ ·)).findSome? modules.get?).or
        (((stems (target source specifier)).tail.flatMap fun stem => endings.map (stem ++ ·)).findSome?
          modules.get?) := by
  have hfiles : (fileEndings.map (target source specifier ++ ·)).findSome? modules.get? = none := by
    rw [List.findSome?_eq_none_iff]
    intro path hpath
    obtain ⟨e, he, rfl⟩ := List.mem_map.mp hpath
    exact habsent e he
  rw [resolve?, if_pos hspecifier, candidates, stems, List.flatMap_cons, List.tail_cons, endings_eq,
    List.map_append, List.append_assoc, List.findSome?_append, hfiles, Option.none_or,
    List.findSome?_append, List.map_map]
  simp only [Function.comp_def, String.append_assoc]

/-- Below the top, the candidates are the paths of the index modules. -/
theorem indexPath_target (hempty : target source specifier ≠ "") (hroot : target source specifier ≠ "/")
    {name : String} (hname : IsName name.toList) :
    indexPath (target source specifier) name = target source specifier ++ "/" ++ name := by
  obtain ⟨f, hf, htext⟩ : ∃ f : Folded, f.Normal ∧ target source specifier = String.ofList f.text :=
    ⟨_, fold_normal _, rfl⟩
  have hsegments : f.segments ≠ [] := by
    intro hnone
    rcases Folded.text_of_segments_eq_nil hnone with h | h
    · exact hempty (htext.trans (congrArg String.ofList h))
    · exact hroot (htext.trans (congrArg String.ofList h))
  rw [indexPath, joined, SourcePath.normalize, htext, String.toList_ofList, String.toList_ofList,
    fold_join_name hf hname, Folded.text_push hsegments]
  apply String.toList_injective
  simp

/-! ## What is found -/

/-- What a specifier finds whose target is no file: below the top the first index module that is there, at
the start of relative paths the index modules of the root, and at the root nothing. -/
structure FindsIndex (modules : Table String SymbolId) (source specifier : String) : Prop where
  below : target source specifier ≠ "" → target source specifier ≠ "/" →
    ∀ before name after, indexNames = before ++ name :: after →
      (∀ better ∈ before, modules.get? (indexPath (target source specifier) better) = none) →
      ∀ m, modules.get? (indexPath (target source specifier) name) = some m →
        resolve? modules source specifier = some m
  start : target source specifier = "" → resolve? modules source specifier =
    indexNames.findSome? fun name => modules.get? (indexPath "/" name)
  root : target source specifier = "/" → (∀ path ∈ modules.keys, normalize path = path) →
    resolve? modules source specifier = none

theorem findsIndex (hspecifier : isRelative specifier = true)
    (habsent : ∀ e ∈ fileEndings, modules.get? (target source specifier ++ e) = none) :
    FindsIndex modules source specifier where
  below hempty hroot before name after hnames hbefore m hm := by
    have hname : ∀ n ∈ indexNames, IsName n.toList := by decide
    have hpaths : indexNames.map (target source specifier ++ "/" ++ ·) =
        indexNames.map (indexPath (target source specifier)) :=
      List.map_congr_left fun n hn => (indexPath_target hempty hroot (hname n hn)).symm
    have hfirst : (before.map (indexPath (target source specifier))).findSome? modules.get? = none := by
      rw [List.findSome?_eq_none_iff]
      intro path hpath
      obtain ⟨better, hbetter, rfl⟩ := List.mem_map.mp hpath
      exact hbefore better hbetter
    rw [resolve?_of_absent hspecifier habsent, hpaths, hnames, List.map_append, List.findSome?_append,
      hfirst, Option.none_or, List.map_cons, List.findSome?_cons, hm, Option.some_or]
  start htarget := by
    have hbehind : (stems "").tail = [] := by decide
    have hpaths : indexNames.map ("" ++ "/" ++ ·) = indexNames.map (indexPath "/") := by decide
    rw [resolve?_of_absent hspecifier habsent, htarget, hbehind, hpaths, List.findSome?_map]
    exact Option.or_none
  root htarget hforms := by
    have hbehind : (stems "/").tail = [] := by decide
    have hnoForm : ∀ path ∈ indexNames.map ("/" ++ "/" ++ ·), normalize path ≠ path := by decide
    have hnone : (indexNames.map ("/" ++ "/" ++ ·)).findSome? modules.get? = none := by
      rw [List.findSome?_eq_none_iff]
      intro path hpath
      refine Option.eq_none_iff_forall_ne_some.mpr fun m hm => hnoForm path hpath (hforms path ?_)
      exact Table.mem_keys_iff.mpr ⟨m, Table.get?_eq_some_iff.mp hm⟩
    rw [resolve?_of_absent hspecifier habsent, htarget, hbehind, hnone]
    rfl

/-- What is found depends on where the directory and the specifier lead to alone. -/
theorem resolve?_eq_of_fold_eq {directory directory' file : String} (hfile : IsSegment file.toList)
    (hspecifier : isRelative specifier = true) (hspecifier' : isRelative specifier' = true)
    (hdirectory : fold directory'.toList = fold directory.toList)
    (heq : fold specifier'.toList = fold specifier.toList) :
    resolve? modules (joined directory' file) specifier' =
      resolve? modules (joined directory file) specifier := by
  have hfold (d s : String) (hs : isRelative s = true) :
      fold (join (parent (joined d file).toList) s.toList) =
        fold (join (fold d.toList).text (fold s.toList).text) := by
    rw [← fold_join_text (isAbsolute_of_isRelative hs), joined, String.toList_ofList,
      fold_parent_join hfile]
  have htarget : target (joined directory' file) specifier' = target (joined directory file) specifier := by
    rw [target, target, SourcePath.normalize, SourcePath.normalize, String.toList_ofList, String.toList_ofList,
      hfold _ _ hspecifier', hfold _ _ hspecifier, hdirectory, heq]
  rw [resolve?, resolve?, if_pos hspecifier', if_pos hspecifier, candidates, candidates, htarget]

/-- **Directory specifiers find their index modules below the top.** Let a relative specifier lead from a
source to a directory, and let the path of the directory be none of a module, with or without the ending of a
file. Below the top, the specifier means the first index module that is there. At the start of relative
paths it means the index modules of the root instead, and at the root nothing, if modules have paths in normal
form. Always, it means the same with the directory of the source and the specifier in any other spelling. -/
theorem resolve?_index (modules : Table String SymbolId) (hspecifier : isRelative specifier = true) :
    (∀ source, (∀ e ∈ fileEndings, modules.get? (target source specifier ++ e) = none) →
      FindsIndex modules source specifier) ∧
    ∀ directory directory' file specifier' : String, IsSegment file.toList →
      Respells directory.toList directory'.toList → Respells specifier.toList specifier'.toList →
      isRelative specifier' = true →
      resolve? modules (joined directory' file) specifier' =
        resolve? modules (joined directory file) specifier :=
  ⟨fun _ habsent => findsIndex hspecifier habsent,
    fun _ _ _ _ hfile hdirectory hspelled hspecifier' =>
      resolve?_eq_of_fold_eq hfile hspecifier hspecifier' hdirectory.fold_eq hspelled.fold_eq⟩

/-- A module in a directory, and the index module of another. -/
def shapes : Table String SymbolId := .ofList [("src/point.ts", ⟨0⟩), ("src/shapes/index.ts", ⟨1⟩)]

/-- The directory of shapes means its index module, in two spellings. -/
theorem shapes_index : isRelative "./shapes" = true ∧
    resolve? shapes "src/line.ts" "./shapes" = some ⟨1⟩ ∧
    resolve? shapes "src/./line.ts" "./x/../shapes" = some ⟨1⟩ := by
  have hrelative : isRelative "./shapes" = true := by decide
  obtain ⟨hfinds, hspelled⟩ := resolve?_index shapes hrelative
  have hfound : resolve? shapes "src/line.ts" "./shapes" = some ⟨1⟩ :=
    (hfinds "src/line.ts" (by decide)).below (by decide) (by decide) [] "index.ts" _ rfl (by simp) _
      (by decide)
  have hfile : IsName "line.ts".toList := by decide
  have hdirectory : Respells "src".toList "src/.".toList := .behind .refl (by decide) .dot
  have hdetour : Idle ("x".toList ++ ['/', '.', '.']) := .back (by decide)
  have hspecifier : Respells "./shapes".toList "./x/../shapes".toList :=
    .between (x := ['.']) (y := "shapes".toList) .refl hdetour
  have hsame := hspelled "src" "src/." "line.ts" "./x/../shapes" hfile.toIsSegment hdirectory hspecifier
    (by decide)
  have hjoined : joined "src" "line.ts" = "src/line.ts" := by decide
  have hjoined' : joined "src/." "line.ts" = "src/./line.ts" := by decide
  rw [hjoined, hjoined', hfound] at hsame
  exact ⟨hrelative, hfound, hsame⟩

/-- Two modules at the top. -/
def topModules : Table String SymbolId := .ofList [("main.ts", ⟨0⟩), ("index.ts", ⟨1⟩)]

/-- **An index module at the top is not found.** The directory is that of the importing module, the table has
the path of the index module in it, and none of the better candidates. -/
theorem topIndex_missed : normalize "main.ts" = "main.ts" ∧ isRelative "./" = true ∧
    target "main.ts" "./" = "" ∧ topModules.get? (indexPath "" "index.ts") = some ⟨1⟩ ∧
    (∀ e ∈ fileEndings, topModules.get? ("" ++ e) = none) ∧
    resolve? topModules "main.ts" "./" = none := by
  decide

end ModulePath

end ApiDocs
