import ApiDocs.Graph.Codec
import ApiDocs.Proofs.Graph.Extent
import ApiDocs.Proofs.Graph.FlagText
import ApiDocs.Proofs.Json.Records

/-!
# Stored graphs are read back

A graph is stored as an object and written as an indented text. Reading takes the same way back: the text
leads to the stored form, each member of each part to what it was written for, and what was left out to
its default. Every part is read back because its members are, from flags and positions up to the graph.

Two things are asked besides validity. Positions and line numbers are words in the stored form, so they
have to fit, and numbers among the literals have to be read back as they are. The limit on nesting needs
no attention, since a stored graph is never deeper than six.

## Main definitions

* `SymbolGraph.InWords`: positions and line numbers fit their words.
* `SymbolGraph.NumbersReadBack`: numbers among the literals are read back.

## Main results

* `SymbolGraph.ofText_toText`: a valid graph is read back from its text.
-/

namespace ApiDocs

open Json (Stores ReadableIn decode_step record?_ofFields readableIn_ofFields readableIn_arr_map
  readableIn_nat)
open Number (twoTo)

/-! ## Words -/

/-- How far positions of 32 bits reach. -/
def Extent.words : Extent := ⟨twoTo 32, twoTo 32, twoTo 32⟩

/-- The line numbers have 32 bits. -/
structure SourcePos.InWords (p : SourcePos) : Prop where
  firstLine : p.firstLine < twoTo 32
  lastLine : p.lastLine < twoTo 32

theorem stores_word32 {n : Nat} (h : n < twoTo 32) : Stores Json.nat word32? n :=
  ⟨by simp [word32?, Json.nat, Json.below?, h], nofun⟩

theorem stores_word64 {n : Nat} (h : n < twoTo 64) : Stores Json.nat word64? n :=
  ⟨by simp [word64?, Json.nat, Json.below?, h], nofun⟩

theorem readableIn_word32 (k : Nat) {n : Nat} (h : n < twoTo 32) : ReadableIn k (.nat n) :=
  readableIn_nat k (Nat.lt_trans h (by decide))

instance (p : SourcePos) : Decidable p.InWords :=
  decidable_of_iff (p.firstLine < twoTo 32 ∧ p.lastLine < twoTo 32)
    ⟨fun h => ⟨h.1, h.2⟩, fun h => ⟨h.firstLine, h.lastLine⟩⟩

/-! ## Positions -/

theorem SymbolId.stores {id : SymbolId} (h : id.Within .words) : Stores toJson ofJson? id where
  reads := by
    rw [ofJson?, toJson, (stores_word32 h).reads]
    rfl
  ne_null := nofun

theorem TypeId.stores {id : TypeId} (h : id.Within .words) : Stores toJson ofJson? id where
  reads := by
    rw [ofJson?, toJson, (stores_word32 h).reads]
    rfl
  ne_null := nofun

theorem SignatureId.stores {id : SignatureId} (h : id.Within .words) : Stores toJson ofJson? id where
  reads := by
    rw [ofJson?, toJson, (stores_word32 h).reads]
    rfl
  ne_null := nofun

theorem SourcePos.stores {p : SourcePos} (h : p.InWords) : Stores toJson ofJson? p where
  reads := by
    rw [toJson, ofJson?]
    refine decode_step (record?_ofFields (by simp) (by decide)) ?_
    refine decode_step ((Stores.str p.sourcePath).required (by simp)) ?_
    refine decode_step ((stores_word32 h.firstLine).required (by simp)) ?_
    refine decode_step ((stores_word32 h.lastLine).required (by simp)) ?_
    rfl
  ne_null := nofun

theorem SourcePos.readableIn {p : SourcePos} (h : p.InWords) : ReadableIn 1 p.toJson :=
  readableIn_ofFields.mpr (by simp [readableIn_word32 0 h.firstLine, readableIn_word32 0 h.lastLine])

/-! ## Scalars -/

theorem FlagSet.stores {names : FlagNames} (hnames : names.WellFormed) (f : FlagSet names) :
    Stores toJson ofJson? f where
  reads := by
    rw [toJson, ofJson?]
    exact ofText?_text hnames f
  ne_null := nofun

@[simp] theorem FlagSet.readableIn {names : FlagNames} (n : Nat) (f : FlagSet names) :
    ReadableIn n f.toJson := Json.readableIn_str n f.text

/-- If the literal is a number, its text is that of no other number. -/
def Literal.ReadsBack (l : Literal) : Prop := ∀ x, l = .number x → x.ReadsBack

theorem Literal.stores (l : Literal) : Stores toJson ofJson? l := by
  cases l with
  | number x => exact ⟨rfl, nofun⟩
  | text s => exact ⟨rfl, nofun⟩

theorem Literal.readableIn {l : Literal} (n : Nat) (h : l.ReadsBack) : ReadableIn n l.toJson := by
  cases l with
  | number x => exact ⟨.real (h x rfl), by simp [toJson, Json.nesting]⟩
  | text s => exact Json.readableIn_str n s

theorem DeclarationKind.stores (k : DeclarationKind) : Stores toJson ofJson? k where
  reads := by cases k <;> rfl
  ne_null := nofun

/-! ## Declarations -/

theorem IndexTypes.stores {i : IndexTypes} (h : i.Within .words) : Stores toJson ofJson? i where
  reads := by
    rw [toJson, ofJson?]
    refine decode_step (record?_ofFields (by simp) (by decide)) ?_
    refine decode_step (Stores.optional_ofOption (fun t ht => TypeId.stores (h.key t ht))
      (by simp)) ?_
    refine decode_step (Stores.optional_ofOption (fun t ht => TypeId.stores (h.value t ht))
      (by simp)) ?_
    rfl
  ne_null := nofun

theorem IndexTypes.readableIn {i : IndexTypes} (h : i.Within .words) : ReadableIn 1 i.toJson := by
  have hoption : ∀ o : Option TypeId, (∀ t ∈ o, t.Within .words) →
      ReadableIn 0 (Json.ofOption TypeId.toJson o) := by
    intro o ho
    cases o with
    | none => exact ⟨.null, Nat.le_refl 0⟩
    | some t => exact readableIn_word32 0 (ho t rfl)
  exact readableIn_ofFields.mpr (by simp [hoption _ h.key, hoption _ h.value])

/-- Positions and line numbers have 32 bits. -/
structure Declaration.InWords (d : Declaration) : Prop where
  within : d.Within .words
  pos : d.pos.InWords

theorem Declaration.stores {d : Declaration} (h : d.InWords) : Stores toJson ofJson? d where
  reads := by
    rw [toJson, ofJson?]
    refine decode_step (record?_ofFields (by simp) (by decide)) ?_
    refine decode_step (d.kind.stores.required (by simp)) ?_
    refine decode_step ((SourcePos.stores h.pos).required (by simp)) ?_
    refine decode_step ((FlagSet.stores modifierFlagNames_wellFormed d.modifiers).defaulted
      (b := true) nofun (by simp)) ?_
    refine decode_step (Stores.defaultedList
      (fun id hid => SymbolId.stores (h.within.heritage id hid)) (by simp)) ?_
    refine decode_step (Stores.optional (fun i hi => IndexTypes.stores (h.within.index i hi))
      (by simp)) ?_
    rfl
  ne_null := nofun

theorem SymbolId.readableIn_list {ids : List SymbolId} (h : ∀ id ∈ ids, id.Within .words) :
    ReadableIn 1 (.arr (ids.map toJson)) :=
  readableIn_arr_map.mpr fun id hid => readableIn_word32 0 (h id hid)

theorem Declaration.readableIn {d : Declaration} (h : d.InWords) : ReadableIn 2 d.toJson :=
  have hindex : ∀ i ∈ d.index, ReadableIn 1 i.toJson := fun i hi =>
    IndexTypes.readableIn (h.within.index i hi)
  readableIn_ofFields.mpr (by
    simpa [DeclarationKind.toJson, SourcePos.readableIn h.pos,
      SymbolId.readableIn_list h.within.heritage] using hindex)

/-! ## Symbols -/

/-- A table is the outcome of entering its entries one after another. -/
theorem Table.ofList_entries {κ α : Type} [DecidableEq κ] (t : Table κ α) :
    Table.ofList t.entries = t := by
  have hfold : ∀ (l : List (κ × α)) (acc : Table κ α), (acc.keys ++ l.map Prod.fst).Nodup →
      (l.foldl (fun t e => t.insert e.1 e.2) acc).entries = acc.entries ++ l := by
    intro l
    induction l with
    | nil => exact fun acc _ => (List.append_nil _).symm
    | cons e l ih =>
      intro acc hnodup
      have hnew : ¬ acc.contains e.1 := by
        rw [contains_eq_true_iff]
        intro hmem
        exact (List.nodup_append.mp hnodup).2.2 _ hmem _ List.mem_cons_self rfl
      have hinsert : (acc.insert e.1 e.2).entries = acc.entries ++ [e] := by
        rw [insert, dif_neg hnew]
      rw [List.foldl_cons, ih, hinsert, List.append_assoc, List.singleton_append]
      rw [keys_insert, if_neg hnew, List.append_assoc]
      exact hnodup
  have hentries : (Table.ofList t.entries).entries = t.entries :=
    hfold t.entries empty (by simpa using t.distinct)
  generalize Table.ofList t.entries = s at hentries
  cases s
  cases t
  cases hentries
  rfl

theorem Table.eq_empty_of_isEmpty {κ α : Type} {t : Table κ α} (h : t.isEmpty = true) :
    t = .empty := by
  obtain ⟨entries, distinct⟩ := t
  obtain rfl : entries = [] := List.isEmpty_iff.mp h
  rfl

theorem stores_symbolTable {t : Table String SymbolId} (h : ∀ id ∈ t.values, id.Within .words) :
    Stores symbolTableToJson symbolTableOfJson? t where
  reads := by
    have hentries : ∀ l : List (String × SymbolId), (∀ e ∈ l, e.2.Within .words) →
        (l.map fun e => (e.1, e.2.toJson)).mapM
          (fun m => (SymbolId.ofJson? m.2).map fun id => (m.1, id)) = some l := by
      intro l hl
      induction l with
      | nil => rfl
      | cons e l ih =>
        rw [List.map_cons, List.mapM_cons, (SymbolId.stores (hl e List.mem_cons_self)).reads,
          ih fun x hx => hl x (List.mem_cons_of_mem _ hx)]
        rfl
    rw [symbolTableToJson, symbolTableOfJson?]
    refine decode_step (hentries t.entries fun e he => h e.2 (List.mem_map_of_mem he)) ?_
    exact congrArg some t.ofList_entries
  ne_null := nofun

theorem readableIn_symbolTable {t : Table String SymbolId} (h : ∀ id ∈ t.values, id.Within .words) :
    ReadableIn 1 (symbolTableToJson t) := by
  have hmember : ∀ m ∈ t.entries.map (fun e => (e.1, e.2.toJson)), ReadableIn 0 m.2 := by
    intro m hm
    obtain ⟨e, he, rfl⟩ := List.mem_map.mp hm
    exact readableIn_word32 0 (h e.2 (List.mem_map_of_mem he))
  exact ⟨.obj fun m hm => (hmember m hm).1, Json.nesting_obj_le_iff.mpr fun m hm => (hmember m hm).2⟩

/-- Positions and line numbers have 32 bits, the position of the value declaration 64. -/
structure Symbol.InWords (s : Symbol) : Prop where
  within : s.Within .words
  valueDeclaration : ∀ i ∈ s.valueDeclaration, i < twoTo 64
  declarations : ∀ d ∈ s.declarations, d.pos.InWords

theorem Symbol.InWords.declaration {s : Symbol} (h : s.InWords) {d : Declaration}
    (hd : d ∈ s.declarations) : d.InWords :=
  ⟨h.within.declarations d hd, h.declarations d hd⟩

theorem Symbol.stores {s : Symbol} (h : s.InWords) : Stores toJson ofJson? s where
  reads := by
    rw [toJson, toJsonWith, ofJson?]
    refine decode_step (record?_ofFields (by simp) (by decide)) ?_
    refine decode_step ((Stores.str s.name).required (by simp)) ?_
    refine decode_step ((FlagSet.stores symbolFlagNames_wellFormed s.flags).required (by simp)) ?_
    refine decode_step ((stores_symbolTable h.within.exports).defaulted (b := !s.exports.isEmpty)
      (fun hempty => Table.eq_empty_of_isEmpty (by simpa using hempty)) (by simp)) ?_
    refine decode_step ((stores_symbolTable h.within.members).defaulted (b := !s.members.isEmpty)
      (fun hempty => Table.eq_empty_of_isEmpty (by simpa using hempty)) (by simp)) ?_
    refine decode_step (Stores.defaultedList (fun d hd => Declaration.stores (h.declaration hd))
      (by simp)) ?_
    refine decode_step (Stores.optional (fun i hi => stores_word64 (h.valueDeclaration i hi))
      (by simp)) ?_
    refine decode_step (Stores.optional (fun t ht => TypeId.stores (h.within.typeId t ht))
      (by simp)) ?_
    refine decode_step (Stores.optional (fun id hid => SymbolId.stores (h.within.aliasOf id hid))
      (by simp)) ?_
    refine decode_step ((Stores.str s.doc).defaulted (b := s.doc != "") (by simp) (by simp)) ?_
    rfl
  ne_null := nofun

theorem Symbol.readableIn {s : Symbol} (h : s.InWords) : ReadableIn 4 s.toJson := by
  have hexports := (readableIn_symbolTable h.within.exports).mono (show 1 ≤ 3 by decide)
  have hmembers := (readableIn_symbolTable h.within.members).mono (show 1 ≤ 3 by decide)
  have hdeclarations : ReadableIn 3 (.arr (s.declarations.map Declaration.toJson)) :=
    readableIn_arr_map.mpr fun d hd => Declaration.readableIn (h.declaration hd)
  have hvalue : ∀ i ∈ s.valueDeclaration, ReadableIn 3 (.nat i) := fun i hi =>
    readableIn_nat 3 (h.valueDeclaration i hi)
  have htype : ∀ t ∈ s.typeId, ReadableIn 3 t.toJson := fun t ht =>
    readableIn_word32 3 (h.within.typeId t ht)
  have halias : ∀ id ∈ s.aliasOf, ReadableIn 3 id.toJson := fun id hid =>
    readableIn_word32 3 (h.within.aliasOf id hid)
  rw [toJson, toJsonWith, readableIn_ofFields]
  simp only [Json.Record.all_given_field, Json.Record.all_given_fieldIf,
    Json.Record.all_given_fieldList, Json.Record.all_given_fieldOpt, Json.Record.all_given_nil,
    Json.readableIn_str, FlagSet.readableIn]
  exact ⟨trivial, trivial, fun _ => hexports, fun _ => hmembers, fun _ => hdeclarations, hvalue, htype,
    halias, fun _ => trivial, trivial⟩

/-! ## Types, signatures and files -/

theorem TypeNode.stores {t : TypeNode} (h : t.Within .words) : Stores toJson ofJson? t where
  reads := by
    rw [toJson, ofJson?]
    refine decode_step (record?_ofFields (by simp) (by decide)) ?_
    refine decode_step ((FlagSet.stores typeFlagNames_wellFormed t.flags).required (by simp)) ?_
    refine decode_step ((FlagSet.stores objectFlagNames_wellFormed t.objectFlags).defaulted
      (b := true) nofun (by simp)) ?_
    refine decode_step (Stores.optional (fun id hid => SymbolId.stores (h.symbol id hid))
      (by simp)) ?_
    refine decode_step (Stores.optional (fun name (_ : name ∈ t.targetName) => Stores.str name) (by simp)) ?_
    refine decode_step (Stores.defaultedList (fun id hid => TypeId.stores (h.typeArguments id hid))
      (by simp)) ?_
    refine decode_step (Stores.defaultedList (fun id hid => TypeId.stores (h.constituents id hid))
      (by simp)) ?_
    refine decode_step (Stores.optional (fun l (_ : l ∈ t.literal) => l.stores) (by simp)) ?_
    refine decode_step (Json.defaulted_true t.isThisType (by simp)) ?_
    refine decode_step ((Stores.str t.display).required (by simp)) ?_
    refine decode_step (Stores.defaultedList
      (fun id hid => SignatureId.stores (h.callSignatures id hid)) (by simp)) ?_
    refine decode_step (Stores.defaultedList
      (fun id hid => SignatureId.stores (h.constructSignatures id hid)) (by simp)) ?_
    rfl
  ne_null := nofun

theorem TypeNode.readableIn {t : TypeNode} (h : t.Within .words)
    (hliteral : ∀ l ∈ t.literal, l.ReadsBack) : ReadableIn 2 t.toJson := by
  have htypes : ∀ ids : List TypeId, (∀ id ∈ ids, id.Within .words) →
      ReadableIn 1 (.arr (ids.map TypeId.toJson)) := fun ids hids =>
    readableIn_arr_map.mpr fun id hid => readableIn_word32 0 (hids id hid)
  have hsignatures : ∀ ids : List SignatureId, (∀ id ∈ ids, id.Within .words) →
      ReadableIn 1 (.arr (ids.map SignatureId.toJson)) := fun ids hids =>
    readableIn_arr_map.mpr fun id hid => readableIn_word32 0 (hids id hid)
  have hsymbol : ∀ id ∈ t.symbol, ReadableIn 1 id.toJson := fun id hid =>
    readableIn_word32 1 (h.symbol id hid)
  have hvalue : ∀ l ∈ t.literal, ReadableIn 1 l.toJson := fun l hl =>
    Literal.readableIn 1 (hliteral l hl)
  rw [toJson, readableIn_ofFields]
  simp only [Json.Record.all_given_field, Json.Record.all_given_fieldIf,
    Json.Record.all_given_fieldList, Json.Record.all_given_fieldOpt, Json.Record.all_given_nil,
    Json.readableIn_str, Json.readableIn_bool, FlagSet.readableIn]
  exact ⟨trivial, trivial, hsymbol, fun _ _ => trivial, fun _ => htypes _ h.typeArguments,
    fun _ => htypes _ h.constituents, hvalue, fun _ => trivial, trivial,
    fun _ => hsignatures _ h.callSignatures, fun _ => hsignatures _ h.constructSignatures, trivial⟩

/-- Positions and line numbers have 32 bits. -/
structure Signature.InWords (s : Signature) : Prop where
  within : s.Within .words
  pos : ∀ p ∈ s.pos, p.InWords

theorem Signature.stores {s : Signature} (h : s.InWords) : Stores toJson ofJson? s where
  reads := by
    rw [toJson, ofJson?]
    refine decode_step (record?_ofFields (by simp) (by decide)) ?_
    refine decode_step (Stores.defaultedList
      (fun id hid => SymbolId.stores (h.within.parameters id hid)) (by simp)) ?_
    refine decode_step ((TypeId.stores h.within.returnType).required (by simp)) ?_
    refine decode_step (Stores.optional (fun p hp => SourcePos.stores (h.pos p hp)) (by simp)) ?_
    refine decode_step ((Stores.str s.doc).defaulted (b := s.doc != "") (by simp) (by simp)) ?_
    rfl
  ne_null := nofun

theorem Signature.readableIn {s : Signature} (h : s.InWords) : ReadableIn 2 s.toJson := by
  have hpos : ∀ p ∈ s.pos, ReadableIn 1 p.toJson := fun p hp => SourcePos.readableIn (h.pos p hp)
  rw [toJson, readableIn_ofFields]
  simp only [Json.Record.all_given_field, Json.Record.all_given_fieldIf,
    Json.Record.all_given_fieldList, Json.Record.all_given_fieldOpt, Json.Record.all_given_nil,
    Json.readableIn_str]
  exact ⟨fun _ => SymbolId.readableIn_list h.within.parameters,
    readableIn_word32 1 h.within.returnType, hpos, fun _ => trivial, trivial⟩

theorem SourceFile.stores {f : SourceFile} (h : f.Within .words) : Stores toJson ofJson? f where
  reads := by
    rw [toJson, ofJson?]
    refine decode_step (record?_ofFields (by simp) (by decide)) ?_
    refine decode_step ((Stores.str f.path).required (by simp)) ?_
    refine decode_step (Stores.optional (fun id hid => SymbolId.stores (h id hid)) (by simp)) ?_
    rfl
  ne_null := nofun

theorem SourceFile.readableIn {f : SourceFile} (h : f.Within .words) : ReadableIn 1 f.toJson := by
  have hsymbol : ∀ id ∈ f.symbol, ReadableIn 0 id.toJson := fun id hid =>
    readableIn_word32 0 (h id hid)
  exact readableIn_ofFields.mpr (by simpa using hsymbol)

theorem OutputLayout.stores (l : OutputLayout) : Stores toJson ofJson? l where
  reads := by
    rw [toJson, ofJson?]
    refine decode_step (record?_ofFields (by simp) (by decide)) ?_
    refine decode_step ((Stores.str l.rootDir).required (by simp)) ?_
    refine decode_step ((Stores.str l.outDir).required (by simp)) ?_
    rfl
  ne_null := nofun

theorem OutputLayout.readableIn (l : OutputLayout) : ReadableIn 1 l.toJson :=
  readableIn_ofFields.mpr (by simp)

/-! ## Graphs -/

namespace SymbolGraph

/-- Positions and line numbers have the sizes of their words in the stored form: 32 bits, and 64 for
the position of a value declaration. -/
structure InWords (g : SymbolGraph) : Prop where
  files : ∀ f ∈ g.files, f.Within .words
  symbols : ∀ s ∈ g.symbols, s.InWords
  types : ∀ t ∈ g.types, t.Within .words
  signatures : ∀ s ∈ g.signatures, s.InWords

/-- In a valid graph the positions are words if there are no more parts than words. -/
theorem Valid.inWords {g : SymbolGraph} (hvalid : g.Valid) (hsize : g.extent.Le .words)
    (hsymbols : ∀ s ∈ g.symbols, (∀ i ∈ s.valueDeclaration, i < twoTo 64) ∧
      ∀ d ∈ s.declarations, d.pos.InWords)
    (hsignatures : ∀ s ∈ g.signatures, ∀ p ∈ s.pos, p.InWords) : g.InWords := by
  have hclosed := valid_iff_closed.mp hvalid
  exact {
    files := fun f hf => (hclosed.files f hf).mono hsize
    symbols := fun s hs => ⟨(hclosed.symbols s hs).mono hsize, (hsymbols s hs).1, (hsymbols s hs).2⟩
    types := fun t ht => (hclosed.types t ht).mono hsize
    signatures := fun s hs => ⟨(hclosed.signatures s hs).mono hsize, hsignatures s hs⟩ }

/-- The text of each number among the literals is that of no other number. -/
def NumbersReadBack (g : SymbolGraph) : Prop := ∀ t ∈ g.types, ∀ l ∈ t.literal, l.ReadsBack

theorem stores {g : SymbolGraph} (h : g.InWords) : Stores toJson ofJson? g where
  reads := by
    rw [toJson, toJsonWith, ofJson?]
    refine decode_step (record?_ofFields (by simp) (by decide)) ?_
    refine decode_step ((Stores.list fun f hf => SourceFile.stores (h.files f hf)).required
      (by simp)) ?_
    refine decode_step ((Stores.list fun s hs =>
      Symbol.stores (h.symbols s (Array.mem_toList_iff.mp hs))).required (by simp [Symbol.toJson])) ?_
    refine decode_step ((Stores.list fun t ht =>
      TypeNode.stores (h.types t (Array.mem_toList_iff.mp ht))).required (by simp)) ?_
    refine decode_step ((Stores.list fun s hs =>
      Signature.stores (h.signatures s (Array.mem_toList_iff.mp hs))).defaulted (b := true) nofun
      (by simp)) ?_
    refine decode_step (Stores.optional (fun l (_ : l ∈ g.layout) => l.stores) (by simp)) ?_
    rfl
  ne_null := nofun

/-- A stored graph nests at most six deep, whatever graph it is. -/
theorem readableIn {g : SymbolGraph} (h : g.InWords) (hnumbers : g.NumbersReadBack) :
    ReadableIn 6 g.toJson := by
  have hfiles : ReadableIn 5 (.arr (g.files.map SourceFile.toJson)) :=
    readableIn_arr_map.mpr fun f hf => (SourceFile.readableIn (h.files f hf)).mono (by decide)
  have hsymbols : ReadableIn 5 (.arr (g.symbols.toList.map Symbol.toJson)) :=
    readableIn_arr_map.mpr fun s hs => Symbol.readableIn (h.symbols s (Array.mem_toList_iff.mp hs))
  have htypes : ReadableIn 5 (.arr (g.types.toList.map TypeNode.toJson)) :=
    readableIn_arr_map.mpr fun t ht =>
      have ht := Array.mem_toList_iff.mp ht
      (TypeNode.readableIn (h.types t ht) (hnumbers t ht)).mono (by decide)
  have hsignatures : ReadableIn 5 (.arr (g.signatures.toList.map Signature.toJson)) :=
    readableIn_arr_map.mpr fun s hs =>
      (Signature.readableIn (h.signatures s (Array.mem_toList_iff.mp hs))).mono (by decide)
  have hlayout : ∀ l ∈ g.layout, ReadableIn 5 l.toJson := fun l _ => l.readableIn.mono (by decide)
  rw [toJson, toJsonWith, readableIn_ofFields]
  simp only [Json.Record.all_given_field, Json.Record.all_given_fieldOpt, Json.Record.all_given_nil]
  exact ⟨hfiles, hsymbols, htypes, hsignatures, hlayout, trivial⟩

/-- **A valid graph is read back from its text.** -/
theorem ofText_toText {g : SymbolGraph} (hvalid : g.Valid) (hwords : g.InWords)
    (hnumbers : g.NumbersReadBack) : ofText g.toText = .ok g := by
  obtain ⟨hreadable, hnesting⟩ := readableIn hwords hnumbers
  have hparse : Json.parse? g.toText = some g.toJson := by
    rw [toText, Json.parse?_pretty hreadable, if_pos (hnesting.trans (by decide))]
  rw [ofText, hparse, Option.bind_some, (stores hwords).reads]
  dsimp only
  rw [(valid_iff_dangling?_eq_none g).mp hvalid]

/-- Names that need escapes, tables out of order, bits without a name, and literals of both kinds. -/
def inkwell : SymbolGraph where
  files := [⟨"lib.d.ts", none⟩, ⟨"src\\\"ink\".ts", some ⟨0⟩⟩]
  symbols := #[
    { name := "ink", flags := ⟨0x80000080⟩, exports := .ofList [("π", ⟨1⟩), ("a", ⟨1⟩)] },
    { name := "pot\n", flags := SymbolFlags.classMember, typeId := some ⟨1⟩, valueDeclaration := some 0,
      declarations := [
        { kind := .indexSignature, pos := ⟨"src/ink.ts", 3, 4⟩, modifiers := ⟨0xFFFFFFFF⟩,
          heritage := [⟨0⟩], index := some ⟨none, some ⟨0⟩⟩ }] }]
  types := #[
    { flags := TypeFlags.stringLiteralBit, literal := some (.text "1.5"), display := "" },
    { flags := TypeFlags.numberLiteralBit, literal := some (.number (.ofDecimal false 15 (-1))),
      isThisType := true, display := "1.5" }]
  signatures := #[{ parameters := [⟨1⟩, ⟨1⟩], returnType := ⟨0⟩ }]
  layout := some ⟨"src", "out"⟩

theorem inkwell_valid : inkwell.Valid := by decide +kernel

theorem inkwell_inWords : inkwell.InWords :=
  inkwell_valid.inWords ⟨by decide +kernel, by decide +kernel, by decide +kernel⟩
    (by decide +kernel) (by decide +kernel)

theorem inkwell_numbersReadBack : inkwell.NumbersReadBack := by
  intro t ht l hl x hx
  subst hx
  have hliterals : ∀ t ∈ inkwell.types, t.literal = some (.number x) →
      x = .ofDecimal false 15 (-1) := by
    simp [inkwell, eq_comm]
  rw [hliterals t ht hl]
  exact Binary64.readsBack_oneAndHalf

theorem inkwell_readBack :
    inkwell.Valid ∧ inkwell.InWords ∧ inkwell.NumbersReadBack ∧ ofText inkwell.toText = .ok inkwell :=
  ⟨inkwell_valid, inkwell_inWords, inkwell_numbersReadBack,
    ofText_toText inkwell_valid inkwell_inWords inkwell_numbersReadBack⟩

end SymbolGraph

end ApiDocs
