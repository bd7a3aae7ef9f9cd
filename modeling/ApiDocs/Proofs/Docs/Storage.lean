import ApiDocs.Docs.Codec
import ApiDocs.Proofs.Graph.Storage

/-!
# Stored documentation is read back

A type is stored as an object with one member, which tells its form, so types of different forms have
different texts. The decoder counts how far it goes into a type; each level of a type nests at least one
level deeper in the text, and the reader of texts has refused by then what is too deep. Records follow
member by member.

## Main definitions

* `TypeDoc.Storable`, …, `Documentation.Storable`: positions and line numbers fit their words, and numbers
  among the literals are read back.

## Main results

* `Documentation.ofText?_toJson`: a documentation is read back from its compact and its indented text.
* `Documentation.ofText?_compact`, `Documentation.ofText?_pretty`: what is too deep is refused.
* `Documentation.ofJson?_render`: so it is from a rendered text.
-/

namespace ApiDocs

open Json (Stores decode_step record?_ofFields readable_ofFields readable_arr_map nestingLimit)
open Number (twoTo)

/-! ## Positions and kinds -/

def ClassId.InWord (id : ClassId) : Prop := id.index < twoTo 32

def EnumId.InWord (id : EnumId) : Prop := id.index < twoTo 32

def RefId.InWord (id : RefId) : Prop := id.index < twoTo 32

theorem ClassId.stores {id : ClassId} (h : id.InWord) : Stores toJson ofJson? id where
  reads := by
    rw [ofJson?, toJson, (stores_word32 h).reads]
    rfl
  ne_null := nofun

theorem EnumId.stores {id : EnumId} (h : id.InWord) : Stores toJson ofJson? id where
  reads := by
    rw [ofJson?, toJson, (stores_word32 h).reads]
    rfl
  ne_null := nofun

theorem RefId.stores {id : RefId} (h : id.InWord) : Stores toJson ofJson? id where
  reads := by
    rw [ofJson?, toJson, (stores_word32 h).reads]
    rfl
  ne_null := nofun

theorem UnsupportedKind.stores (k : UnsupportedKind) : Stores (fun k => .str k.code) ofJson? k where
  reads := by cases k <;> rfl
  ne_null := nofun

theorem ClassKind.stores (k : ClassKind) : Stores (fun k => .str k.code) ofJson? k where
  reads := by cases k <;> rfl
  ne_null := nofun

/-! ## Types -/

namespace TypeDoc

/-- Positions are words, and numbers among the literals are read back. -/
inductive Storable : TypeDoc → Prop where
  | name {text : String} : Storable (.name text)
  | literal {primitive : String} {value : Literal} : value.ReadsBack → Storable (.literal primitive value)
  | ref {target : RefId} {arguments : List TypeDoc} :
    target.InWord → (∀ a ∈ arguments, a.Storable) → Storable (.ref target arguments)
  | arrayOf {element : TypeDoc} : element.Storable → Storable (.arrayOf element)
  | unionOf {members : List TypeDoc} : (∀ a ∈ members, a.Storable) → Storable (.unionOf members)
  | intersectionOf {members : List TypeDoc} :
    (∀ a ∈ members, a.Storable) → Storable (.intersectionOf members)
  | unsupported {kind : UnsupportedKind} {display : String} : Storable (.unsupported kind display)

theorem allToJson_eq (ts : List TypeDoc) : allToJson ts = ts.map toJson := by
  induction ts with
  | nil => rfl
  | cons t ts ih => rw [allToJson, ih, List.map_cons]

theorem toJson_ne_null (t : TypeDoc) : t.toJson ≠ .null := by
  cases t <;> nofun

theorem nesting_oneOf (name : String) (v : Json) : (oneOf name v).nesting = v.nesting + 1 := by
  simp [oneOf, Json.nesting, Json.membersNesting]

/-- A type is read back if it is not deeper than the decoder goes. Each level of a type nests at least
one level deeper, so the decoder may count either. -/
theorem decode?_toJson {t : TypeDoc} (h : t.Storable) {depth : Nat} (hdepth : t.toJson.nesting ≤ depth) :
    decode? depth t.toJson = some t := by
  induction depth generalizing t with
  | zero => cases h <;> simp [toJson, nesting_oneOf] at hdepth
  | succ depth ih =>
    have hlist : ∀ {ts : List TypeDoc}, (∀ a ∈ ts, a.Storable) →
        (Json.arr (ts.map toJson)).nesting ≤ depth → ∀ a ∈ ts, Stores toJson (decode? depth) a :=
      fun hts hdepth a ha =>
        ⟨ih (hts a ha) (Json.nesting_le_of_arr_map hdepth a ha), a.toJson_ne_null⟩
    cases h with
    | name => rfl
    | @literal primitive value _ =>
      rw [toJson, decode?]
      refine decode_step (a := ("literal", _)) rfl ?_
      refine decode_step (record?_ofFields (by simp) (by decide)) ?_
      refine decode_step ((Stores.str primitive).required (by simp)) ?_
      refine decode_step (value.stores.required (by simp)) ?_
      rfl
    | @ref target arguments htarget harguments =>
      rw [toJson, nesting_oneOf, Nat.add_le_add_iff_right, allToJson_eq] at hdepth
      have hmembers := Json.nesting_le_of_ofFields hdepth
      simp only [Json.Record.all_given_field, Json.Record.all_given_fieldIf] at hmembers
      have hstores : ∀ a ∈ arguments, Stores toJson (decode? depth) a := fun a ha =>
        hlist harguments (hmembers.2.1 (by simpa using List.ne_nil_of_mem ha)) a ha
      rw [toJson, decode?, allToJson_eq]
      refine decode_step (a := ("ref", _)) rfl ?_
      refine decode_step (record?_ofFields (by simp) (by decide)) ?_
      refine decode_step ((RefId.stores htarget).required (by simp)) ?_
      refine decode_step (Stores.defaultedList hstores (by simp)) ?_
      rfl
    | @arrayOf element helement =>
      rw [toJson, nesting_oneOf, Nat.add_le_add_iff_right] at hdepth
      rw [toJson, decode?]
      refine decode_step (a := ("arrayOf", _)) rfl ?_
      change (decode? depth element.toJson).map TypeDoc.arrayOf = _
      rw [ih helement hdepth]
      rfl
    | @unionOf members hmembers =>
      rw [toJson, nesting_oneOf, Nat.add_le_add_iff_right, allToJson_eq] at hdepth
      rw [toJson, decode?, allToJson_eq]
      refine decode_step (a := ("unionOf", _)) rfl ?_
      change (Json.list? (decode? depth) (.arr (members.map toJson))).map TypeDoc.unionOf = _
      rw [(Stores.list (hlist hmembers hdepth)).reads]
      rfl
    | @intersectionOf members hmembers =>
      rw [toJson, nesting_oneOf, Nat.add_le_add_iff_right, allToJson_eq] at hdepth
      rw [toJson, decode?, allToJson_eq]
      refine decode_step (a := ("intersectionOf", _)) rfl ?_
      change (Json.list? (decode? depth) (.arr (members.map toJson))).map TypeDoc.intersectionOf = _
      rw [(Stores.list (hlist hmembers hdepth)).reads]
      rfl
    | @unsupported kind display =>
      rw [toJson, decode?]
      refine decode_step (a := ("unsupported", _)) rfl ?_
      refine decode_step (record?_ofFields (by simp) (by decide)) ?_
      refine decode_step (kind.stores.required (by simp)) ?_
      refine decode_step ((Stores.str display).required (by simp)) ?_
      rfl

theorem stores {t : TypeDoc} (h : t.Storable) (hn : t.toJson.nesting ≤ nestingLimit) :
    Stores toJson ofJson? t :=
  ⟨decode?_toJson h (hn.trans (Nat.le_succ _)), t.toJson_ne_null⟩

theorem readable {t : TypeDoc} (h : t.Storable) : t.toJson.Readable := by
  have hone : ∀ {name : String} {v : Json}, v.Readable → (oneOf name v).Readable := fun hv =>
    .obj (by simpa using hv)
  induction h with
  | name => exact hone (.str _)
  | @literal primitive value hvalue =>
    exact hone (readable_ofFields.mpr (by simp [Json.Readable.str, (Literal.readableIn 0 hvalue).1]))
  | @ref target arguments htarget _ ih =>
    rw [toJson, allToJson_eq]
    refine hone (readable_ofFields.mpr ?_)
    simp only [Json.Record.all_given_field, Json.Record.all_given_fieldIf, Json.Record.all_given_nil]
    exact ⟨(readableIn_word32 0 htarget).1, fun _ => readable_arr_map.mpr ih, trivial⟩
  | arrayOf _ ih => exact hone ih
  | unionOf _ ih =>
    rw [toJson, allToJson_eq]
    exact hone (readable_arr_map.mpr ih)
  | intersectionOf _ ih =>
    rw [toJson, allToJson_eq]
    exact hone (readable_arr_map.mpr ih)
  | unsupported => exact hone (readable_ofFields.mpr (by simp [Json.Readable.str]))

end TypeDoc

/-! ## Records -/

/-- Positions and line numbers are words, and numbers among the literals are read back. -/
structure IdentifierDoc.Storable (d : IdentifierDoc) : Prop where
  type : ∀ t ∈ d.type, t.Storable
  value : ∀ l ∈ d.value, l.ReadsBack
  pos : ∀ p ∈ d.pos, p.InWords

theorem IdentifierDoc.stores {d : IdentifierDoc} (h : d.Storable)
    (hn : d.toJson.nesting ≤ nestingLimit) : Stores toJson ofJson? d where
  reads := by
    have hmembers := Json.nesting_le_of_ofFields hn
    simp only [Json.Record.all_given_field, Json.Record.all_given_fieldIf,
      Json.Record.all_given_fieldOpt] at hmembers
    obtain ⟨-, htype, -⟩ := hmembers
    rw [toJson, ofJson?]
    refine decode_step (record?_ofFields (by simp) (by decide)) ?_
    refine decode_step ((Stores.str d.name).required (by simp)) ?_
    refine decode_step (Stores.optional (fun t ht => TypeDoc.stores (h.type t ht) (htype t ht))
      (by simp)) ?_
    refine decode_step (Json.defaulted_true d.optional (by simp)) ?_
    refine decode_step (Stores.optional (fun l (_ : l ∈ d.value) => l.stores) (by simp)) ?_
    refine decode_step (Stores.optional (fun p hp => SourcePos.stores (h.pos p hp)) (by simp)) ?_
    refine decode_step (Stores.optional (fun s (_ : s ∈ d.doc) => Stores.str s) (by simp)) ?_
    rfl
  ne_null := nofun

theorem IdentifierDoc.readable {d : IdentifierDoc} (h : d.Storable) : d.toJson.Readable := by
  rw [toJson, readable_ofFields]
  simp only [Json.Record.all_given_field, Json.Record.all_given_fieldIf,
    Json.Record.all_given_fieldOpt, Json.Record.all_given_nil]
  exact ⟨.str _, fun t ht => TypeDoc.readable (h.type t ht), fun _ => .bool _,
    fun l hl => (Literal.readableIn 0 (h.value l hl)).1,
    fun p hp => (SourcePos.readableIn (h.pos p hp)).1, fun s _ => .str s, trivial⟩

/-- Everything in the signature can be stored. -/
structure SignatureDoc.Storable (d : SignatureDoc) : Prop where
  pos : ∀ p ∈ d.pos, p.InWords
  paramList : ∀ x ∈ d.paramList, x.Storable
  returnType : d.returnType.Storable

theorem SignatureDoc.stores {d : SignatureDoc} (h : d.Storable)
    (hn : d.toJson.nesting ≤ nestingLimit) : Stores toJson ofJson? d where
  reads := by
    have hmembers := Json.nesting_le_of_ofFields hn
    simp only [Json.Record.all_given_field, Json.Record.all_given_fieldOpt] at hmembers
    obtain ⟨-, hparams, hreturn, -⟩ := hmembers
    have hparams := Json.nesting_le_of_arr_map hparams
    rw [toJson, ofJson?]
    refine decode_step (record?_ofFields (by simp) (by decide)) ?_
    refine decode_step (Stores.optional (fun p hp => SourcePos.stores (h.pos p hp)) (by simp)) ?_
    refine decode_step ((Stores.list fun x hx =>
      IdentifierDoc.stores (h.paramList x hx) (hparams x hx)).required (by simp)) ?_
    refine decode_step ((TypeDoc.stores h.returnType hreturn).required (by simp)) ?_
    refine decode_step (Stores.optional (fun s (_ : s ∈ d.doc) => Stores.str s) (by simp)) ?_
    rfl
  ne_null := nofun

theorem SignatureDoc.readable {d : SignatureDoc} (h : d.Storable) : d.toJson.Readable := by
  rw [toJson, readable_ofFields]
  simp only [Json.Record.all_given_field, Json.Record.all_given_fieldOpt, Json.Record.all_given_nil]
  exact ⟨fun p hp => (SourcePos.readableIn (h.pos p hp)).1,
    readable_arr_map.mpr fun x hx => IdentifierDoc.readable (h.paramList x hx),
    TypeDoc.readable h.returnType, fun s _ => .str s, trivial⟩

/-- Everything in the overloads can be stored. -/
def FunctionDoc.Storable (d : FunctionDoc) : Prop := ∀ s ∈ d.signatureList, s.Storable

theorem FunctionDoc.stores {d : FunctionDoc} (h : d.Storable)
    (hn : d.toJson.nesting ≤ nestingLimit) : Stores toJson ofJson? d where
  reads := by
    have hmembers := Json.nesting_le_of_ofFields hn
    simp only [Json.Record.all_given_field, Json.Record.all_given_fieldOpt] at hmembers
    have hsignatures := Json.nesting_le_of_arr_map hmembers.2.1
    rw [toJson, ofJson?]
    refine decode_step (record?_ofFields (by simp) (by decide)) ?_
    refine decode_step (Stores.optional (fun s (_ : s ∈ d.name) => Stores.str s) (by simp)) ?_
    refine decode_step ((Stores.list fun s hs =>
      SignatureDoc.stores (h s hs) (hsignatures s hs)).required (by simp)) ?_
    rfl
  ne_null := nofun

theorem FunctionDoc.readable {d : FunctionDoc} (h : d.Storable) : d.toJson.Readable := by
  rw [toJson, readable_ofFields]
  simp only [Json.Record.all_given_field, Json.Record.all_given_fieldOpt, Json.Record.all_given_nil]
  exact ⟨fun s _ => .str s, readable_arr_map.mpr fun s hs => SignatureDoc.readable (h s hs), trivial⟩

/-- Both types can be stored. -/
structure IndexDoc.Storable (d : IndexDoc) : Prop where
  signature : ∀ t ∈ d.signature, t.Storable
  value : ∀ t ∈ d.value, t.Storable

theorem IndexDoc.stores {d : IndexDoc} (h : d.Storable) (hn : d.toJson.nesting ≤ nestingLimit) :
    Stores toJson ofJson? d where
  reads := by
    have hmembers := Json.nesting_le_of_ofFields hn
    simp only [Json.Record.all_given_fieldOpt] at hmembers
    obtain ⟨hsignature, hvalue, -⟩ := hmembers
    rw [toJson, ofJson?]
    refine decode_step (record?_ofFields (by simp) (by decide)) ?_
    refine decode_step (Stores.optional
      (fun t ht => TypeDoc.stores (h.signature t ht) (hsignature t ht)) (by simp)) ?_
    refine decode_step (Stores.optional
      (fun t ht => TypeDoc.stores (h.value t ht) (hvalue t ht)) (by simp)) ?_
    rfl
  ne_null := nofun

theorem IndexDoc.readable {d : IndexDoc} (h : d.Storable) : d.toJson.Readable := by
  rw [toJson, readable_ofFields]
  simp only [Json.Record.all_given_fieldOpt, Json.Record.all_given_nil]
  exact ⟨fun t ht => TypeDoc.readable (h.signature t ht), fun t ht => TypeDoc.readable (h.value t ht),
    trivial⟩

/-- Everything in the enum can be stored. -/
structure EnumDoc.Storable (d : EnumDoc) : Prop where
  pos : ∀ p ∈ d.pos, p.InWords
  memberList : ∀ x ∈ d.memberList, x.Storable

theorem EnumDoc.stores {d : EnumDoc} (h : d.Storable) (hn : d.toJson.nesting ≤ nestingLimit) :
    Stores toJson ofJson? d where
  reads := by
    have hfields := Json.nesting_le_of_ofFields hn
    simp only [Json.Record.all_given_field, Json.Record.all_given_fieldOpt] at hfields
    obtain ⟨-, -, -, hmembers, -⟩ := hfields
    have hmembers := Json.nesting_le_of_arr_map hmembers
    rw [toJson, ofJson?]
    refine decode_step (record?_ofFields (by simp) (by decide)) ?_
    refine decode_step ((Stores.str d.name).required (by simp)) ?_
    refine decode_step (Stores.optional (fun p hp => SourcePos.stores (h.pos p hp)) (by simp)) ?_
    refine decode_step (Stores.optional (fun s (_ : s ∈ d.doc) => Stores.str s) (by simp)) ?_
    refine decode_step ((Stores.list fun x hx =>
      IdentifierDoc.stores (h.memberList x hx) (hmembers x hx)).required (by simp)) ?_
    rfl
  ne_null := nofun

theorem EnumDoc.readable {d : EnumDoc} (h : d.Storable) : d.toJson.Readable := by
  rw [toJson, readable_ofFields]
  simp only [Json.Record.all_given_field, Json.Record.all_given_fieldOpt, Json.Record.all_given_nil]
  exact ⟨.str _, fun p hp => (SourcePos.readableIn (h.pos p hp)).1, fun s _ => .str s,
    readable_arr_map.mpr fun x hx => IdentifierDoc.readable (h.memberList x hx), trivial⟩

/-- The positions that are listed are words, and everything else can be stored. -/
structure ModuleDoc.Storable (d : ModuleDoc) : Prop where
  enumList : ∀ id ∈ d.enumList, id.InWord
  classList : ∀ id ∈ d.classList, id.InWord
  interfaceList : ∀ id ∈ d.interfaceList, id.InWord
  functionList : ∀ f ∈ d.functionList, f.Storable
  variableList : ∀ x ∈ d.variableList, x.Storable

theorem ModuleDoc.stores {d : ModuleDoc} (h : d.Storable) (hn : d.toJson.nesting ≤ nestingLimit) :
    Stores toJson ofJson? d where
  reads := by
    have hmembers := Json.nesting_le_of_ofFields hn
    simp only [Json.Record.all_given_field] at hmembers
    obtain ⟨-, -, -, hfunctions, hvariables, -⟩ := hmembers
    have hfunctions := Json.nesting_le_of_arr_map hfunctions
    have hvariables := Json.nesting_le_of_arr_map hvariables
    rw [toJson, ofJson?]
    refine decode_step (record?_ofFields (by simp) (by decide)) ?_
    refine decode_step ((Stores.list fun id hid => EnumId.stores (h.enumList id hid)).required
      (by simp)) ?_
    refine decode_step ((Stores.list fun id hid => ClassId.stores (h.classList id hid)).required
      (by simp)) ?_
    refine decode_step ((Stores.list fun id hid => ClassId.stores (h.interfaceList id hid)).required
      (by simp)) ?_
    refine decode_step ((Stores.list fun f hf =>
      FunctionDoc.stores (h.functionList f hf) (hfunctions f hf)).required (by simp)) ?_
    refine decode_step ((Stores.list fun x hx =>
      IdentifierDoc.stores (h.variableList x hx) (hvariables x hx)).required (by simp)) ?_
    rfl
  ne_null := nofun

theorem ModuleDoc.readable {d : ModuleDoc} (h : d.Storable) : d.toJson.Readable := by
  rw [toJson, readable_ofFields]
  simp only [Json.Record.all_given_field, Json.Record.all_given_nil]
  exact ⟨readable_arr_map.mpr fun id hid => (readableIn_word32 0 (h.enumList id hid)).1,
    readable_arr_map.mpr fun id hid => (readableIn_word32 0 (h.classList id hid)).1,
    readable_arr_map.mpr fun id hid => (readableIn_word32 0 (h.interfaceList id hid)).1,
    readable_arr_map.mpr fun f hf => FunctionDoc.readable (h.functionList f hf),
    readable_arr_map.mpr fun x hx => IdentifierDoc.readable (h.variableList x hx), trivial⟩

/-- The positions of base classes are words, and everything else can be stored. -/
structure ClassDoc.Storable (d : ClassDoc) : Prop where
  pos : ∀ p ∈ d.pos, p.InWords
  construct : ∀ f ∈ d.construct, f.Storable
  methodList : ∀ f ∈ d.methodList, f.Storable
  propertyList : ∀ x ∈ d.propertyList, x.Storable
  index : ∀ x ∈ d.index, x.Storable
  extendList : ∀ id ∈ d.extendList, id.InWord
  exports : d.exports.Storable

theorem ClassDoc.stores {d : ClassDoc} (h : d.Storable) (hn : d.toJson.nesting ≤ nestingLimit) :
    Stores toJson ofJson? d where
  reads := by
    have hmembers := Json.nesting_le_of_ofFields hn
    simp only [Json.Record.all_given_field, Json.Record.all_given_fieldOpt] at hmembers
    obtain ⟨-, -, -, -, hconstruct, hmethods, hproperties, hindex, -, hexports, -⟩ := hmembers
    have hmethods := Json.nesting_le_of_arr_map hmethods
    have hproperties := Json.nesting_le_of_arr_map hproperties
    rw [toJson, ofJson?]
    refine decode_step (record?_ofFields (by simp) (by decide)) ?_
    refine decode_step ((Stores.str d.name).required (by simp)) ?_
    refine decode_step (d.kind.stores.required (by simp)) ?_
    refine decode_step (Stores.optional (fun p hp => SourcePos.stores (h.pos p hp)) (by simp)) ?_
    refine decode_step (Stores.optional (fun s (_ : s ∈ d.doc) => Stores.str s) (by simp)) ?_
    refine decode_step (Stores.optional
      (fun f hf => FunctionDoc.stores (h.construct f hf) (hconstruct f hf)) (by simp)) ?_
    refine decode_step ((Stores.list fun f hf =>
      FunctionDoc.stores (h.methodList f hf) (hmethods f hf)).required (by simp)) ?_
    refine decode_step ((Stores.list fun x hx =>
      IdentifierDoc.stores (h.propertyList x hx) (hproperties x hx)).required (by simp)) ?_
    refine decode_step (Stores.optional
      (fun x hx => IndexDoc.stores (h.index x hx) (hindex x hx)) (by simp)) ?_
    refine decode_step ((Stores.list fun id hid => ClassId.stores (h.extendList id hid)).required
      (by simp)) ?_
    refine decode_step ((ModuleDoc.stores h.exports hexports).required (by simp)) ?_
    rfl
  ne_null := nofun

theorem ClassDoc.readable {d : ClassDoc} (h : d.Storable) : d.toJson.Readable := by
  rw [toJson, readable_ofFields]
  simp only [Json.Record.all_given_field, Json.Record.all_given_fieldOpt, Json.Record.all_given_nil]
  exact ⟨.str _, .str _, fun p hp => (SourcePos.readableIn (h.pos p hp)).1, fun s _ => .str s,
    fun f hf => FunctionDoc.readable (h.construct f hf),
    readable_arr_map.mpr fun f hf => FunctionDoc.readable (h.methodList f hf),
    readable_arr_map.mpr fun x hx => IdentifierDoc.readable (h.propertyList x hx),
    fun x hx => IndexDoc.readable (h.index x hx),
    readable_arr_map.mpr fun id hid => (readableIn_word32 0 (h.extendList id hid)).1,
    ModuleDoc.readable h.exports, trivial⟩

/-- The position is a word. -/
def RefTarget.InWord : RefTarget → Prop
  | toClass id => id.InWord
  | toEnum id => id.InWord

theorem RefTarget.stores {t : RefTarget} (h : t.InWord) : Stores toJson ofJson? t := by
  cases t with
  | toClass id =>
    refine ⟨?_, nofun⟩
    rw [toJson, ofJson?]
    refine decode_step (a := ("class", id.toJson)) rfl ?_
    change (ClassId.ofJson? id.toJson).map toClass = _
    rw [(ClassId.stores h).reads]
    rfl
  | toEnum id =>
    refine ⟨?_, nofun⟩
    rw [toJson, ofJson?]
    refine decode_step (a := ("enum", id.toJson)) rfl ?_
    change (EnumId.ofJson? id.toJson).map toEnum = _
    rw [(EnumId.stores h).reads]
    rfl

theorem RefTarget.readable {t : RefTarget} (h : t.InWord) : t.toJson.Readable := by
  cases t with
  | toClass id => exact .obj (by simpa [ClassId.toJson] using (readableIn_word32 0 h).1)
  | toEnum id => exact .obj (by simpa [EnumId.toJson] using (readableIn_word32 0 h).1)

/-- The position of the target is a word. -/
def RefDoc.Storable (d : RefDoc) : Prop := ∀ t ∈ d.target, t.InWord

theorem RefDoc.stores {d : RefDoc} (h : d.Storable) : Stores toJson ofJson? d where
  reads := by
    rw [toJson, ofJson?]
    refine decode_step (record?_ofFields (by simp) (by decide)) ?_
    refine decode_step ((Stores.str d.name).required (by simp)) ?_
    refine decode_step (Stores.optional (fun t ht => RefTarget.stores (h t ht)) (by simp)) ?_
    rfl
  ne_null := nofun

theorem RefDoc.readable {d : RefDoc} (h : d.Storable) : d.toJson.Readable := by
  rw [toJson, readable_ofFields]
  simp only [Json.Record.all_given_field, Json.Record.all_given_fieldOpt, Json.Record.all_given_nil]
  exact ⟨.str _, fun t ht => RefTarget.readable (h t ht), trivial⟩

/-! ## Documentation -/

namespace Documentation

/-- Positions and line numbers have the 32 bits of their words in the stored form, and each number
among the literals has a text of its own. -/
structure Storable (d : Documentation) : Prop where
  modules : ∀ m ∈ d.modules, m.Storable
  classes : ∀ c ∈ d.classes, c.Storable
  enums : ∀ e ∈ d.enums, e.Storable
  refs : ∀ r ∈ d.refs, r.Storable

theorem stores {d : Documentation} (h : d.Storable) (hn : d.toJson.nesting ≤ nestingLimit) :
    Stores toJson ofJson? d where
  reads := by
    have hmembers := Json.nesting_le_of_ofFields hn
    simp only [Json.Record.all_given_field] at hmembers
    obtain ⟨hmodules, hclasses, henums, -⟩ := hmembers
    have hmodules := Json.nesting_le_of_arr_map hmodules
    have hclasses := Json.nesting_le_of_arr_map hclasses
    have henums := Json.nesting_le_of_arr_map henums
    rw [toJson, ofJson?]
    refine decode_step (record?_ofFields (by simp) (by decide)) ?_
    refine decode_step ((Stores.list fun m hm =>
      ModuleDoc.stores (h.modules m hm) (hmodules m hm)).required (by simp)) ?_
    refine decode_step ((Stores.list fun c hc =>
      ClassDoc.stores (h.classes c (Array.mem_toList_iff.mp hc)) (hclasses c hc)).required
      (by simp)) ?_
    refine decode_step ((Stores.list fun e he =>
      EnumDoc.stores (h.enums e (Array.mem_toList_iff.mp he)) (henums e he)).required (by simp)) ?_
    refine decode_step ((Stores.list fun r hr =>
      RefDoc.stores (h.refs r (Array.mem_toList_iff.mp hr))).required (by simp)) ?_
    rfl
  ne_null := nofun

theorem readable {d : Documentation} (h : d.Storable) : d.toJson.Readable := by
  rw [toJson, readable_ofFields]
  simp only [Json.Record.all_given_field, Json.Record.all_given_nil]
  exact ⟨readable_arr_map.mpr fun m hm => ModuleDoc.readable (h.modules m hm),
    readable_arr_map.mpr fun c hc => ClassDoc.readable (h.classes c (Array.mem_toList_iff.mp hc)),
    readable_arr_map.mpr fun e he => EnumDoc.readable (h.enums e (Array.mem_toList_iff.mp he)),
    readable_arr_map.mpr fun r hr => RefDoc.readable (h.refs r (Array.mem_toList_iff.mp hr)), trivial⟩

/-- The compact text is read as the documentation, unless the stored form is too deep for the reader. -/
theorem ofText?_compact {d : Documentation} (h : d.Storable) :
    ofText? d.toJson.compact = if d.toJson.nesting ≤ nestingLimit then some d else none := by
  rw [ofText?, Json.parse?_compact (readable h)]
  split
  next hn => rw [Option.bind_some, (stores h hn).reads]
  next => rfl

/-- The indented text is read as the documentation, unless the stored form is too deep for the
reader. -/
theorem ofText?_pretty {d : Documentation} (h : d.Storable) :
    ofText? d.toJson.pretty = if d.toJson.nesting ≤ nestingLimit then some d else none := by
  rw [ofText?, Json.parse?_pretty (readable h)]
  split
  next hn => rw [Option.bind_some, (stores h hn).reads]
  next => rfl

/-- **A documentation is read back from its texts,** the compact and the indented one, if its stored
form is not too deep for the reader. -/
theorem ofText?_toJson {d : Documentation} (h : d.Storable) (hn : d.toJson.nesting ≤ nestingLimit) :
    ofText? d.toJson.compact = some d ∧ ofText? d.toJson.pretty = some d := by
  rw [ofText?_compact h, ofText?_pretty h, if_pos hn]
  exact ⟨rfl, rfl⟩

/-- A rendered text holds the documentation among its members, one level deeper. -/
theorem ofJson?_render {d : Documentation} (h : d.Storable) (hn : d.toJson.nesting < nestingLimit)
    (generatedAt : String) (indented : Bool) :
    ∃ v, Json.parse? (d.render generatedAt indented) = some v ∧
      (v.field? "documentation").bind ofJson? = some d := by
  have hreadable : (d.envelope generatedAt).Readable := by
    rw [envelope, readable_ofFields]
    simp only [Json.Record.all_given_field, Json.Record.all_given_nil]
    exact ⟨.str _, .str _, readable h, trivial⟩
  have hnesting : (d.envelope generatedAt).nesting ≤ nestingLimit := by
    refine Json.nesting_ofFields_le (n := 126).mpr ?_
    simp only [Json.Record.all_given_field, Json.Record.all_given_nil]
    exact ⟨by simp [Json.nesting], by simp [Json.nesting], Nat.le_of_lt_succ hn, trivial⟩
  have hmember : ((d.envelope generatedAt).field? "documentation").bind ofJson? = some d := by
    change ofJson? d.toJson = some d
    exact (stores h hn.le).reads
  refine ⟨d.envelope generatedAt, ?_, hmember⟩
  rw [render]
  split
  · rw [Json.parse?_pretty hreadable, if_pos hnesting]
  · rw [Json.parse?_compact hreadable, if_pos hnesting]

/-- Types of all forms, absent values beside empty ones, and literals of both kinds. -/
def assortment : Documentation where
  modules := [
    { enumList := [⟨0⟩], classList := [⟨0⟩],
      functionList := [
        { name := none, signatureList := [
          { paramList := [
              { name := "x", optional := true,
                type := some (.unionOf [.ref ⟨0⟩ [], .ref ⟨1⟩ [.name "T", .arrayOf (.unionOf [])]]) }],
            returnType := .intersectionOf [.unsupported .tuple "[\"a\"]", .name "π"],
            doc := some "" }] }],
      variableList := [
        { name := "v", type := some (.literal "E" (.number (.ofDecimal false 15 (-1)))),
          value := some (.text "1.5"), pos := some ⟨"a.ts", 1, 2⟩ }] },
    {}]
  classes := #[
    { name := "C", kind := .ofInterface, construct := some { name := none }, index := some ⟨none, none⟩,
      extendList := [⟨0⟩] }]
  enums := #[{ name := "E" }]
  refs := #[{ name := "C", target := some (.toClass ⟨0⟩) }, { name := "E", target := some (.toEnum ⟨0⟩) },
    { name := "Gone" }]

theorem assortment_storable : assortment.Storable := by
  have hword : (0 : Nat) < twoTo 32 ∧ 1 < twoTo 32 ∧ 2 < twoTo 32 := by decide +kernel
  have hunion : (TypeDoc.unionOf [.ref ⟨0⟩ [], .ref ⟨1⟩ [.name "T", .arrayOf (.unionOf [])]]).Storable := by
    refine .unionOf (List.forall_mem_cons.mpr ⟨.ref hword.1 (by simp), ?_⟩)
    refine List.forall_mem_singleton.mpr (.ref hword.2.1 (List.forall_mem_cons.mpr ⟨.name, ?_⟩))
    exact List.forall_mem_singleton.mpr (.arrayOf (.unionOf (by simp)))
  have hreturn : (TypeDoc.intersectionOf [.unsupported .tuple "[\"a\"]", .name "π"]).Storable :=
    .intersectionOf (List.forall_mem_cons.mpr ⟨.unsupported, List.forall_mem_singleton.mpr .name⟩)
  have hliteral : (TypeDoc.literal "E" (.number (.ofDecimal false 15 (-1)))).Storable :=
    .literal fun x hx => Literal.number.inj hx ▸ Binary64.readsBack_oneAndHalf
  have hparam : IdentifierDoc.Storable
      { name := "x", optional := true,
        type := some (.unionOf [.ref ⟨0⟩ [], .ref ⟨1⟩ [.name "T", .arrayOf (.unionOf [])]]) } :=
    ⟨by simpa using hunion, by simp, by simp⟩
  have hvariable : IdentifierDoc.Storable
      { name := "v", type := some (.literal "E" (.number (.ofDecimal false 15 (-1)))),
        value := some (.text "1.5"), pos := some ⟨"a.ts", 1, 2⟩ } :=
    ⟨by simpa using hliteral, by simp [Literal.ReadsBack], by simpa using ⟨hword.2.1, hword.2.2⟩⟩
  refine ⟨?_, ?_, ?_, ?_⟩
  · refine List.forall_mem_cons.mpr ⟨⟨?_, ?_, by simp, ?_, ?_⟩, List.forall_mem_singleton.mpr ?_⟩
    · simp [EnumId.InWord, hword]
    · simp [ClassId.InWord, hword]
    · exact List.forall_mem_singleton.mpr (List.forall_mem_singleton.mpr
        ⟨by simp, List.forall_mem_singleton.mpr hparam, hreturn⟩)
    · exact List.forall_mem_singleton.mpr hvariable
    · exact ⟨by simp, by simp, by simp, by simp, by simp⟩
  · have hclass : ∀ c ∈ assortment.classes.toList, c.Storable :=
      List.forall_mem_singleton.mpr
        ⟨by simp, by simp [FunctionDoc.Storable], by simp, by simp, by simpa using ⟨by simp, by simp⟩,
          by simp [ClassId.InWord, hword], ⟨by simp, by simp, by simp, by simp, by simp⟩⟩
    exact fun c hc => hclass c (Array.mem_toList_iff.mpr hc)
  · have henum : EnumDoc.Storable { name := "E" } := ⟨by simp, by simp⟩
    simpa [assortment] using henum
  · simp [assortment, RefDoc.Storable, RefTarget.InWord, ClassId.InWord, EnumId.InWord, hword]

theorem assortment_readBack :
    assortment.Storable ∧ assortment.toJson.nesting ≤ nestingLimit ∧
      ofText? assortment.toJson.compact = some assortment ∧
      ofText? assortment.toJson.pretty = some assortment :=
  have hn : assortment.toJson.nesting ≤ nestingLimit := by decide +kernel
  ⟨assortment_storable, hn, ofText?_toJson assortment_storable hn⟩

end Documentation

end ApiDocs
