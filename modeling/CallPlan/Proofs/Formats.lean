import CallPlan.Proofs.Lookup
/-!
# Two formats of an interface

The same functions can be written as entries in JSON or as fragments.  In JSON a tuple is the word `tuple`, with the dimensions
behind it and its members beside it, and the type's text is put together again from these; in a fragment it is written out,
and the reader of fragments rebuilds it.  Either way the text that is read in the end is the canonical one, so both formats give
the interface of the functions that were written, or refuse them for the same reason (`ofJson_eq_ofFragments`).
-/
namespace CallPlan

open Text (trim joinWith)
open AbiType (Derives)

/-! ## Writing -/

namespace AbiType

mutual
/-- A parameter of this type in JSON, `dims` being the text of the dimensions behind it. -/
def describe (name : String) (dims : List Char) : AbiType → Json
  | .array t        => t.describe name (['[', ']'] ++ dims)
  | .fixedArray t n => t.describe name ('[' :: (Text.decimal n ++ [']']) ++ dims)
  | .tuple ts       =>
    .object [("name", .string name), ("type", .string (String.ofList ("tuple".toList ++ dims))),
      ("components", .array (describeAll ts))]
  | t               => .object [("name", .string name), ("type", .string (String.ofList (t.chars ++ dims)))]

/-- Unnamed parameters of these types in JSON. -/
def describeAll : List AbiType → List Json
  | []      => []
  | t :: ts => t.describe "" [] :: describeAll ts
end

end AbiType

def Param.toJson (p : Param) : Json := p.kind.describe p.name []

namespace Function

/-- A function as an entry of an interface in JSON. -/
def toJson (f : Function) : Json :=
  .object [("type", .string "function"), ("name", .string f.name), ("inputs", .array (f.inputs.map Param.toJson)),
    ("outputs", .array (f.outputs.map Param.toJson))]

/-- What a fragment says about outputs; of none it says nothing. -/
def returnsChars (f : Function) : List Char :=
  if f.outputs.isEmpty then []
  else " returns (".toList ++ joinWith [','] (AbiType.charsAll f.outputTypes) ++ [')']

/-- A function as a fragment without parameter names. -/
def fragment (f : Function) : String := String.ofList ("function ".toList ++ f.signatureChars ++ f.returnsChars)

end Function

/-! ## Reading entries -/

namespace EntryParam

/-- **An object with a name and a type text is read as a parameter with the components that it lists.** -/
theorem ofJson_object {ms : List (String × Json)} {n t : String} (js : List Json)
    (hn : Json.lastValue? "name" ms = some (.string n)) (ht : Json.lastValue? "type" ms = some (.string t))
    (hc : Json.itemsOrNone (Json.lastValue? "components" ms) = .ok js) :
    ofJson (.object ms) = (js.mapM ofJson).map (.mk n t) := by
  have hfields : Json.fields? fieldNames (.object ms) =
      some [some (.string n), some (.string t), Json.lastValue? "components" ms] := by
    rw [← hn, ← ht]
    rfl
  rw [ofJson]
  split
  · rename_i name type components h
    cases hfields.symm.trans h
    simp only [Json.isObject, if_true]
    split
    · rename_i e he
      cases hc.symm.trans he
    · rename_i items hitems
      cases hc.symm.trans hitems
      rw [List.mapM_subtype (g := ofJson) (fun _ _ => rfl), List.unattach_attach]
      cases js.mapM ofJson <;> rfl
  · rename_i hno
    exact absurd hfields (hno _ _ _)

theorem exists_ofJson_text (name : String) {t : List Char} (h : Text.dropWord? "tuple".toList t = none) :
    ∃ p, ofJson (.object [("name", .string name), ("type", .string (String.ofList t))]) = .ok p ∧ p.name = name ∧
      p.typeChars = t := by
  refine ⟨.mk name (String.ofList t) [], ofJson_object [] rfl rfl rfl, rfl, ?_⟩
  have htext : (String.ofList t).toList = t := String.toList_ofList
  rw [typeChars, htext, h]

theorem exists_ofJson_tuple (name : String) (dims : List Char) {js : List Json} {ps : List EntryParam}
    (h : js.mapM ofJson = .ok ps) :
    ∃ p, ofJson (.object [("name", .string name), ("type", .string (String.ofList ("tuple".toList ++ dims))),
        ("components", .array js)]) = .ok p ∧ p.name = name ∧
      p.typeChars = '(' :: joinWith [','] (typesChars ps) ++ ')' :: dims := by
  refine ⟨.mk name (String.ofList ("tuple".toList ++ dims)) ps, ?_, rfl, ?_⟩
  · rw [ofJson_object js rfl rfl rfl, h]
    rfl
  · have htext : (String.ofList ("tuple".toList ++ dims)).toList = "tuple".toList ++ dims := String.toList_ofList
    rw [typeChars, htext, (Text.dropWord?_eq_some_iff _ _ _).2 rfl]

end EntryParam

namespace AbiType

mutual
/-- **A described type has its canonical text again**, by recursion through the dimensions and into the members. -/
theorem exists_ofJson_describe : ∀ (ty : AbiType) (name : String) (dims : List Char),
    ∃ p, EntryParam.ofJson (ty.describe name dims) = .ok p ∧ p.name = name ∧ p.typeChars = ty.chars ++ dims
  | .array t, name, dims => by
    obtain ⟨p, hp, hname, htype⟩ := exists_ofJson_describe t name (['[', ']'] ++ dims)
    exact ⟨p, hp, hname, htype.trans (List.append_assoc t.chars ['[', ']'] dims).symm⟩
  | .fixedArray t n, name, dims => by
    obtain ⟨p, hp, hname, htype⟩ := exists_ofJson_describe t name ('[' :: (Text.decimal n ++ [']']) ++ dims)
    refine ⟨p, hp, hname, ?_⟩
    rw [htype, chars_fixedArray, List.append_assoc]
  | .tuple ts, name, dims => by
    obtain ⟨ps, hps, htypes⟩ := exists_ofJson_describeAll ts
    obtain ⟨p, hp, hname, htype⟩ := EntryParam.exists_ofJson_tuple name dims hps
    refine ⟨p, hp, hname, ?_⟩
    rw [htype, htypes]
    exact (List.append_assoc ('(' :: joinWith [','] (charsAll ts)) [')'] dims).symm
  | .address, name, _ => EntryParam.exists_ofJson_text name rfl
  | .bool, name, _ => EntryParam.exists_ofJson_text name rfl
  | .uint _, name, _ => EntryParam.exists_ofJson_text name rfl
  | .int _, name, _ => EntryParam.exists_ofJson_text name rfl
  | .fixedBytes _, name, _ => EntryParam.exists_ofJson_text name rfl
  | .bytes, name, _ => EntryParam.exists_ofJson_text name rfl
  | .string, name, _ => EntryParam.exists_ofJson_text name rfl

theorem exists_ofJson_describeAll : ∀ tys : List AbiType,
    ∃ ps, (describeAll tys).mapM EntryParam.ofJson = .ok ps ∧ EntryParam.typesChars ps = charsAll tys
  | [] => ⟨[], rfl, rfl⟩
  | ty :: tys => by
    obtain ⟨p, hp, -, htype⟩ := exists_ofJson_describe ty "" []
    obtain ⟨ps, hps, htypes⟩ := exists_ofJson_describeAll tys
    refine ⟨p :: ps, ?_, ?_⟩
    · rw [describeAll, List.mapM_cons, hp, hps]
      rfl
    · rw [EntryParam.typesChars, charsAll, htype, htypes, List.append_nil]
end

end AbiType

theorem Param.exists_ofJson_toJson {p : Param} (h : Derives p.kind.chars p.kind) :
    ∃ e, EntryParam.ofJson p.toJson = .ok e ∧ e.toParam = .ok p := by
  obtain ⟨e, he, hname, htype⟩ := AbiType.exists_ofJson_describe p.kind p.name []
  refine ⟨e, he, ?_⟩
  rw [EntryParam.toParam, htype, List.append_nil, h.solid.trim_self, h.read_eq_ok, hname]

theorem Param.exists_mapM_toJson : ∀ {ps : List Param}, (∀ p ∈ ps, Derives p.kind.chars p.kind) →
    ∃ es, (ps.map Param.toJson).mapM EntryParam.ofJson = .ok es ∧ es.mapM EntryParam.toParam = .ok ps
  | [], _ => ⟨[], rfl, rfl⟩
  | p :: ps, h => by
    obtain ⟨e, he, hp⟩ := Param.exists_ofJson_toJson (h p List.mem_cons_self)
    obtain ⟨es, hes, hps⟩ := Param.exists_mapM_toJson fun q hq => h q (List.mem_cons_of_mem p hq)
    refine ⟨e :: es, ?_, ?_⟩
    · rw [List.map_cons, List.mapM_cons, he, hes]
      rfl
    · rw [List.mapM_cons, hp, hps]
      rfl

namespace Function

/-- **A function that both formats can write**: a name of name characters, and parameters without names of types that some text
writes. -/
structure Plain (f : Function) : Prop where
  name_ne : f.name ≠ ""
  name_chars : ∀ c ∈ f.name.toList, isNameChar c = true
  params : ∀ p ∈ f.inputs ++ f.outputs, p.name = "" ∧ ∃ s, AbiType.ofText s = .ok p.kind

theorem Plain.derives {f : Function} (h : f.Plain) : ∀ p ∈ f.inputs ++ f.outputs, Derives p.kind.chars p.kind := by
  intro p hp
  obtain ⟨-, s, hs⟩ := h.params p hp
  exact (AbiType.read_eq_ok_iff.1 hs).derives_chars

/-- **An entry is read back as the function that it was written from.** -/
theorem Plain.exists_ofJson_toJson {f : Function} (h : f.Plain) :
    ∃ e, AbiEntry.ofJson f.toJson = .ok e ∧ e.kind = "function" ∧ e.toFunction = .ok f := by
  obtain ⟨ins, hins, hinputs⟩ := Param.exists_mapM_toJson fun p hp => h.derives p (List.mem_append_left f.outputs hp)
  obtain ⟨outs, houts, houtputs⟩ := Param.exists_mapM_toJson fun p hp => h.derives p (List.mem_append_right f.inputs hp)
  refine ⟨⟨"function", f.name, ins, outs⟩, ?_, rfl, ?_⟩
  · have hfields : Json.fields? AbiEntry.fieldNames f.toJson =
        some [some (.string "function"), some (.string f.name), some (.array (f.inputs.map Param.toJson)),
          some (.array (f.outputs.map Param.toJson))] := rfl
    have hparams : ∀ js, AbiEntry.paramsOf (some (.array js)) = js.mapM EntryParam.ofJson := fun _ => rfl
    unfold AbiEntry.ofJson
    rw [hfields]
    simp only [hparams, hins, houts]
    rfl
  · have hname : f.name.isEmpty = false := by simpa using h.name_ne
    unfold AbiEntry.toFunction
    simp only [hname, hinputs, houtputs]
    rfl

theorem exists_mapM_toJson : ∀ {fs : List Function}, (∀ f ∈ fs, f.Plain) →
    ∃ es, (fs.map toJson).mapM AbiEntry.ofJson = .ok es ∧ es.filter (·.kind = "function") = es ∧
      es.mapM AbiEntry.toFunction = .ok fs
  | [], _ => ⟨[], rfl, rfl, rfl⟩
  | f :: fs, h => by
    obtain ⟨e, he, hkind, hf⟩ := (h f List.mem_cons_self).exists_ofJson_toJson
    obtain ⟨es, hes, hkinds, hfs⟩ := exists_mapM_toJson fun g hg => h g (List.mem_cons_of_mem f hg)
    refine ⟨e :: es, ?_, ?_, ?_⟩
    · rw [List.map_cons, List.mapM_cons, he, hes]
      rfl
    · rw [List.filter_cons_of_pos (by simpa using hkind), hkinds]
    · rw [List.mapM_cons, hf, hfs]
      rfl

/-! ## Reading fragments -/

theorem Plain.writable {f : Function} (h : f.Plain) : f.Writable := by
  refine ⟨by simpa using h.name_ne, h.name_chars, fun ty hty => ?_⟩
  obtain ⟨p, hp, rfl⟩ := List.mem_map.1 hty
  exact h.derives p (List.mem_append_left _ hp)

theorem map_unnamed_kind {ps : List Param} (h : ∀ p ∈ ps, p.name = "") : (ps.map Param.kind).map Param.unnamed = ps := by
  rw [List.map_map]
  refine (List.map_congr_left fun p hp => ?_).trans (List.map_id ps)
  simp [Param.unnamed, ← h p hp]

theorem writesList_unnamed {ps : List Param} (hname : ∀ p ∈ ps, p.name = "") (h : ∀ p ∈ ps, Derives p.kind.chars p.kind) :
    Param.WritesList (joinWith [','] (AbiType.charsAll (ps.map Param.kind))) ps := by
  have hlist := Param.writesList_of_derivesAll (AbiType.derivesAll_charsAll (List.forall_mem_map.2 h))
  rwa [map_unnamed_kind hname] at hlist

theorem Plain.writesOutputs_returnsChars {f : Function} (h : f.Plain) : WritesOutputs f.returnsChars f.outputs := by
  unfold returnsChars
  split
  · rename_i hnone
    rw [List.isEmpty_iff.1 hnone]
    exact .none .nil (by simp)
  · have hlist : Param.WritesList (joinWith [','] (AbiType.charsAll f.outputTypes)) f.outputs :=
      writesList_unnamed (fun p hp => (h.params p (by simp [hp])).1) fun p hp => h.derives p (by simp [hp])
    have hreturns : WritesOutputs ([] ++ ([' '] ++ ("returns".toList ++ ([' '] ++ '(' ::
        (joinWith [','] (AbiType.charsAll f.outputTypes) ++ [')']))))) f.outputs :=
      .returns .nil (by simp) (by simp) rfl rfl hlist
    simpa using hreturns

theorem exists_fragment_eq (f : Function) :
    ∃ m, "function ".toList ++ f.signatureChars ++ f.returnsChars = 'f' :: (m ++ [')']) := by
  unfold returnsChars
  split
  · exact ⟨"unction ".toList ++ f.name.toList ++ '(' :: joinWith [','] (AbiType.charsAll f.inputTypes), by simp [signatureChars]⟩
  · exact ⟨"unction ".toList ++ f.signatureChars ++ " returns (".toList ++ joinWith [','] (AbiType.charsAll f.outputTypes), by simp⟩

theorem toList_fragment (f : Function) : f.fragment.toList = "function ".toList ++ f.signatureChars ++ f.returnsChars :=
  String.toList_ofList

theorem trim_fragment (f : Function) : trim f.fragment.toList = f.fragment.toList := by
  obtain ⟨m, hm⟩ := f.exists_fragment_eq
  have htrim := (Text.solid_of_ends (c := 'f') (d := ')') m rfl rfl).trim_self
  rwa [← hm, ← toList_fragment] at htrim

/-- **A fragment is read back as the function that it was written from.** -/
theorem Plain.ofText_fragment {f : Function} (h : f.Plain) : ofText f.fragment = .ok f := by
  have hinputs : Param.WritesList (joinWith [','] (AbiType.charsAll f.inputTypes)) f.inputs :=
    writesList_unnamed (fun p hp => (h.params p (by simp [hp])).1) fun p hp => h.derives p (by simp [hp])
  have hwrites : Writes ([] ++ ("function ".toList ++ [] ++ (f.name.toList ++ '(' ::
      (joinWith [','] (AbiType.charsAll f.inputTypes) ++ ')' :: f.returnsChars))) ++ []) f :=
    .fragment rfl (.inr ⟨[], rfl, rfl⟩) ⟨h.writable.name_ne_nil, h.name_chars⟩ hinputs h.writesOutputs_returnsChars rfl
  refine Writes.ofText_eq ?_
  simpa [toList_fragment, signatureChars_eq] using hwrites

end Function

namespace Interface

theorem ofJson_toJson {fs : List Function} (h : ∀ f ∈ fs, f.Plain) :
    ofJson (.array (fs.map Function.toJson)) = ofFunctions fs := by
  obtain ⟨es, hes, hkinds, hfs⟩ := Function.exists_mapM_toJson h
  simp only [ofJson, ofEntries, hes, hkinds, hfs]
  rfl

theorem isSkipped_fragment (f : Function) : isSkipped f.fragment.toList = false := by
  rw [Function.toList_fragment, List.append_assoc]
  rfl

theorem readFragments_fragment : ∀ {fs : List Function}, (∀ f ∈ fs, f.Plain) →
    readFragments (fs.map Function.fragment) = .ok fs
  | [], _ => rfl
  | f :: fs, h => by
    have hf := (h f List.mem_cons_self).ofText_fragment
    have hfs := readFragments_fragment fun g hg => h g (List.mem_cons_of_mem f hg)
    rw [List.map_cons, readFragments]
    simp only [Function.trim_fragment, isSkipped_fragment, String.ofList_toList, hf, hfs, Bool.false_eq_true, if_false]

/-- **The two formats agree.**  Entries in JSON and fragments that are written from the same functions give the same: the
interface of these functions, or the refusal of a signature that two of them have. -/
theorem ofJson_eq_ofFragments (fs : List Function) (h : ∀ f ∈ fs, f.Plain) :
    ofJson (.array (fs.map Function.toJson)) = ofFragments (fs.map Function.fragment) ∧
    ((∃ i, ofFragments (fs.map Function.fragment) = .ok i ∧ i.functions = fs) ∨
      (∃ s, ofFragments (fs.map Function.fragment) = .error (.duplicateSignature s)) ∧ Clash fs) := by
  have hfragments : ofFragments (fs.map Function.fragment) = ofFunctions fs := by
    rw [ofFragments, readFragments_fragment h]
  rw [ofJson_toJson h, hfragments]
  refine ⟨rfl, ?_⟩
  rw [clash_iff fun f hf => (h f hf).writable]
  rcases ofFunctions_cases fs with ⟨i, hok, -, hfunctions⟩ | hrefused
  · exact .inl ⟨i, hok, hfunctions⟩
  · exact .inr hrefused

/-- A function over arrays of tuples with arrays of tuples in them. -/
def payFunction : Function where
  name := "pay"
  inputs := [.unnamed (.array (.fixedArray (.tuple [.address, .array (.tuple [.uint 256])]) 2))]
  outputs := [.unnamed .bool]

theorem ofJson_eq_ofFragments_payFunction :
    (∀ f ∈ [payFunction], f.Plain) ∧
      ofJson (.array [.object [("type", .string "function"), ("name", .string "pay"),
        ("inputs", .array [.object [("name", .string ""), ("type", .string "tuple[2][]"), ("components", .array
          [.object [("name", .string ""), ("type", .string "address")],
            .object [("name", .string ""), ("type", .string "tuple[]"), ("components", .array
              [.object [("name", .string ""), ("type", .string "uint256")]])]])]]),
        ("outputs", .array [.object [("name", .string ""), ("type", .string "bool")]])]]) =
      ofFragments ["function pay((address,(uint256)[])[2][]) returns (bool)"] := by
  have hplain : ∀ f ∈ [payFunction], f.Plain := by
    rw [List.forall_mem_singleton]
    refine ⟨by decide, List.all_eq_true.1 (by decide), fun p hp => ?_⟩
    rcases List.mem_pair.1 hp with rfl | rfl
    · exact ⟨rfl, "(address,(uint256)[])[2][]", by decide +kernel⟩
    · exact ⟨rfl, "bool", by decide +kernel⟩
  have hfragment : [payFunction].map Function.fragment = ["function pay((address,(uint256)[])[2][]) returns (bool)"] := by
    decide +kernel
  refine ⟨hplain, ?_⟩
  rw [← hfragment]
  exact (ofJson_eq_ofFragments [payFunction] hplain).1

end Interface
end CallPlan
