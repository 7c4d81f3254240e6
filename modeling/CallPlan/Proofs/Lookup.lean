import CallPlan.Proofs.Indexing
import CallPlan.Proofs.Signatures
import Mathlib.Data.List.Nodup
/-!
# Looking functions up

An interface of fragments holds what its fragments declare, unless two of them declare one name with the same input types.
Functions that come from fragments have signatures that are read back as they were written, so a key that is a signature finds
a function exactly by name and input types, however the key is decorated.  A key without parentheses finds a function exactly
when it is the only one of its name (`ofFragments_lookup`).
-/
namespace CallPlan

open Text (isBlank trim)

namespace Function

theorem signature_eq_of_inputTypes_eq {f g : Function} (hname : f.name = g.name) (htypes : f.inputTypes = g.inputTypes) :
    f.signature = g.signature := by
  rw [signature, signature, signatureChars, signatureChars, hname, htypes]

/-- **Functions that can be written as fragments have one signature only if they have one name and the same input types.** -/
theorem Writable.signature_eq_iff {f g : Function} (hf : f.Writable) (hg : g.Writable) :
    f.signature = g.signature ↔ f.name = g.name ∧ f.inputTypes = g.inputTypes := by
  refine ⟨fun h => ?_, fun ⟨hname, htypes⟩ => signature_eq_of_inputTypes_eq hname htypes⟩
  have hread := hf.ofText_signature
  rw [h, hg.ofText_signature] at hread
  obtain ⟨hname, hinputs, -⟩ := Function.mk.inj (Except.ok.inj hread)
  have htypes := congrArg (List.map Param.kind) hinputs
  rw [map_kind_unnamed, map_kind_unnamed] at htypes
  exact ⟨hname.symm, htypes.symm⟩

theorem ofText_eq_ok_iff {s : String} {f : Function} : ofText s = .ok f ↔ read? s.toList = some f := by
  unfold ofText
  cases read? s.toList <;> simp

theorem ofText_trim {s : String} {f : Function} : ofText (String.ofList (trim s.toList)) = .ok f ↔ ofText s = .ok f := by
  rw [ofText_eq_ok_iff, ofText_eq_ok_iff, String.toList_ofList, read?, read?, Text.trim_trim]

end Function

namespace Interface

/-! ## What fragments declare -/

/-- **The fragments that declare functions**, without the blanks around them. -/
def kept (ss : List String) : List String := (ss.map fun s => String.ofList (trim s.toList)).filter (!isSkipped ·.toList)

theorem kept_cons (s : String) (ss : List String) :
    kept (s :: ss) =
      if isSkipped (trim s.toList) then kept ss else String.ofList (trim s.toList) :: kept ss := by
  cases h : isSkipped (trim s.toList) <;> simp [kept, h]

theorem readFragments_eq_ok_iff : ∀ {ss : List String} {fs : List Function},
    readFragments ss = .ok fs ↔ List.Forall₂ (fun t f => Function.ofText t = .ok f) (kept ss) fs
  | [], fs => by
    simp [readFragments, kept, eq_comm]
  | s :: ss, fs => by
    rw [readFragments, kept_cons]
    cases hskip : isSkipped (trim s.toList) with
    | true => simpa using readFragments_eq_ok_iff
    | false =>
      simp only [Bool.false_eq_true, if_false, List.forall₂_cons_left_iff]
      cases hf : Function.ofText (String.ofList (trim s.toList)) with
      | error e => simp
      | ok f =>
        cases hfs : readFragments ss with
        | error e =>
          have hnone : ∀ r, ¬ List.Forall₂ (fun t f => Function.ofText t = .ok f) (kept ss) r := fun r hr => by
            rw [← readFragments_eq_ok_iff, hfs] at hr
            cases hr
          simp [hnone]
        | ok gs =>
          have hsome : ∀ r, List.Forall₂ (fun t f => Function.ofText t = .ok f) (kept ss) r ↔ gs = r := fun r => by
            rw [← readFragments_eq_ok_iff, hfs, Except.ok.injEq]
          simp [hsome, @eq_comm _ _ fs]

theorem readFragments_error : ∀ {ss : List String} {e : ContractError}, readFragments ss = .error e → ∃ a, e = .abi a
  | [], _, h => by cases h
  | s :: ss, e, h => by
    unfold readFragments at h
    simp only at h
    split at h
    · exact readFragments_error h
    · split at h
      · cases h
        exact ⟨_, rfl⟩
      · split at h <;> cases h
        rename_i hss
        exact readFragments_error hss

theorem writable_of_readFragments {ss : List String} {fs : List Function} (h : readFragments ss = .ok fs) :
    ∀ f ∈ fs, f.Writable :=
  forall_mem_of_forall₂ (readFragments_eq_ok_iff.1 h) fun _ _ hread => Function.writable_of_ofText hread

/-- **Two of the functions have one name and the same input types.** -/
def Clash (fs : List Function) : Prop :=
  ∃ (m n : Nat) (f g : Function), m < n ∧ fs[m]? = some f ∧ fs[n]? = some g ∧ f.name = g.name ∧ f.inputTypes = g.inputTypes

theorem clash_iff {fs : List Function} (h : ∀ f ∈ fs, f.Writable) : Clash fs ↔ ¬ (fs.map Function.signature).Nodup := by
  rw [List.nodup_iff_getElem?_ne_getElem?]
  constructor
  · rintro ⟨m, n, f, g, hmn, hf, hg, hname, htypes⟩ hne
    have hn : n < (fs.map Function.signature).length := by
      rw [List.length_map]
      exact (List.getElem?_eq_some_iff.1 hg).1
    refine hne m n hmn hn ?_
    rw [List.getElem?_map, List.getElem?_map, hf, hg, Option.map_some, Option.map_some,
      Function.signature_eq_of_inputTypes_eq hname htypes]
  · intro hrepeat
    push Not at hrepeat
    obtain ⟨m, n, hmn, hn, heq⟩ := hrepeat
    rw [List.length_map] at hn
    have hg := List.getElem?_eq_getElem hn
    have hf := List.getElem?_eq_getElem (Nat.lt_trans hmn hn)
    rw [List.getElem?_map, List.getElem?_map, hf, hg] at heq
    have hsame := ((h _ (List.mem_of_getElem? hf)).signature_eq_iff (h _ (List.mem_of_getElem? hg))).1 (Option.some.inj heq)
    exact ⟨m, n, _, _, hmn, hf, hg, hsame.1, hsame.2⟩

theorem ofFragments_ok {ss : List String} {i : Interface} (h : ofFragments ss = .ok i) :
    i.Indexed ∧ readFragments ss = .ok i.functions := by
  unfold ofFragments at h
  split at h
  · cases h
  · rename_i fs hfs
    obtain ⟨hi, rfl⟩ := ofFunctions_eq_ok_iff.1 h
    exact ⟨hi, hfs⟩

/-- **Fragments are refused as duplicates exactly when all of them can be read and two clash.** -/
theorem ofFragments_duplicate_iff {ss : List String} :
    (∃ s, ofFragments ss = .error (.duplicateSignature s)) ↔ ∃ fs, readFragments ss = .ok fs ∧ Clash fs := by
  unfold ofFragments
  cases hfs : readFragments ss with
  | error e =>
    obtain ⟨a, rfl⟩ := readFragments_error hfs
    simp
  | ok fs =>
    simp only [Except.ok.injEq, exists_eq_left', clash_iff (writable_of_readFragments hfs)]
    rcases ofFunctions_cases fs with ⟨i, hok, hi, rfl⟩ | ⟨hdup, hrepeat⟩
    · simp [hok, hi.distinct]
    · exact iff_of_true hdup hrepeat

/-! ## What a key finds -/

section
variable {i : Interface} {f g : Function} {key name : String}

/-- **The only function of its name.** -/
def IsAlone (i : Interface) (f : Function) : Prop := ∀ g ∈ i.functions, g.name = f.name → g = f

instance : Decidable (i.IsAlone f) := inferInstanceAs (Decidable (∀ g ∈ i.functions, g.name = f.name → g = f))

theorem Indexed.named_eq_singleton_iff (h : i.Indexed) :
    i.named name = [f] ↔ f ∈ i.functions ∧ f.name = name ∧ i.IsAlone f := by
  constructor
  · intro hone
    have hf : f ∈ i.named name := by simp [hone]
    obtain ⟨hmem, rfl⟩ := mem_named.1 hf
    refine ⟨hmem, rfl, fun g hg hname => ?_⟩
    have hg' := mem_named.2 ⟨hg, hname⟩
    rwa [hone, List.mem_singleton] at hg'
  · rintro ⟨hmem, rfl, halone⟩
    have hnodup : (i.named f.name).Nodup := (h.distinct.of_map).filter _
    refine List.perm_singleton.1 ((List.perm_ext_iff_of_nodup hnodup (List.nodup_singleton f)).2 fun g => ?_)
    rw [mem_named, List.mem_singleton]
    constructor
    · exact fun hg => halone g hg.1 hg.2
    · rintro rfl
      exact ⟨hmem, rfl⟩

/-- **A key without parentheses is a name**, and what it finds depends on how many functions have it. -/
theorem Indexed.function_bare_cases (h : i.Indexed) (hkey : '(' ∉ key.toList) (hname : name = String.ofList (trim key.toList)) :
    (∃ f, i.named name = [f] ∧ i.function key = .ok f) ∨
      (i.named name = [] ∧ i.function key = .error (.unknownFunction name)) ∨
      (2 ≤ (i.named name).length ∧
        i.function key = .error (.ambiguousName name ((i.named name).map Function.signature))) := by
  have hno : '(' ∉ name.toList := by
    rw [hname, String.toList_ofList, Text.mem_trim_iff (by decide)]
    exact hkey
  simp only [function, ← hname, hno, if_false, h.lookup_byName]
  cases hnamed : i.named name with
  | nil => simp
  | cons f fs =>
    cases fs with
    | nil =>
      -- the one signature of the name leads to the function through the other table
      have hf : f ∈ i.functions := (mem_named.1 (hnamed ▸ List.mem_cons_self)).1
      simp [h.lookup_bySignature.2 ⟨hf, rfl⟩]
    | cons g fs => simp

theorem Indexed.function_bare_eq_ok_iff (h : i.Indexed) (hkey : '(' ∉ key.toList) :
    i.function key = .ok f ↔ f ∈ i.functions ∧ f.name = String.ofList (trim key.toList) ∧ i.IsAlone f := by
  rw [← h.named_eq_singleton_iff]
  rcases h.function_bare_cases hkey rfl with ⟨g, hg, heq⟩ | ⟨hnil, heq⟩ | ⟨hlen, heq⟩
  · simp [hg, heq]
  · simp [hnil, heq]
  · constructor
    · intro hok
      rw [heq] at hok
      cases hok
    · intro hone
      simp [hone] at hlen

/-- **A name of several functions is refused with all their signatures**, in the order of declaration. -/
theorem Indexed.function_ambiguous (h : i.Indexed) (hkey : '(' ∉ key.toList) (hf : f ∈ i.functions) (hg : g ∈ i.functions)
    (hne : f ≠ g) (hname : f.name = g.name) (hasks : f.name = String.ofList (trim key.toList)) :
    i.function key = .error (.ambiguousName f.name ((i.functions.filter (·.name = f.name)).map Function.signature)) := by
  have hf' : f ∈ i.named f.name := mem_named.2 ⟨hf, rfl⟩
  have hg' : g ∈ i.named f.name := mem_named.2 ⟨hg, hname.symm⟩
  rcases h.function_bare_cases hkey hasks with ⟨k, hk, -⟩ | ⟨hnil, -⟩ | ⟨-, heq⟩
  · rw [hk, List.mem_singleton] at hf' hg'
    exact absurd (hf'.trans hg'.symm) hne
  · rw [hnil] at hf'
    cases hf'
  · exact heq

/-- The bare names, read off the functions. -/
theorem Indexed.bareNames_eq (h : i.Indexed) :
    i.bareNames = (i.functions.map Function.name).eraseDups.filter fun name => (i.named name).length = 1 := by
  rw [bareNames, h.byName_eq, List.filter_map, List.map_map]
  have hfst : Prod.fst ∘ (fun name => (name, (i.named name).map Function.signature)) = id := rfl
  rw [hfst, List.map_id]
  exact List.filter_congr fun name _ => by simp

theorem Indexed.mem_bareNames_iff (h : i.Indexed) :
    name ∈ i.bareNames ↔ ∃ f ∈ i.functions, f.name = name ∧ i.IsAlone f := by
  rw [h.bareNames_eq, List.mem_filter, decide_eq_true_eq, List.length_eq_one_iff]
  simp only [h.named_eq_singleton_iff]
  constructor
  · exact fun ⟨_, f, hf⟩ => ⟨f, hf⟩
  · rintro ⟨f, hf, rfl, halone⟩
    exact ⟨List.mem_eraseDups.2 (List.mem_map.2 ⟨f, hf, rfl⟩), f, hf, rfl, halone⟩

theorem Indexed.nodup_bareNames (h : i.Indexed) : i.bareNames.Nodup := by
  rw [h.bareNames_eq]
  exact (nodup_eraseDups _).filter _

/-- **A key with parentheses finds the function whose signature is that of what it is read as.** -/
theorem Indexed.function_parens_eq_ok_iff (h : i.Indexed) (hkey : '(' ∈ key.toList) :
    i.function key = .ok f ↔ f ∈ i.functions ∧ ∃ g, Function.ofText key = .ok g ∧ f.signature = g.signature := by
  have hmem : '(' ∈ (String.ofList (trim key.toList)).toList := by
    rw [String.toList_ofList, Text.mem_trim_iff (by decide)]
    exact hkey
  simp only [function, hmem, if_true]
  cases hg : Function.ofText (String.ofList (trim key.toList)) with
  | error e =>
    have hnone : ∀ g, Function.ofText key ≠ .ok g := fun g hread => by
      rw [Function.ofText_trim.2 hread] at hg
      cases hg
    simp [hnone]
  | ok g =>
    rw [Function.ofText_trim] at hg
    simp only [hg, Except.ok.injEq, exists_eq_left', ← h.lookup_bySignature]
    cases i.bySignature.lookup g.signature <;> simp

/-- Functions that can be written as fragments are found by name and input types. -/
theorem Indexed.function_signature_eq_ok_iff (h : i.Indexed) (hall : ∀ f ∈ i.functions, f.Writable)
    (hkey : '(' ∈ key.toList) :
    i.function key = .ok f ↔
      f ∈ i.functions ∧ ∃ g, Function.ofText key = .ok g ∧ g.name = f.name ∧ g.inputTypes = f.inputTypes := by
  rw [h.function_parens_eq_ok_iff hkey]
  refine and_congr_right fun hf => exists_congr fun g => and_congr_right fun hg => ?_
  rw [eq_comm, (Function.writable_of_ofText hg).signature_eq_iff (hall f hf)]

end

/-- **The function that a key asks for**: by its signature in some form, or by its name if no other function has it. -/
def Asks (i : Interface) (key : String) (f : Function) : Prop :=
  ('(' ∈ key.toList ∧ ∃ g, Function.ofText key = .ok g ∧ g.name = f.name ∧ g.inputTypes = f.inputTypes) ∨
    ('(' ∉ key.toList ∧ f.name = String.ofList (trim key.toList) ∧ i.IsAlone f)

theorem Indexed.function_eq_ok_iff {i : Interface} (h : i.Indexed) (hall : ∀ f ∈ i.functions, f.Writable) {key : String}
    {f : Function} : i.function key = .ok f ↔ f ∈ i.functions ∧ i.Asks key f := by
  unfold Asks
  by_cases hkey : '(' ∈ key.toList
  · simp [h.function_signature_eq_ok_iff hall hkey, hkey]
  · simp [h.function_bare_eq_ok_iff hkey, hkey]

/-- **Lookup in an interface of fragments is complete and exact.**  The interface holds what its fragments declare; a key finds
a function exactly when it asks for it, and so every function by its signature; a name of several functions is refused with
their signatures; the bare names are the names of one function each.  There is no interface, for duplicates, exactly when all
fragments can be read and two of them have one name and the same input types. -/
theorem ofFragments_lookup (ss : List String) :
    (∀ i, ofFragments ss = .ok i →
      List.Forall₂ (fun t f => Function.ofText t = .ok f) (kept ss) i.functions ∧
      (∀ key f, i.function key = .ok f ↔ f ∈ i.functions ∧ i.Asks key f) ∧
      (∀ f ∈ i.functions, i.function f.signature = .ok f) ∧
      (∀ f ∈ i.functions, ∀ g ∈ i.functions, f ≠ g → f.name = g.name →
        ∀ key, '(' ∉ key.toList → f.name = String.ofList (trim key.toList) →
          i.function key =
            .error (.ambiguousName f.name ((i.functions.filter (·.name = f.name)).map Function.signature))) ∧
      i.bareNames.Nodup ∧ ∀ name, name ∈ i.bareNames ↔ ∃ f ∈ i.functions, f.name = name ∧ i.IsAlone f) ∧
    ((∃ s, ofFragments ss = .error (.duplicateSignature s)) ↔
      ∃ fs, List.Forall₂ (fun t f => Function.ofText t = .ok f) (kept ss) fs ∧ Clash fs) := by
  refine ⟨fun i hok => ?_, ?_⟩
  · obtain ⟨hi, hread⟩ := ofFragments_ok hok
    have hall := writable_of_readFragments hread
    refine ⟨readFragments_eq_ok_iff.1 hread, fun key f => hi.function_eq_ok_iff hall, fun f hf => ?_, ?_, hi.nodup_bareNames,
      fun name => hi.mem_bareNames_iff⟩
    · have hopen : '(' ∈ f.signature.toList := by simp [Function.signature, Function.signatureChars]
      have hself := (hall f hf).ofText_signature
      exact (hi.function_eq_ok_iff hall).2 ⟨hf, .inl ⟨hopen, _, hself, rfl, Function.map_kind_unnamed _⟩⟩
    · exact fun f hf g hg hne hname key hkey => hi.function_ambiguous hkey hf hg hne hname
  · simp only [← readFragments_eq_ok_iff]
    exact ofFragments_duplicate_iff

/-- Two functions of one name, one that is alone, and an event. -/
def sumFragments : List String :=
  ["function sum(uint a, uint b) returns (uint)", "event Summed(uint256)", " sum(tuple(uint x, bool y)[] memory list)",
    "function half(uint256)"]

def sumInterface : Interface where
  bySignature :=
    [("sum(uint256,uint256)", ⟨"sum", [⟨"a", .uint 256⟩, ⟨"b", .uint 256⟩], [⟨"", .uint 256⟩]⟩),
      ("sum((uint256,bool)[])", ⟨"sum", [⟨"list", .array (.tuple [.uint 256, .bool])⟩], []⟩),
      ("half(uint256)", ⟨"half", [⟨"", .uint 256⟩], []⟩)]
  byName := [("sum", ["sum(uint256,uint256)", "sum((uint256,bool)[])"]), ("half", ["half(uint256)"])]

theorem ofFragments_sumFragments : ofFragments sumFragments = .ok sumInterface := by decide +kernel

theorem ofFragments_lookup_sumFragments :
    ofFragments sumFragments = .ok sumInterface ∧
      sumInterface.function "sum(tuple(uint,bool ok)[])" = .ok ⟨"sum", [⟨"list", .array (.tuple [.uint 256, .bool])⟩], []⟩ ∧
      sumInterface.function " sum" = .error (.ambiguousName "sum" ["sum(uint256,uint256)", "sum((uint256,bool)[])"]) ∧
      "half" ∈ sumInterface.bareNames := by
  obtain ⟨-, hfinds, -, hambiguous, -, hbare⟩ := (ofFragments_lookup sumFragments).1 _ ofFragments_sumFragments
  refine ⟨ofFragments_sumFragments, (hfinds _ _).2 ⟨by decide, .inl ⟨by decide, ?_⟩⟩, ?_, (hbare _).2 ?_⟩
  · exact ⟨⟨"sum", [⟨"", .array (.tuple [.uint 256, .bool])⟩], []⟩, by decide +kernel, rfl, rfl⟩
  · exact hambiguous ⟨"sum", [⟨"a", .uint 256⟩, ⟨"b", .uint 256⟩], [⟨"", .uint 256⟩]⟩ (by decide)
      ⟨"sum", [⟨"list", .array (.tuple [.uint 256, .bool])⟩], []⟩ (by decide) (by decide) rfl " sum" (by decide) (by decide)
  · exact ⟨⟨"half", [⟨"", .uint 256⟩], []⟩, by decide, rfl, by decide⟩

end Interface
end CallPlan
