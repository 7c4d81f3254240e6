import CallPlan.Proofs.Lookup
/-!
# Names that JSON lets in

A fragment has a name of name characters.  An entry in JSON may have any name that is not empty, while a key is always read by
the rules for fragments.  The types of an entry are read by the grammar of types, so its signature can be written and looked
up; whether that finds the function depends on its name alone (`ofJsonText_reaches_iff`).  A name that is no name of a fragment
makes a signature that is refused, or that is read as the signature of another function.
-/
namespace CallPlan

open AbiType (Derives)
open Text (joinWith)

/-! ## Entries -/

theorem EntryParam.derives_of_toParam {e : EntryParam} {p : Param} (h : e.toParam = .ok p) : Derives p.kind.chars p.kind := by
  unfold toParam at h
  split at h
  · rename_i ty hread
    cases h
    exact (AbiType.read_eq_ok_iff.1 hread).derives_chars
  · cases h

namespace Function

/-- **What is sure of a function that comes from an entry**: it has a name, and its input types can be written. -/
structure Entered (f : Function) : Prop where
  name_ne_nil : f.name.toList ≠ []
  derives : ∀ ty ∈ f.inputTypes, Derives ty.chars ty

theorem Entered.writable_iff {f : Function} (h : f.Entered) : f.Writable ↔ ∀ c ∈ f.name.toList, isNameChar c = true :=
  ⟨Writable.name_chars, fun hname => ⟨h.name_ne_nil, hname, h.derives⟩⟩

theorem entered_of_toFunction {e : AbiEntry} {f : Function} (h : e.toFunction = .ok f) : f.Entered := by
  unfold AbiEntry.toFunction at h
  by_cases hname : e.name.isEmpty = true
  · simp only [hname] at h
    cases h
  · simp only [hname] at h
    cases hinputs : e.inputs.mapM EntryParam.toParam with
    | error err =>
      rw [hinputs] at h
      cases h
    | ok inputs =>
      cases houtputs : e.outputs.mapM EntryParam.toParam with
      | error err =>
        rw [hinputs, houtputs] at h
        cases h
      | ok outputs =>
        rw [hinputs, houtputs] at h
        cases h
        refine ⟨by simpa using hname, List.forall_mem_map.2 ?_⟩
        exact forall_mem_of_forall₂ (AbiType.mapM_eq_ok_iff.1 hinputs) fun _ _ hp => EntryParam.derives_of_toParam hp

/-! ## Signatures -/

theorem nested_types {f : Function} (h : ∀ ty ∈ f.inputTypes, Derives ty.chars ty) :
    Text.Nested (fun _ => True) (joinWith [','] (AbiType.charsAll f.inputTypes)) :=
  (AbiType.derivesAll_charsAll h).nested

/-- **Functions of one signature have one name**, if one of them can be written as a fragment: in front of the last list of
types there is no other parenthesis, which nothing would close. -/
theorem Entered.name_eq {f g : Function} (hf : f.Entered) (hg : g.Writable) (h : f.signature = g.signature) :
    f.name = g.name := by
  have hchars : f.signatureChars = g.signatureChars := String.ofList_injective h
  rw [signatureChars_eq, signatureChars_eq] at hchars
  have hopen : '(' ∉ g.name.toList := fun hmem => absurd (hg.name_chars _ hmem) (by decide)
  by_cases hmem : '(' ∈ f.name.toList
  · obtain ⟨a, b, hname, ha⟩ := List.eq_append_cons_of_mem hmem
    rw [hname, List.append_assoc, List.cons_append] at hchars
    obtain ⟨-, hrest⟩ := (Text.append_mark_inj ha hopen).1 hchars
    rw [← List.cons_append, ← List.append_assoc] at hrest
    have htypes := nested_types hg.derives
    rw [← List.append_cancel_right hrest] at htypes
    exact absurd htypes ((nested_types hf.derives).not_append_open b)
  · exact String.toList_injective ((Text.append_mark_inj hmem hopen).1 hchars).1

end Function

/-! ## Interfaces -/

namespace Interface

theorem ofEntries_ok {js : List Json} {i : Interface} (h : ofEntries js = .ok i) :
    i.Indexed ∧ ∀ f ∈ i.functions, f.Entered := by
  unfold ofEntries at h
  split at h
  · cases h
  · rename_i es _
    cases hfs : (es.filter (·.kind = "function")).mapM AbiEntry.toFunction with
    | error e =>
      rw [hfs] at h
      cases h
    | ok fs =>
      rw [hfs] at h
      obtain ⟨hi, rfl⟩ := ofFunctions_eq_ok_iff.1 h
      exact ⟨hi, forall_mem_of_forall₂ (AbiType.mapM_eq_ok_iff.1 hfs) fun _ _ hf => Function.entered_of_toFunction hf⟩

theorem ofJsonText_ok {text : String} {i : Interface} (h : ofJsonText text = .ok i) :
    i.Indexed ∧ ∀ f ∈ i.functions, f.Entered := by
  unfold ofJsonText at h
  split at h
  · cases h
  · unfold ofJson at h
    split at h
    · exact ofEntries_ok h
    · split at h
      · cases h
      · split at h
        · cases h
        · exact ofEntries_ok h
    · cases h

/-- **A function of an interface in JSON is found by its signature exactly when its name is one that a fragment can have.** -/
theorem ofJsonText_reaches_iff (text : String) (i : Interface) (h : ofJsonText text = .ok i) (f : Function)
    (hf : f ∈ i.functions) :
    i.function f.signature = .ok f ↔ ∀ c ∈ f.name.toList, Function.isNameChar c = true := by
  obtain ⟨hi, hall⟩ := ofJsonText_ok h
  have hentered := hall f hf
  have hopen : '(' ∈ f.signature.toList := by simp [Function.signature, Function.signatureChars]
  rw [hi.function_parens_eq_ok_iff hopen]
  constructor
  · rintro ⟨-, g, hg, hsame⟩
    have hwritable := Function.writable_of_ofText hg
    rw [hentered.name_eq hwritable hsame]
    exact hwritable.name_chars
  · intro hname
    have hself := (hentered.writable_iff.2 hname).ofText_signature
    exact ⟨hf, _, hself, Function.signature_eq_of_inputTypes_eq rfl (Function.map_kind_unnamed _).symm⟩

/-- Three functions without parameters, two of them with names that no fragment can have. -/
def oddNames : String := "[\x7b\"name\":\"f\"\x7d,\x7b\"name\":\" f\"\x7d,\x7b\"name\":\"my func\"\x7d]"

def oddInterface : Interface where
  bySignature := [("f()", ⟨"f", [], []⟩), (" f()", ⟨" f", [], []⟩), ("my func()", ⟨"my func", [], []⟩)]
  byName := [("f", ["f()"]), (" f", [" f()"]), ("my func", ["my func()"])]

theorem ofJsonText_oddNames : ofJsonText oddNames = .ok oddInterface := by decide +kernel

theorem ofJsonText_reaches_oddNames :
    ofJsonText oddNames = .ok oddInterface ∧ oddInterface.function "f()" = .ok ⟨"f", [], []⟩ ∧
      oddInterface.function " f()" ≠ .ok ⟨" f", [], []⟩ := by
  refine ⟨ofJsonText_oddNames, ?_, ?_⟩
  · exact (ofJsonText_reaches_iff _ _ ofJsonText_oddNames ⟨"f", [], []⟩ (by decide)).2 (List.all_eq_true.1 (by decide))
  · intro h
    have hname := (ofJsonText_reaches_iff _ _ ofJsonText_oddNames ⟨" f", [], []⟩ (by decide)).1 h
    exact absurd (hname ' ' (by decide)) (by decide)

/-- **A signature that finds another function, and one that is refused.** -/
theorem function_oddNames :
    ofJsonText oddNames = .ok oddInterface ∧ oddInterface.functions.map Function.signature = ["f()", " f()", "my func()"] ∧
      oddInterface.function " f()" = .ok ⟨"f", [], []⟩ ∧
      oddInterface.function "my func()" = .error (.abi (.invalidSignature "my func()")) := by
  refine ⟨ofJsonText_oddNames, by decide, ?_, ?_⟩
  · decide +kernel
  · decide +kernel

end Interface
end CallPlan
