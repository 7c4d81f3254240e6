import CallPlan.Interface.Basic
import Mathlib.Data.List.Nodup
/-!
# The two tables of an interface

Functions are entered one after the other, each in two tables.  `Interface.Indexed` says what the tables hold in terms of the
functions alone: each function under its own signature, and under each name the signatures of all functions that have it, in
the order of their declaration.  Entering a function keeps that (`Indexed.add_cases`), so every interface that is built has it,
and there is one for each list of functions with distinct signatures (`ofFunctions_eq_ok_iff`).  Looking a key up can then
be read off the functions.
-/
namespace CallPlan
namespace Interface

/-- The functions of a name, in the order of declaration. -/
def named (i : Interface) (name : String) : List Function := i.functions.filter (·.name = name)

/-- **Both tables hold the functions and nothing else.** -/
structure Indexed (i : Interface) : Prop where
  distinct : (i.functions.map Function.signature).Nodup
  bySignature_eq : i.bySignature = i.functions.map fun f => (f.signature, f)
  byName_eq : i.byName =
    (i.functions.map Function.name).eraseDups.map fun name => (name, (i.named name).map Function.signature)

section
variable {i i' : Interface} {f : Function} {fs : List Function} {name s : String}

theorem Indexed.ext (h : i.Indexed) (h' : i'.Indexed) (heq : i.functions = i'.functions) : i = i' := by
  have hnamed : i.named = i'.named := by
    funext name
    rw [named, named, heq]
  have hsignatures : i.bySignature = i'.bySignature := by rw [h.bySignature_eq, h'.bySignature_eq, heq]
  have hnames : i.byName = i'.byName := by rw [h.byName_eq, h'.byName_eq, heq, hnamed]
  cases i
  cases i'
  cases hsignatures
  cases hnames
  rfl

/-! ## What the tables say about a key -/

theorem mem_named : f ∈ i.named name ↔ f ∈ i.functions ∧ f.name = name := by
  rw [named, List.mem_filter, decide_eq_true_eq]

theorem named_eq_nil_iff : i.named name = [] ↔ name ∉ i.functions.map Function.name := by
  simp [named, List.filter_eq_nil_iff]

theorem Indexed.map_fst_bySignature (h : i.Indexed) : i.bySignature.map Prod.fst = i.functions.map Function.signature := by
  rw [h.bySignature_eq, List.map_map]
  rfl

theorem Indexed.lookup_bySignature (h : i.Indexed) : i.bySignature.lookup s = some f ↔ f ∈ i.functions ∧ f.signature = s := by
  have hkeys : (i.bySignature.map Prod.fst).Nodup := by
    rw [h.map_fst_bySignature]
    exact h.distinct
  rw [Table.lookup_eq_some_iff_mem hkeys, h.bySignature_eq, List.mem_map]
  constructor
  · rintro ⟨g, hg, heq⟩
    obtain ⟨rfl, rfl⟩ := Prod.mk.inj heq
    exact ⟨hg, rfl⟩
  · rintro ⟨hf, rfl⟩
    exact ⟨f, hf, rfl⟩

theorem Indexed.lookup_byName (h : i.Indexed) : i.byName.lookup name =
    if i.named name = [] then none else some ((i.named name).map Function.signature) := by
  rw [h.byName_eq, Table.lookup_map]
  simp only [List.mem_eraseDups, named_eq_nil_iff]
  by_cases hname : name ∈ i.functions.map Function.name <;> simp [hname]

/-! ## One function more -/

theorem named_of_functions_eq (h : i'.functions = i.functions ++ [f]) (name : String) :
    i'.named name = i.named name ++ if f.name = name then [f] else [] := by
  rw [named, named, h, List.filter_append]
  by_cases hname : f.name = name <;> simp [hname]

/-- **The signature of a new function goes under its name**, behind those that are there. -/
theorem Indexed.alter_byName (h : i.Indexed) (hfunctions : i'.functions = i.functions ++ [f]) :
    Table.alter f.name (fun ss => ss.getD [] ++ [f.signature]) i.byName =
      (i'.functions.map Function.name).eraseDups.map fun name => (name, (i'.named name).map Function.signature) := by
  have hnames : i'.functions.map Function.name = i.functions.map Function.name ++ [f.name] := by
    rw [hfunctions, List.map_append]
    rfl
  rw [h.byName_eq, hnames, eraseDups_concat]
  by_cases hname : f.name ∈ (i.functions.map Function.name).eraseDups
  · rw [if_pos hname, Table.alter_map_of_mem _ (nodup_eraseDups _) hname]
    refine List.map_congr_left fun name _ => ?_
    rw [named_of_functions_eq hfunctions]
    by_cases heq : name = f.name
    · simp [heq]
    · simp [heq, Ne.symm heq]
  · have hkeys : f.name ∉ ((i.functions.map Function.name).eraseDups.map
        fun name => (name, (i.named name).map Function.signature)).map Prod.fst := by
      simpa [List.map_map] using hname
    have hnone : i.named f.name = [] := named_eq_nil_iff.2 (mt List.mem_eraseDups.2 hname)
    rw [if_neg hname, Table.alter_of_not_mem hkeys, List.map_append]
    refine congrArg₂ _ (List.map_congr_left fun name hmem => ?_) ?_
    · have hne : f.name ≠ name := fun heq => hname (heq ▸ hmem)
      rw [named_of_functions_eq hfunctions, if_neg hne, List.append_nil]
    · simp [named_of_functions_eq hfunctions, hnone]

/-- **What entering a function does**: it fails if the signature is taken, and else puts the function last. -/
theorem Indexed.add_cases (h : i.Indexed) (f : Function) :
    (f.signature ∈ i.functions.map Function.signature ∧ i.add f = .error (.duplicateSignature f.signature)) ∨
      (f.signature ∉ i.functions.map Function.signature ∧
        ∃ i', i.add f = .ok i' ∧ i'.Indexed ∧ i'.functions = i.functions ++ [f]) := by
  have htaken : (i.bySignature.lookup f.signature).isSome = true ↔ f.signature ∈ i.functions.map Function.signature := by
    simp only [Option.isSome_iff_exists, h.lookup_bySignature, List.mem_map]
  by_cases hmem : f.signature ∈ i.functions.map Function.signature
  · exact .inl ⟨hmem, if_pos (htaken.2 hmem)⟩
  · let i' : Interface := {
      byName := Table.alter f.name (fun ss => ss.getD [] ++ [f.signature]) i.byName
      bySignature := Table.insert f.signature f i.bySignature }
    have hlast : i'.bySignature = i.bySignature ++ [(f.signature, f)] :=
      Table.alter_of_not_mem (h.map_fst_bySignature ▸ hmem)
    have hfunctions : i'.functions = i.functions ++ [f] := by
      rw [functions, hlast, List.map_append]
      rfl
    refine .inr ⟨hmem, i', if_neg (mt htaken.1 hmem), ⟨?_, ?_, h.alter_byName hfunctions⟩, hfunctions⟩
    · rw [hfunctions, List.map_append, List.map_singleton, ← List.concat_eq_append]
      exact List.Nodup.concat hmem h.distinct
    · rw [hlast, hfunctions, List.map_append, h.bySignature_eq]
      rfl

/-! ## All functions -/

theorem indexed_empty : Indexed {} := ⟨List.nodup_nil, rfl, rfl⟩

/-- **Entering functions one after the other** puts them all behind those that are there, unless a signature comes again. -/
theorem Indexed.addAll_cases : ∀ {fs : List Function} {i : Interface}, i.Indexed →
    (∃ i', i.addAll fs = .ok i' ∧ i'.Indexed ∧ i'.functions = i.functions ++ fs) ∨
      ((∃ s, i.addAll fs = .error (.duplicateSignature s)) ∧ ¬ ((i.functions ++ fs).map Function.signature).Nodup)
  | [], i, h => .inl ⟨i, rfl, h, (List.append_nil _).symm⟩
  | f :: fs, i, h => by
    have hshift : i.functions ++ f :: fs = i.functions ++ [f] ++ fs := by simp
    rw [addAll]
    rcases h.add_cases f with ⟨hmem, herror⟩ | ⟨-, i', hok, hi', hfunctions⟩
    · refine .inr ⟨⟨f.signature, by rw [herror]⟩, fun hnodup => ?_⟩
      rw [List.map_append] at hnodup
      exact (List.nodup_append.1 hnodup).2.2 _ hmem _ List.mem_cons_self rfl
    · rw [hok, hshift, ← hfunctions]
      exact hi'.addAll_cases

theorem ofFunctions_cases (fs : List Function) :
    (∃ i, ofFunctions fs = .ok i ∧ i.Indexed ∧ i.functions = fs) ∨
      (∃ s, ofFunctions fs = .error (.duplicateSignature s)) ∧ ¬ (fs.map Function.signature).Nodup :=
  indexed_empty.addAll_cases

/-- **The interface of some functions is the one whose tables hold them.** -/
theorem ofFunctions_eq_ok_iff : ofFunctions fs = .ok i ↔ i.Indexed ∧ i.functions = fs := by
  rcases ofFunctions_cases fs with ⟨i', hok, hi', hfunctions⟩ | ⟨⟨s, herror⟩, hrepeat⟩
  · rw [hok, Except.ok.injEq]
    constructor
    · rintro rfl
      exact ⟨hi', hfunctions⟩
    · rintro ⟨hi, heq⟩
      exact hi'.ext hi (hfunctions.trans heq.symm)
  · rw [herror]
    refine iff_of_false (by simp) ?_
    rintro ⟨hi, rfl⟩
    exact hrepeat hi.distinct

end
end Interface
end CallPlan
