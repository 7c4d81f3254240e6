import CallPlan.Proofs.Parameters
/-!
# Decorated fragments

A function can be written with the word `function` in front, with words between its inputs and its outputs, with names,
modifiers and blanks around its parameters and with the word `tuple` in front of parentheses (`Writes`).  The reader looks for
the first open parenthesis and for the first `returns` behind the one that closes it.  No name holds the one and none of the
words the other, so what is read is the function that was written, whatever stands around it (`ofText_of_writes`).
-/
namespace CallPlan
namespace Function

open Text (Nested Solid Spaced IsWord isBlank trim)
open Param (WritesList)

/-! ## Rules -/

/-- **What stands behind the inputs**: a row of words that do not hold `returns`, and then the outputs, if there are any. -/
inductive WritesOutputs : List Char → List Param → Prop where
  | none {t : List Char} {ws : List (List Char)} (row : Spaced ws t) (plain : ∀ w ∈ ws, ¬ "returns".toList <:+: w) :
      WritesOutputs t []
  | returns {t gap gap' l : List Char} {ws : List (List Char)} {ps : List Param} (row : Spaced ws t)
      (plain : ∀ w ∈ ws, ¬ "returns".toList <:+: w) (apart : ws ≠ [] → gap ≠ []) (blank : gap.all isBlank = true)
      (blank' : gap'.all isBlank = true) (list : WritesList l ps) :
      WritesOutputs (t ++ (gap ++ ("returns".toList ++ (gap' ++ '(' :: (l ++ [')']))))) ps

/-- What may stand in front of a name: nothing, or the word `function` and blanks. -/
def IsKeyword (word : List Char) : Prop := word = [] ∨ ∃ gap : List Char, gap.all isBlank = true ∧ word = "function ".toList ++ gap

/-- **The text writes the function.** -/
inductive Writes : List Char → Function → Prop where
  | fragment {pre word l t post : List Char} {name : String} {inputs outputs : List Param} (before : pre.all isBlank = true)
      (keyword : IsKeyword word) (identifier : IsIdentifier name.toList) (list : WritesList l inputs)
      (rest : WritesOutputs t outputs) (behind : post.all isBlank = true) :
      Writes (pre ++ (word ++ (name.toList ++ '(' :: (l ++ ')' :: t))) ++ post) ⟨name, inputs, outputs⟩

/-! ## What trimming leaves -/

section
variable {s t word name r : List Char} {ps : List Param}

theorem solid_close : Solid [')'] := Text.IsWord.solid (by decide)

theorem WritesOutputs.solid_append (h : WritesOutputs t ps) (hs : Solid s) : Solid (s ++ t) := by
  cases h with
  | none row _ => exact row.solid_append hs
  | @returns t gap gap' l ws ps _ _ _ _ _ _ =>
    have hsolid := hs.append solid_close (t ++ (gap ++ ("returns".toList ++ (gap' ++ '(' :: l))))
    simpa using hsolid

theorem WritesOutputs.last_not_blank (h : WritesOutputs t ps) {c : Char} (hc : t.getLast? = some c) : isBlank c = false :=
  (h.solid_append solid_close).2.2 c (by rw [List.getLast?_append, hc, Option.some_or])

theorem solid_fragment (hword : IsKeyword word) (hname : IsIdentifier name) (l : List Char) (ht : WritesOutputs t ps) :
    Solid (word ++ (name ++ '(' :: (l ++ ')' :: t))) := by
  have hsignature := ht.solid_append (hname.isWord.solid.append solid_close ('(' :: l))
  have hplain : Solid (name ++ '(' :: (l ++ ')' :: t)) := by simpa using hsignature
  rcases hword with rfl | ⟨gap, -, rfl⟩
  · exact hplain
  · have hfunction : Solid "function".toList := Text.IsWord.solid (by decide)
    simpa using hfunction.append hplain (' ' :: gap)

/-! ## The steps of the reader -/

/-- A name and an open parenthesis behind it do not start with a keyword. -/
theorem dropKeyword_name {name r : List Char} (h : ∀ c ∈ name, isNameChar c = true) :
    dropKeyword (name ++ '(' :: r) = name ++ '(' :: r := by
  unfold dropKeyword
  split
  · rename_i t ht
    have hword : "function ".toList = "function".toList ++ [' '] := by decide
    have heq : name ++ '(' :: r = "function".toList ++ ' ' :: t := by
      rw [(Text.dropWord?_eq_some_iff _ _ _).1 ht, hword, List.append_assoc, List.singleton_append]
    -- the name ends at the first character that no name has, on both sides
    have hleft : (name ++ '(' :: r).takeWhile isNameChar = name := by
      rw [List.takeWhile_append_of_pos h]
      simp [show isNameChar '(' = false from rfl]
    have hright : ("function".toList ++ ' ' :: t).takeWhile isNameChar = "function".toList := by
      rw [List.takeWhile_append_of_pos (List.all_eq_true.1 (by decide))]
      simp [show isNameChar ' ' = false from rfl]
    rw [heq, hright] at hleft
    rw [← hleft] at heq
    exact absurd (List.cons.inj (List.append_cancel_left heq)).1 (by decide)
  · rfl

theorem dropKeyword_fragment (hword : IsKeyword word) (hname : IsIdentifier name) :
    dropKeyword (word ++ (name ++ '(' :: r)) = name ++ '(' :: r := by
  rcases hword with rfl | ⟨gap, hgap, rfl⟩
  · exact dropKeyword_name hname.2
  · have hdrop : Text.dropWord? "function ".toList ("function ".toList ++ gap ++ (name ++ '(' :: r)) =
        some (gap ++ (name ++ '(' :: r)) := by
      rw [Text.dropWord?_eq_some_iff, List.append_assoc]
    unfold dropKeyword
    simp only [hdrop]
    refine Text.dropWhile_blank_append hgap fun c hc => ?_
    obtain ⟨x, xs, rfl⟩ := List.exists_cons_of_ne_nil hname.1
    cases hc
    exact hname.isWord.2 c List.mem_cons_self

theorem WritesOutputs.readOutputs?_eq (h : WritesOutputs t ps) : readOutputs? (trim t) = some ps := by
  have hword : IsWord "returns".toList := by decide
  unfold readOutputs?
  rw [Text.after?_trim hword fun c hc => h.last_not_blank hc]
  cases h with
  | none row plain =>
    have hafter := row.after?_append (r := []) hword plain (by simp)
    rw [List.append_nil] at hafter
    rw [hafter]
    rfl
  | @returns t gap gap' l ws ps row plain apart blank blank' list =>
    have hstart : Text.trimStart (gap' ++ '(' :: (l ++ [')'])) = '(' :: (l ++ [')']) :=
      Text.dropWhile_blank_append blank' (by rintro c ⟨⟩; rfl)
    have hhead : ws ≠ [] →
        ∀ c, (gap ++ ("returns".toList ++ (gap' ++ '(' :: (l ++ [')'])))).head? = some c → isBlank c = true := by
      intro hws c hc
      obtain ⟨x, xs, rfl⟩ := List.exists_cons_of_ne_nil (apart hws)
      cases hc
      exact List.all_eq_true.1 blank c List.mem_cons_self
    rw [row.after?_append hword plain hhead, Text.after?_blank_append hword blank, Text.after?_append]
    simp only [hstart, list.nested.closing?_eq, list.readList?_eq]

-- a word that holds `returns` is taken for it, so the rules cannot allow one
example : readOutputs? "noreturns view".toList = none := by decide

end

/-- **What the reader has found when it has read a function.** -/
theorem parts_of_read? {s : List Char} {f : Function} (h : read? s = some f) : ∃ name l r rest,
    dropKeyword (trim s) = name ++ '(' :: r ∧ trim name = f.name.toList ∧ IsIdentifier f.name.toList ∧
      Text.closing? 0 r = some (l, rest) ∧ Param.readList? l = some f.inputs ∧ readOutputs? (trim rest) = some f.outputs := by
  unfold read? at h
  split at h
  · cases h
  · rename_i name r hsplit
    by_cases hname : ((trim name).isEmpty || !(trim name).all isNameChar) = true
    · simp [hname] at h
    · simp only [hname, Bool.false_eq_true, if_false] at h
      rw [Bool.or_eq_true, not_or, Bool.not_eq_true', Bool.not_eq_false, List.isEmpty_iff, List.all_eq_true] at hname
      split at h
      · cases h
      · rename_i l rest hclosing
        split at h <;> cases h
        rename_i hinputs houtputs
        exact ⟨name, l, r, rest, Text.eq_of_splitFirst? hsplit, by simp, by simpa [IsIdentifier] using hname, hclosing,
          hinputs, houtputs⟩

/-- **A written function is read.** -/
theorem Writes.read?_eq {s : List Char} {f : Function} (h : Writes s f) : read? s = some f := by
  cases h with
  | @fragment pre word l t post name inputs outputs before keyword identifier list rest behind =>
    have htrim := (solid_fragment keyword identifier l rest).trim_eq before behind
    have hvalid : (name.toList.isEmpty || !name.toList.all isNameChar) = false := by
      rw [List.all_eq_true.2 identifier.2, Bool.not_true, Bool.or_false]
      simpa using identifier.1
    unfold read?
    rw [htrim, dropKeyword_fragment keyword identifier, Text.splitFirst?_append (identifier.not_mem rfl)]
    simp only [identifier.isWord.solid.trim_self, hvalid, list.nested.closing?_eq, list.readList?_eq, rest.readOutputs?_eq,
      Bool.false_eq_true, if_false, String.ofList_toList]

theorem Writes.ofText_eq {s : String} {f : Function} (h : Writes s.toList f) : ofText s = .ok f := by
  rw [ofText, h.read?_eq]

/-! ## Which functions can be written -/

/-- **A function that can be written**: an identifier as its name, and parameters that can be. -/
structure Declarable (f : Function) : Prop where
  identifier : IsIdentifier f.name.toList
  inputs : ∀ p ∈ f.inputs, p.Declarable
  outputs : ∀ p ∈ f.outputs, p.Declarable

theorem Writes.declarable {s : List Char} {f : Function} (h : Writes s f) : f.Declarable := by
  cases h with
  | fragment _ _ identifier list rest _ =>
    refine ⟨identifier, list.declarable, ?_⟩
    cases rest with
    | none _ _ => simp
    | returns _ _ _ _ _ list => exact list.declarable

theorem Declarable.exists_writes {f : Function} (h : f.Declarable) : ∃ s, Writes s f := by
  obtain ⟨l, hl⟩ := Param.exists_writesList h.inputs
  obtain ⟨l', hl'⟩ := Param.exists_writesList h.outputs
  have hrest : WritesOutputs ([] ++ ([] ++ ("returns".toList ++ ([] ++ '(' :: (l' ++ [')']))))) f.outputs :=
    .returns .nil (by simp) (by simp) rfl rfl hl'
  have hwrites : Writes ([] ++ ([] ++ (f.name.toList ++ '(' :: (l ++ ')' :: _))) ++ []) f :=
    .fragment rfl (.inl rfl) h.identifier hl hrest rfl
  exact ⟨_, hwrites⟩

/-- **Decorations do not change what is read.**  The functions that can be written are those with an identifier as their name
and with parameters that can be, and each text that writes such a function is read as it: its name, its inputs and its outputs
with their names and types. -/
theorem ofText_of_writes (f : Function) :
    (f.Declarable ↔ ∃ s : String, Writes s.toList f) ∧ ∀ s : String, Writes s.toList f → ofText s = .ok f := by
  refine ⟨⟨fun hf => ?_, fun ⟨_, hs⟩ => hs.declarable⟩, fun s hs => hs.ofText_eq⟩
  obtain ⟨s, hs⟩ := hf.exists_writes
  exact ⟨String.ofList s, by rwa [String.toList_ofList]⟩

/-- A function over a list of tuples with short type names in them. -/
def payList : Function where
  name := "pay"
  inputs := [⟨"list", .array (.tuple [.address, .uint 256])⟩, ⟨"", .fixedBytes 1⟩]
  outputs := [⟨"left", .int 256⟩]

def decoratedPayList : String :=
  "\tfunction  pay( tuple(address payable to,uint)[] calldata list ,byte) external view returns(int left) "

theorem ofText_of_writes_payList : Writes decoratedPayList.toList payList ∧ ofText decoratedPayList = .ok payList := by
  have hto : Param.Writes ("address".toList ++ ([' '] ++ ("payable".toList ++ ([' '] ++ ("to".toList ++ [])))))
      ⟨"to", .address⟩ :=
    .param (.base .address) (.cons (by decide) (by decide) (by decide) (.cons (by decide) (by decide) (by decide) .nil))
      (@Param.Named.named "to" ["payable".toList] [] (by decide) (by decide) (by decide))
  have hcomponents : WritesList ([] ++ _ ++ [] ++ ',' :: ([] ++ "uint".toList ++ []))
      [⟨"to", .address⟩, .unnamed (.uint 256)] :=
    .more rfl hto rfl (.last rfl (Param.writes_unnamed (.base .uint)) rfl)
  have hlist : Param.Writes ("tuple".toList ++ '(' :: (_ ++ [')']) ++ ['[', ']'] ++
      ([' '] ++ ("calldata".toList ++ ([' '] ++ ("list".toList ++ []))))) ⟨"list", .array (.tuple [.address, .uint 256])⟩ :=
    .param (.array (.tuple (.inr rfl) hcomponents))
      (.cons (by decide) (by decide) (by decide) (.cons (by decide) (by decide) (by decide) .nil))
      (@Param.Named.named "list" ["calldata".toList] [] (by decide) (by decide) (by decide))
  have hinputs : WritesList ([' '] ++ _ ++ [' '] ++ ',' :: ([] ++ "byte".toList ++ [])) payList.inputs :=
    .more (by decide) hlist (by decide) (.last rfl (Param.writes_unnamed (.base .byte)) rfl)
  have hleft : Param.Writes ("int".toList ++ ([' '] ++ ("left".toList ++ []))) ⟨"left", .int 256⟩ :=
    .param (.base .int) (.cons (by decide) (by decide) (by decide) .nil)
      (@Param.Named.named "left" [] [] (by decide) (by decide) (by decide))
  have hwords : ∀ w ∈ ["external".toList, "view".toList], 's' ∉ w := by decide
  have houtputs : WritesOutputs ([' '] ++ ("external".toList ++ ([' '] ++ ("view".toList ++ []))) ++
      ([' '] ++ ("returns".toList ++ ([] ++ '(' :: ([] ++ _ ++ [] ++ [')']))))) payList.outputs :=
    .returns (.cons (by decide) (by decide) (by decide) (.cons (by decide) (by decide) (by decide) .nil))
      (fun w hw hin => hwords w hw (hin.subset (by decide))) (by simp) (by decide) rfl (.last rfl hleft rfl)
  have hparts : Writes (['\t'] ++ ("function ".toList ++ [' '] ++ ("pay".toList ++ '(' :: (_ ++ ')' :: _))) ++ [' ']) payList :=
    .fragment (by decide) (.inr ⟨[' '], by decide, rfl⟩) (by decide) hinputs houtputs (by decide)
  have hwrites : Writes decoratedPayList.toList payList := by
    refine Eq.mpr (congrArg (Writes · payList) ?_) hparts
    decide +kernel
  exact ⟨hwrites, (ofText_of_writes payList).2 _ hwrites⟩

end Function
end CallPlan
