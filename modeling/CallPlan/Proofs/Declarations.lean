import CallPlan.Proofs.Lookup
/-!
# What fragments declare and what is left out

Fragments of events, errors, constructors and the like are left out before the rest is read, by the words they start with.
Three of these words, `constructor`, `fallback` and `receive`, are looked for without a boundary behind them, and a function can
be written without the word `function` in front.  So a function whose name only begins with one of them is left out, too, when it
is written that way (`isSkipped_eq_isLost`).  All other functions are kept, in the order of their fragments
(`ofFragments_declared`).
-/
namespace CallPlan

open Text (isBlank trim)

theorem filterMap_of_forall₂ {α β : Type} {g : α → Option β} {l : List α} {r : List β}
    (h : List.Forall₂ (fun a b => g a = some b) l r) : l.filterMap g = r := by
  induction h with
  | nil => rfl
  | cons hab _ ih => rw [List.filterMap_cons_some hab, ih]

theorem length_filterMap_eq_add {α β : Type} {p : α → Bool} {g : α → Option β} (h : ∀ a, p a = true → (g a).isSome = true)
    (l : List α) : (l.filterMap g).length = ((l.filter (!p ·)).filterMap g).length + (l.filter p).length := by
  induction l with
  | nil => rfl
  | cons a l ih =>
    by_cases hp : p a = true
    · obtain ⟨b, hb⟩ := Option.isSome_iff_exists.1 (h a hp)
      rw [List.filterMap_cons_some hb, List.filter_cons_of_pos hp, List.filter_cons_of_neg (by simp [hp]), List.length_cons,
        List.length_cons, ih]
      omega
    · rw [List.filter_cons_of_neg hp, List.filter_cons_of_pos (by simp [hp])]
      cases hg : g a with
      | none => rw [List.filterMap_cons_none hg, List.filterMap_cons_none hg, ih]
      | some b =>
        rw [List.filterMap_cons_some hg, List.filterMap_cons_some hg, List.length_cons, List.length_cons, ih]
        omega

namespace Function

theorem isNameChar_of_isBlank {c : Char} (h : isBlank c = true) : isNameChar c = false := by
  by_cases hc : isNameChar c = true
  · rw [isBlank_of_isNameChar hc] at h
    cases h
  · simpa using hc

theorem toOption_ofText {s : String} {f : Function} : (ofText s).toOption = some f ↔ ofText s = .ok f := by
  cases ofText s <;> simp [Except.toOption]

/-- **A fragment starts with the word `function` or with the name**, and no longer name stands there. -/
theorem keyword_or_name {s : String} {f : Function} (h : ofText s = .ok f) :
    "function ".toList <+: trim s.toList ∨
      ¬ "function ".toList <+: trim s.toList ∧
        ∃ r, r ≠ [] ∧ trim s.toList = f.name.toList ++ r ∧ ∀ c, r.head? = some c → isNameChar c = false := by
  obtain ⟨name, -, r, -, htext, hname, -⟩ := parts_of_read? (ofText_eq_ok_iff.1 h)
  unfold dropKeyword at htext
  split at htext
  · rename_i t ht
    exact .inl ⟨t, ((Text.dropWord?_eq_some_iff _ _ _).1 ht).symm⟩
  · rename_i hnone
    have hno : ¬ "function ".toList <+: trim s.toList := by
      rintro ⟨t, ht⟩
      rw [(Text.dropWord?_eq_some_iff _ _ _).2 ht.symm] at hnone
      cases hnone
    obtain ⟨pre, post, hpre, hpost, heq⟩ := Text.exists_eq_append_trim name
    rw [heq, hname, List.append_assoc, List.append_assoc] at htext
    -- no blank stands at the start of the trimmed text, so the name does
    obtain rfl := Text.eq_nil_of_trim_eq hpre htext
    refine .inr ⟨hno, post ++ '(' :: r, by simp, htext, fun c hc => ?_⟩
    cases post with
    | nil =>
      cases hc
      rfl
    | cons x post =>
      cases hc
      exact isNameChar_of_isBlank (List.all_eq_true.1 hpost c List.mem_cons_self)

/-- A word of name characters starts a text where it starts the name that the text starts with. -/
theorem isPrefix_append_iff {w name r : List Char} (hw : ∀ c ∈ w, isNameChar c = true)
    (hr : ∀ c, r.head? = some c → isNameChar c = false) : w <+: name ++ r ↔ w <+: name := by
  refine ⟨fun ⟨q, hq⟩ => ?_, fun h => h.trans (List.prefix_append _ _)⟩
  rcases List.append_eq_append_iff.1 hq with ⟨m, hm, -⟩ | ⟨m, hm, hm'⟩
  · exact ⟨m, hm.symm⟩
  · cases m with
    | nil => exact ⟨[], by simpa using hm⟩
    | cons c m =>
      have hc := hr c (by rw [hm']; rfl)
      rw [hw c (by simp [hm])] at hc
      cases hc

end Function

namespace Interface

/-- What a contract can have besides functions and that is written like one. -/
def reserved : List (List Char) := ["constructor".toList, "fallback".toList, "receive".toList]

/-- **The function that a fragment declares**: what is read from it, if it is no event, no error and not named for something
else. -/
def declared? (s : String) : Option Function :=
  (Function.ofText s).toOption.filter fun f =>
    f.name.toList ∉ reserved ∧ ¬ "event ".toList <+: trim s.toList ∧ ¬ "error ".toList <+: trim s.toList

/-- **A function that is left out**: it stands without the word `function`, and its name begins with a reserved one. -/
def isLost (s : String) : Bool :=
  (declared? s).any fun f => ¬ "function ".toList <+: trim s.toList ∧ ∃ w ∈ reserved, w <+: f.name.toList

section
variable {s : String} {f : Function}

theorem declared?_eq_some_iff : declared? s = some f ↔ Function.ofText s = .ok f ∧
    f.name.toList ∉ reserved ∧ ¬ "event ".toList <+: trim s.toList ∧ ¬ "error ".toList <+: trim s.toList := by
  rw [declared?, Option.filter_eq_some_iff, decide_eq_true_eq, Function.toOption_ofText]

theorem isLost_iff (h : declared? s = some f) :
    isLost s = true ↔ ¬ "function ".toList <+: trim s.toList ∧ ∃ w ∈ reserved, w <+: f.name.toList := by
  rw [isLost, h, Option.any_some, decide_eq_true_eq]

theorem isSome_of_isLost (s : String) (h : isLost s = true) : (declared? s).isSome = true := by
  cases hs : declared? s with
  | none =>
    rw [isLost, hs, Option.any_none] at h
    cases h
  | some f => exact Option.isSome_some

theorem isSkipped_iff {t : List Char} : isSkipped t = true ↔
    t = [] ∨ "event ".toList <+: t ∨ "error ".toList <+: t ∨ ∃ w ∈ reserved, w <+: t := by
  have hstart : ∀ w : List Char, (Text.dropWord? w t).isSome = true ↔ w <+: t := fun w => by
    rw [Option.isSome_iff_exists]
    exact exists_congr fun r => (Text.dropWord?_eq_some_iff w t r).trans eq_comm
  simp only [isSkipped, Bool.or_eq_true, List.isEmpty_iff, List.any_eq_true, hstart]
  simp [skippedStarts, reserved]

theorem isNameChar_of_mem_reserved : ∀ w ∈ reserved, w.all Function.isNameChar = true := by decide

/-- No reserved word and the word `function` start the same text. -/
theorem not_isPrefix_function {t w : List Char} (h : "function ".toList <+: t) (hw : w ∈ reserved) : ¬ w <+: t := by
  have hno : ∀ w ∈ reserved, ¬ ("function ".toList <+: w ∨ w <+: "function ".toList) := by decide
  exact fun hwt => hno w hw (List.prefix_or_prefix_of_prefix h hwt)

/-- **A fragment that declares a function is skipped exactly when it is one of those that are lost.** -/
theorem isSkipped_eq_isLost (h : declared? s = some f) : isSkipped (trim s.toList) = isLost s := by
  obtain ⟨hread, hname, hevent, herror⟩ := declared?_eq_some_iff.1 h
  rw [Bool.eq_iff_iff, isSkipped_iff, isLost_iff h]
  rcases Function.keyword_or_name hread with hword | ⟨hno, r, hr, htext, hhead⟩
  · refine iff_of_false ?_ fun hlost => hlost.1 hword
    have hne : trim s.toList ≠ [] := by
      obtain ⟨q, hq⟩ := hword
      simp [← hq]
    rintro (hnil | hstart | hstart | ⟨w, hw, hstart⟩)
    · exact hne hnil
    · exact hevent hstart
    · exact herror hstart
    · exact not_isPrefix_function hword hw hstart
  · have hne : trim s.toList ≠ [] := by simp [htext, hr]
    have hstart : ∀ w ∈ reserved, (w <+: trim s.toList ↔ w <+: f.name.toList) := fun w hw => by
      rw [htext]
      exact Function.isPrefix_append_iff (List.all_eq_true.1 (isNameChar_of_mem_reserved w hw)) hhead
    simp only [hne, hevent, herror, hno, false_or, not_false_eq_true, true_and]
    exact exists_congr fun w => and_congr_right fun hw => hstart w hw

/-- **One fragment**: what is taken from it is what it declares, unless it is lost. -/
theorem taken_eq (s : String) :
    ((if isSkipped (trim s.toList) then none else (Function.ofText s).toOption).filter fun f => f.name.toList ∉ reserved) =
      if isLost s then none else declared? s := by
  by_cases hd : ∃ f, declared? s = some f
  · obtain ⟨f, hf⟩ := hd
    obtain ⟨hread, hname, -⟩ := declared?_eq_some_iff.1 hf
    rw [isSkipped_eq_isLost hf, hf, hread]
    cases isLost s <;> simp [Except.toOption, hname]
  · have hnone : declared? s = none := Option.eq_none_iff_forall_ne_some.2 fun f hf => hd ⟨f, hf⟩
    rw [hnone, ite_self, Option.filter_eq_none_iff]
    intro f hf
    split at hf
    · cases hf
    · rename_i hskip
      intro hname
      have hevent : ¬ "event ".toList <+: trim s.toList := fun he => hskip (isSkipped_iff.2 (.inr (.inl he)))
      have herror : ¬ "error ".toList <+: trim s.toList := fun he => hskip (isSkipped_iff.2 (.inr (.inr (.inl he))))
      exact hd ⟨f, declared?_eq_some_iff.2 ⟨Function.toOption_ofText.1 hf, of_decide_eq_true hname, hevent, herror⟩⟩

end

theorem functions_eq_filterMap {ss : List String} {fs : List Function} (h : readFragments ss = .ok fs) :
    fs = ss.filterMap fun s => if isSkipped (trim s.toList) then none else (Function.ofText s).toOption := by
  have hkept : (kept ss).filterMap (fun t => (Function.ofText t).toOption) = fs :=
    filterMap_of_forall₂ ((readFragments_eq_ok_iff.1 h).imp fun _ _ hread => Function.toOption_ofText.2 hread)
  have htrim : ∀ s : String, (Function.ofText (String.ofList (trim s.toList))).toOption = (Function.ofText s).toOption :=
    fun s => Option.ext fun f => by rw [Function.toOption_ofText, Function.toOption_ofText, Function.ofText_trim]
  rw [← hkept, kept, List.filterMap_filter, List.filterMap_map]
  refine List.filterMap_congr fun s _ => ?_
  cases hskip : isSkipped (trim s.toList) <;> simp [hskip, htrim]

/-- **Fragments declare what they say, but for the names that begin with a reserved word.**  The functions of an interface are
those that its fragments declare, in their order, without the lost ones, which a function with the word `function` in front
never is; and none that is declared is missing exactly when no fragment is lost. -/
theorem ofFragments_declared (ss : List String) (i : Interface) (h : ofFragments ss = .ok i) :
    i.functions.filter (fun f => f.name.toList ∉ reserved) = (ss.filter (!isLost ·)).filterMap declared? ∧
    ((ss.filterMap declared?).Sublist i.functions ↔ ∀ s ∈ ss, isLost s = false) := by
  have hfunctions : i.functions.filter (fun f => f.name.toList ∉ reserved) = (ss.filter (!isLost ·)).filterMap declared? := by
    rw [functions_eq_filterMap (ofFragments_ok h).2, List.filter_filterMap, List.filterMap_filter]
    refine List.filterMap_congr fun s _ => (taken_eq s).trans ?_
    cases isLost s <;> rfl
  refine ⟨hfunctions, fun hsub s hs => ?_, fun hnone => ?_⟩
  · -- each lost fragment makes the list of declared functions longer than what is kept of it
    have hdeclared : (ss.filterMap declared?).filter (fun f => f.name.toList ∉ reserved) = ss.filterMap declared? := by
      refine List.filter_eq_self.2 fun f hf => decide_eq_true ?_
      obtain ⟨s, -, hs⟩ := List.mem_filterMap.1 hf
      exact (declared?_eq_some_iff.1 hs).2.1
    have hlength := (hsub.filter fun f => f.name.toList ∉ reserved).length_le
    rw [hdeclared, hfunctions, length_filterMap_eq_add isSome_of_isLost ss] at hlength
    have hlost : ss.filter isLost = [] := List.eq_nil_of_length_eq_zero (by omega)
    simpa using List.filter_eq_nil_iff.1 hlost s hs
  · have hall : ss.filter (!isLost ·) = ss := List.filter_eq_self.2 fun s hs => by simp [hnone s hs]
    rw [hall] at hfunctions
    rw [← hfunctions]
    exact List.filter_sublist

theorem ofFragments_receiveTokens :
    declared? "receiveTokens(uint256)" = some ⟨"receiveTokens", [.unnamed (.uint 256)], []⟩ ∧
      ∃ i, ofFragments ["receiveTokens(uint256)"] = .ok i ∧ i.functions = [] :=
  ⟨by decide +kernel, {}, by decide +kernel, rfl⟩

/-- Fragments of which one declares nothing and one is lost. -/
def tokenFragments : List String :=
  ["constructor(address)", "function send(address,uint256) returns (bool)", "receiveTokens(uint256)",
    "function receiveTokens(bytes)"]

def tokenFunctions : List Function :=
  [⟨"send", [.unnamed .address, .unnamed (.uint 256)], [.unnamed .bool]⟩, ⟨"receiveTokens", [.unnamed .bytes], []⟩]

theorem ofFragments_declared_tokenFragments :
    ∃ i, ofFragments tokenFragments = .ok i ∧ i.functions.filter (fun f => f.name.toList ∉ reserved) = tokenFunctions ∧
      ¬ (tokenFragments.filterMap declared?).Sublist i.functions := by
  have hread : readFragments tokenFragments = .ok tokenFunctions := by decide +kernel
  obtain ⟨i, hok⟩ : ∃ i, ofFragments tokenFragments = .ok i := by
    rcases ofFunctions_cases tokenFunctions with ⟨i, hi, -⟩ | ⟨-, hrepeat⟩
    · exact ⟨i, by rw [ofFragments, hread]; exact hi⟩
    · exact absurd (by decide +kernel) hrepeat
  obtain ⟨hfunctions, hiff⟩ := ofFragments_declared tokenFragments i hok
  have hlost : isLost "receiveTokens(uint256)" = true := by decide +kernel
  refine ⟨_, hok, hfunctions.trans (by decide +kernel), fun hsub => ?_⟩
  rw [hiff.1 hsub "receiveTokens(uint256)" (by decide)] at hlost
  cases hlost

end Interface
end CallPlan
