import CallPlan.Proofs.Nesting
/-!
# Words with blanks in front

A row of words stands behind a text with blanks in front of each (`Spaced`).  Cutting such a row at its blanks gives the words
again.  Looking for a word in it goes through the row if none of its words holds the one that is looked for, since no blank
stands in a word (`Spaced.after?_append`).
-/
namespace CallPlan
namespace Text

/-- **A stretch of text without blanks.** -/
def IsWord (w : List Char) : Prop := w ≠ [] ∧ ∀ c ∈ w, isBlank c = false

instance (w : List Char) : Decidable (IsWord w) :=
  have : Decidable (∀ c ∈ w, isBlank c = false) := List.decidableBAll _ w
  inferInstanceAs (Decidable (_ ∧ _))

/-- **The text is a row of words with blanks in front of each.** -/
inductive Spaced : List (List Char) → List Char → Prop where
  | nil : Spaced [] []
  | cons {gap w s : List Char} {ws : List (List Char)} (gap_ne : gap ≠ []) (blank : gap.all isBlank = true) (word : IsWord w)
      (rest : Spaced ws s) : Spaced (w :: ws) (gap ++ (w ++ s))

section
variable {s t r w x gap pre post : List Char} {ws : List (List Char)} {c : Char}

theorem Spaced.blank_head (h : Spaced ws s) (hc : s.head? = some c) : isBlank c = true := by
  cases h with
  | nil => cases hc
  | @cons gap w s ws hne hblank _ _ =>
    obtain ⟨x, gap, rfl⟩ := List.exists_cons_of_ne_nil hne
    cases hc
    exact List.all_eq_true.1 hblank _ List.mem_cons_self

/-! ## Cutting -/

theorem words_blank_append (h : gap.all isBlank = true) : words (gap ++ s) = words s := by
  induction gap with
  | nil => rfl
  | cons c gap ih =>
    rw [List.all_cons, Bool.and_eq_true] at h
    rw [← ih h.2, words, words, List.cons_append, List.splitOnP_cons_eq_if_modifyHead, if_pos h.1]
    simp

theorem words_word_append (hw : IsWord w) (hs : ∀ c, s.head? = some c → isBlank c = true) : words (w ++ s) = w :: words s := by
  have hne : w.isEmpty = false := by simpa using hw.1
  cases s with
  | nil =>
    rw [List.append_nil, words, List.splitOnP_eq_singleton hw.2]
    simp [words, hne]
  | cons c s =>
    have hc := hs c rfl
    have hblank : words ([c] ++ s) = words s := words_blank_append (by simp [hc])
    rw [List.singleton_append] at hblank
    rw [hblank, words, List.splitOnP_append_cons_of_forall_mem hw.2 c hc]
    simp [words, hne]

theorem Spaced.words_eq (h : Spaced ws s) : words s = ws := by
  induction h with
  | nil => simp [words]
  | cons _ hblank hw hrest ih => rw [words_blank_append hblank, words_word_append hw fun c hc => hrest.blank_head hc, ih]

/-! ## Trimming -/

theorem IsWord.solid (h : IsWord w) : Solid w := solid_of_forall h.1 h.2

theorem Solid.append (hs : Solid s) (ht : Solid t) (m : List Char) : Solid (s ++ (m ++ t)) := by
  refine ⟨by simp [hs.1], fun c hc => hs.2.1 c ?_, fun c hc => ht.2.2 c ?_⟩
  · obtain ⟨x, s, rfl⟩ := List.exists_cons_of_ne_nil hs.1
    exact hc
  · obtain ⟨y, hy⟩ := Option.ne_none_iff_exists'.1 fun hnone => ht.1 (List.getLast?_eq_none_iff.1 hnone)
    simpa [List.getLast?_append, hy] using hc

theorem Spaced.solid_append (h : Spaced ws t) : ∀ {s : List Char}, Solid s → Solid (s ++ t) := by
  induction h with
  | nil => simp
  | @cons gap w t ws _ _ hw _ ih =>
    intro s hs
    have hword := ih (hs.append hw.solid gap)
    rwa [List.append_assoc, List.append_assoc] at hword

/-! ## Looking for a word -/

theorem after?_cons_of_ne {y : Char} (h : y ≠ c) : after? (y :: w) (c :: s) = after? (y :: w) s := by
  simp [after?, dropWord?, h]

theorem after?_blank_append (hw : IsWord w) (h : gap.all isBlank = true) : after? w (gap ++ s) = after? w s := by
  obtain ⟨y, w, rfl⟩ := List.exists_cons_of_ne_nil hw.1
  induction gap with
  | nil => rfl
  | cons c gap ih =>
    rw [List.all_cons, Bool.and_eq_true] at h
    have hne : y ≠ c := by
      rintro rfl
      rw [hw.2 y List.mem_cons_self] at h
      cases h.1
    rw [List.cons_append, after?_cons_of_ne hne, ih h.2]

theorem after?_append_of_not_isInfix (hx : ¬ w <:+: x) (hr : ∀ c, r.head? = some c → c ∉ w) :
    after? w (x ++ r) = after? w r := by
  induction x with
  | nil => rfl
  | cons d x ih =>
    -- an occurrence here would lie in `d :: x` or reach over the first character behind it
    have hnone : dropWord? w (d :: x ++ r) = none := by
      rw [Option.eq_none_iff_forall_ne_some]
      intro q hq
      rcases List.append_eq_append_iff.1 ((dropWord?_eq_some_iff _ _ _).1 hq) with ⟨m, hm, hm'⟩ | ⟨m, hm, -⟩
      · cases m with
        | nil => exact hx ⟨[], [], by simp [hm]⟩
        | cons c m =>
          refine hr c (by simp [hm']) ?_
          rw [hm]
          simp
      · exact hx ⟨[], m, by simp [hm]⟩
    have hx' : ¬ w <:+: x := fun hin => hx (hin.trans (List.suffix_cons d x).isInfix)
    rw [List.cons_append] at hnone ⊢
    rw [after?, hnone]
    exact ih hx'

theorem Spaced.after?_append (h : Spaced ws t) (hw : IsWord w) (hno : ∀ x ∈ ws, ¬ w <:+: x)
    (hr : ws ≠ [] → ∀ c, r.head? = some c → isBlank c = true) : after? w (t ++ r) = after? w r := by
  have hnot : ∀ c, isBlank c = true → c ∉ w := fun c hc hmem => by
    rw [hw.2 c hmem] at hc
    cases hc
  induction h with
  | nil => rfl
  | @cons gap x s ws _ hblank _ hrest ih =>
    rw [List.forall_mem_cons] at hno
    have hhead : ∀ c, (s ++ r).head? = some c → isBlank c = true := by
      intro c hc
      cases s with
      | nil => exact hr (List.cons_ne_nil _ _) c hc
      | cons d s => exact hrest.blank_head hc
    rw [List.append_assoc, List.append_assoc, after?_blank_append hw hblank,
      after?_append_of_not_isInfix hno.1 fun c hc => hnot c (hhead c hc)]
    exact ih hno.2 fun _ => hr (List.cons_ne_nil _ _)

theorem after?_trim (hw : IsWord w) (hlast : ∀ c, s.getLast? = some c → isBlank c = false) :
    after? w (trim s) = after? w s := by
  obtain ⟨pre, post, hpre, hpost, heq⟩ := exists_eq_append_trim s
  -- nothing is trimmed at an end that is not blank
  have hnil : post = [] := by
    cases hc : post.getLast? with
    | none => exact List.getLast?_eq_none_iff.1 hc
    | some c =>
      have hblank := hlast c (by rw [heq, List.getLast?_append, hc, Option.some_or])
      rw [List.all_eq_true.1 hpost c (List.mem_of_getLast? hc)] at hblank
      cases hblank
  rw [hnil, List.append_nil] at heq
  conv => rhs; rw [heq]
  rw [after?_blank_append hw hpre]

end

end Text
end CallPlan
