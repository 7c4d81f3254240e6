import CallPlan.Text.Split
/-!
# Cutting nested text

A text is nested when its parentheses match.  `Nested P` says so, and that what stands outside all parentheses satisfies `P`.
Every pass that counts parentheses goes through a nested text and comes out at the depth at which it went in, so it stops
inside only where `P` lets it (`Nested.scan`).  What the cuts do to nested text is read off that: the commas between nested
pieces are where `pieces` cuts, and behind a nested text is where `closing?` finds the end.
-/
namespace CallPlan
namespace Text

/-- **Parentheses match, and what stands outside them satisfies `P`.** -/
inductive Nested : (Char → Prop) → List Char → Prop
  | nil {P : Char → Prop} : Nested P []
  | char {P : Char → Prop} {c : Char} {s : List Char} (not_open : c ≠ '(') (not_close : c ≠ ')') (outside : P c)
      (rest : Nested P s) : Nested P (c :: s)
  | parens {P Q : Char → Prop} {s t : List Char} (inside : Nested Q s) (rest : Nested P t) : Nested P ('(' :: (s ++ ')' :: t))

theorem depthAfter_open (d : Nat) : depthAfter d '(' = d + 1 := rfl

theorem depthAfter_close (d : Nat) : depthAfter (d + 1) ')' = d := rfl

theorem depthAfter_of_ne {c : Char} (ho : c ≠ '(') (hc : c ≠ ')') (d : Nat) : depthAfter d c = d := by
  simp [depthAfter, ho, hc]

section
variable {P Q : Char → Prop} {s t : List Char}

theorem Nested.mono (h : Nested P s) (hPQ : ∀ c, P c → Q c) : Nested Q s := by
  induction h with
  | nil => exact .nil
  | char ho hc hP _ ih => exact .char ho hc (hPQ _ hP) (ih hPQ)
  | parens hs _ _ ih => exact .parens hs (ih hPQ)

theorem Nested.append (hs : Nested P s) (ht : Nested P t) : Nested P (s ++ t) := by
  induction hs with
  | nil => exact ht
  | char ho hc hP _ ih => exact .char ho hc hP (ih ht)
  | parens hin _ _ ih =>
    rw [List.cons_append, List.append_assoc, List.cons_append]
    exact .parens hin (ih ht)

/-- Parentheses that match are not outside themselves. -/
theorem Nested.outside_ne (h : Nested P s) : Nested (fun c => c ≠ '(' ∧ c ≠ ')') s := by
  induction h with
  | nil => exact .nil
  | char ho hc _ _ ih => exact .char ho hc ⟨ho, hc⟩ ih
  | parens hs _ _ ih => exact .parens hs ih

theorem nested_of_forall : ∀ {s : List Char}, (∀ c ∈ s, c ≠ '(' ∧ c ≠ ')' ∧ P c) → Nested P s
  | [], _ => .nil
  | c :: s, h => by
    obtain ⟨ho, hc, hP⟩ := h c List.mem_cons_self
    exact .char ho hc hP (nested_of_forall fun x hx => h x (List.mem_cons_of_mem c hx))

theorem Nested.head_cases (h : Nested P s) {c : Char} (hc : s.head? = some c) : c = '(' ∨ P c := by
  cases h with
  | nil => cases hc
  | char _ _ hP _ =>
    cases hc
    exact .inr hP
  | parens _ _ =>
    cases hc
    exact .inl rfl

theorem Nested.getLast_cases (h : Nested P s) {c : Char} (hc : s.getLast? = some c) : c = ')' ∨ P c := by
  induction h with
  | nil => cases hc
  | @char P x s _ _ hP _ ih =>
    rw [List.getLast?_cons] at hc
    cases hs : s.getLast? with
    | none =>
      rw [hs] at hc
      cases hc
      exact .inr hP
    | some y =>
      rw [hs] at hc
      exact ih (hs.trans hc)
  | @parens P Q s t _ _ _ ih =>
    rw [← List.cons_append, List.getLast?_append, List.getLast?_cons] at hc
    cases ht : t.getLast? with
    | none =>
      rw [ht] at hc
      cases hc
      exact .inl rfl
    | some y =>
      rw [ht] at hc
      exact ih (ht.trans hc)

/-- **A pass over nested text ends at the depth at which it began**, having put each character in front of what it makes of the
rest, if at depth zero it stops only at characters `S` that do not stand outside parentheses. -/
theorem Nested.scan {α : Type} {F : Nat → List Char → α} {G : Char → α → α} {S : Char → Prop} (hopen : ¬ S '(')
    (step : ∀ d c s, (d = 0 → ¬ S c) → F d (c :: s) = G c (F (depthAfter d c) s)) (h : Nested P s) :
    ∀ (d : Nat) (r : List Char), (d = 0 → ∀ c, P c → ¬ S c) → F d (s ++ r) = s.foldr G (F d r) := by
  induction h with
  | nil =>
    intro d r _
    rfl
  | char ho hc hP _ ih =>
    intro d r hd
    rw [List.cons_append, step d _ _ fun h0 => hd h0 _ hP, depthAfter_of_ne ho hc, ih d r hd]
    rfl
  | @parens P Q s t _ _ ihs iht =>
    intro d r hd
    have hclose : F (d + 1) (')' :: (t ++ r)) = G ')' (t.foldr G (F d r)) := by
      rw [step _ _ _ fun h0 => absurd h0 (Nat.succ_ne_zero d), depthAfter_close, iht d r hd]
    rw [List.cons_append, List.append_assoc, List.cons_append, step d _ _ fun _ => hopen, depthAfter_open,
      ihs (d + 1) _ fun h0 => absurd h0 (Nat.succ_ne_zero d), hclose, List.foldr_cons, List.foldr_append, List.foldr_cons]

theorem count_close_open (l : List Char) : ('(' :: l).count ')' = l.count ')' := List.count_cons_of_ne (by decide)

theorem count_open_close (l : List Char) : (')' :: l).count '(' = l.count '(' := List.count_cons_of_ne (by decide)

theorem Nested.count_eq (h : Nested P s) : s.count '(' = s.count ')' := by
  induction h with
  | nil => rfl
  | char ho hc _ _ ih => simp [ho, hc, ih]
  | parens _ _ ihs iht =>
    simp only [List.count_append, List.count_cons_self, count_close_open, count_open_close, ihs, iht]
    omega

/-- **No start of a nested text closes more parentheses than it opens.** -/
theorem Nested.count_le (h : Nested P s) : ∀ {a b : List Char}, s = a ++ b → a.count ')' ≤ a.count '(' := by
  induction h with
  | nil =>
    intro a b heq
    simp [(List.append_eq_nil_iff.1 heq.symm).1]
  | char ho hc _ _ ih =>
    intro a b heq
    rcases List.cons_eq_append_iff.1 heq with ⟨rfl, -⟩ | ⟨a, rfl, hrest⟩
    · simp
    · simpa [List.count_cons, ho, hc] using ih hrest
  | @parens P Q s t hs _ ihs iht =>
    intro a b heq
    rcases List.cons_eq_append_iff.1 heq with ⟨rfl, -⟩ | ⟨a, rfl, hrest⟩
    · simp
    · rw [List.count_cons_self, count_close_open]
      -- the start ends inside the parentheses, or behind the one that closes
      rcases List.append_eq_append_iff.1 hrest with ⟨u, rfl, hu⟩ | ⟨u, hu, -⟩
      · rw [List.count_append, List.count_append, hs.count_eq]
        rcases List.cons_eq_append_iff.1 hu with ⟨rfl, -⟩ | ⟨v, rfl, hv⟩
        · simp
        · have hbehind := iht hv
          rw [List.count_cons_self, count_open_close]
          omega
      · exact Nat.le_succ_of_le (ihs hu)

/-- A parenthesis in front of nested text is not closed by it. -/
theorem Nested.not_append_open (h : Nested Q t) (a : List Char) : ¬ Nested P (a ++ '(' :: t) := by
  intro hall
  have hle := hall.count_le rfl
  have heq := hall.count_eq
  rw [List.count_append, List.count_append, List.count_cons_self, count_close_open, h.count_eq] at heq
  omega

end

/-! ## Pieces -/

section
variable {P : Char → Prop} {s : List Char}

theorem foldr_consHead (p : List Char) (ps : List (List Char)) : ∀ s : List Char, s.foldr consHead (p :: ps) = (s ++ p) :: ps
  | [] => rfl
  | c :: s => by rw [List.foldr_cons, foldr_consHead p ps s, consHead, List.cons_append]

theorem Nested.piecesAt_append (h : Nested P s) (hP : ∀ c, P c → c ≠ ',') (r : List Char) :
    piecesAt 0 (s ++ r) = s.foldr consHead (piecesAt 0 r) := by
  refine h.scan (S := (· = ',')) (by decide) (fun d c s hstop => ?_) 0 r fun _ => hP
  rw [piecesAt, if_neg fun hc => hstop hc.2 hc.1]

theorem piecesAt_ne_nil (d : Nat) (s : List Char) : piecesAt d s ≠ [] := by
  cases s with
  | nil => exact List.cons_ne_nil _ _
  | cons c s =>
    rw [piecesAt]
    split
    · exact List.cons_ne_nil _ _
    · cases piecesAt (depthAfter d c) s <;> exact List.cons_ne_nil _ _

/-- **The pieces with commas between them are the text**, whatever its parentheses. -/
theorem joinWith_piecesAt : ∀ (s : List Char) (d : Nat), joinWith [','] (piecesAt d s) = s
  | [], _ => rfl
  | c :: s, d => by
    rw [piecesAt]
    split
    · rename_i hc
      have ih := joinWith_piecesAt s d
      obtain ⟨p, ps, hps⟩ := List.exists_cons_of_ne_nil (piecesAt_ne_nil d s)
      rw [hps] at ih ⊢
      rw [joinWith, ih, hc.1]
      rfl
    · have ih := joinWith_piecesAt s (depthAfter d c)
      obtain ⟨p, ps, hps⟩ := List.exists_cons_of_ne_nil (piecesAt_ne_nil (depthAfter d c) s)
      rw [hps] at ih ⊢
      cases ps with
      | nil => rw [consHead, joinWith, ← ih, joinWith]
      | cons q ps => rw [consHead, joinWith, ← ih, joinWith]; rfl

theorem pieces_eq_nil_iff : pieces s = [] ↔ s.all isBlank = true := by
  unfold pieces
  split
  · rename_i h
    simp [h]
  · rename_i h
    simp [h, piecesAt_ne_nil]

/-- **A nested text without commas outside is one piece.** -/
theorem Nested.pieces_eq (h : Nested (· ≠ ',') s) (hs : s.all isBlank = false) : pieces s = [s] := by
  have hp := h.piecesAt_append (fun _ hc => hc) []
  rw [List.append_nil, piecesAt, foldr_consHead, List.append_nil] at hp
  rw [pieces, hs]
  exact hp

/-- **A comma behind a nested text ends a piece.** -/
theorem Nested.pieces_append (h : Nested (· ≠ ',') s) (hs : s.all isBlank = false) {r : List Char}
    (hr : r.all isBlank = false) : pieces (s ++ ',' :: r) = s :: pieces r := by
  have hcomma : piecesAt 0 (',' :: r) = [] :: piecesAt 0 r := by rw [piecesAt, if_pos ⟨rfl, rfl⟩]
  have hp := h.piecesAt_append (fun _ hc => hc) (',' :: r)
  rw [hcomma, foldr_consHead, List.append_nil] at hp
  rw [pieces, pieces, List.all_append, hs, hr]
  exact hp

theorem all_blank_joinWith {p : List Char} (ps : List (List Char)) (hp : p.all isBlank = false) :
    (joinWith [','] (p :: ps)).all isBlank = false := by
  cases ps with
  | nil => exact hp
  | cons q ps => rw [joinWith, List.append_assoc, List.all_append, hp, Bool.false_and]

/-- **Nested texts with commas between them are cut apart again.** -/
theorem pieces_joinWith : ∀ {ps : List (List Char)}, (∀ p ∈ ps, Nested (· ≠ ',') p ∧ p.all isBlank = false) →
    pieces (joinWith [','] ps) = ps
  | [], _ => rfl
  | [p], h => by
    obtain ⟨hp, hblank⟩ := h p List.mem_cons_self
    exact hp.pieces_eq hblank
  | p :: q :: ps, h => by
    obtain ⟨hp, hblank⟩ := h p List.mem_cons_self
    have hrest : ∀ x ∈ q :: ps, Nested (· ≠ ',') x ∧ x.all isBlank = false := fun x hx => h x (List.mem_cons_of_mem p hx)
    rw [joinWith, List.append_assoc, List.singleton_append,
      hp.pieces_append hblank (all_blank_joinWith ps (hrest q List.mem_cons_self).2), pieces_joinWith hrest]

/-- **A nested text is what an open parenthesis in front of it encloses.** -/
theorem Nested.closing?_eq (h : Nested P s) (r : List Char) : closing? 0 (s ++ ')' :: r) = some (s, r) := by
  have hscan : closing? 0 (s ++ ')' :: r) =
      s.foldr (fun c o => o.map fun ab => (c :: ab.1, ab.2)) (closing? 0 (')' :: r)) := by
    refine h.outside_ne.scan (S := (· = ')')) (by decide) (fun d c s hstop => ?_) 0 _ fun _ c hc => hc.2
    exact if_neg fun hc => hstop hc.2 hc.1
  rw [hscan, closing?, if_pos ⟨rfl, rfl⟩]
  clear hscan h
  induction s with
  | nil => rfl
  | cons c s ih => rw [List.foldr_cons, ih]; rfl

end

/-! ## Cuts at one character -/

section
variable {c : Char} {s r a b : List Char}

theorem stripEnd?_eq_some_iff : stripEnd? c s = some r ↔ s = r ++ [c] := by
  unfold stripEnd?
  rcases List.eq_nil_or_concat s with rfl | ⟨l, x, rfl⟩
  · simp
  · by_cases hx : x = c
    · simp [hx]
    · simp [hx]

theorem splitLast?_eq_none (h : c ∉ s) : splitLast? c s = none := by
  induction s with
  | nil => rfl
  | cons x s ih =>
    obtain ⟨hx, hs⟩ := List.ne_and_not_mem_of_not_mem_cons h
    rw [splitLast?, ih hs]
    exact if_neg (Ne.symm hx)

theorem splitLast?_append (h : c ∉ b) : ∀ a : List Char, splitLast? c (a ++ c :: b) = some (a, b)
  | [] => by
    rw [List.nil_append, splitLast?, splitLast?_eq_none h]
    exact if_pos rfl
  | x :: a => by rw [List.cons_append, splitLast?, splitLast?_append h a]

theorem splitFirst?_append (h : c ∉ a) : splitFirst? c (a ++ c :: b) = some (a, b) := by
  induction a with
  | nil => simp [splitFirst?]
  | cons x a ih =>
    obtain ⟨hx, ha⟩ := List.ne_and_not_mem_of_not_mem_cons h
    rw [List.cons_append, splitFirst?, if_neg (Ne.symm hx), ih ha]
    rfl

/-- **A text ends at the first mark, whatever stands behind.** -/
theorem append_mark_inj {a' b' : List Char} (h : c ∉ a) (h' : c ∉ a') :
    a ++ c :: b = a' ++ c :: b' ↔ a = a' ∧ b = b' := by
  constructor
  · intro heq
    have hsplit := splitFirst?_append (b := b) h
    rw [heq, splitFirst?_append h'] at hsplit
    obtain ⟨ha, hb⟩ := Prod.mk.inj (Option.some.inj hsplit)
    exact ⟨ha.symm, hb.symm⟩
  · rintro ⟨rfl, rfl⟩
    rfl

theorem eq_of_splitFirst? : ∀ {s a b : List Char}, splitFirst? c s = some (a, b) → s = a ++ c :: b
  | [], _, _, h => by cases h
  | x :: s, a, b, h => by
    rw [splitFirst?] at h
    split at h
    · rename_i hx
      cases h
      rw [hx, List.nil_append]
    · obtain ⟨⟨a', b'⟩, hs, heq⟩ := Option.map_eq_some_iff.1 h
      cases heq
      rw [eq_of_splitFirst? hs, List.cons_append]

end

theorem after?_append (w r : List Char) : after? w (w ++ r) = some r := by
  have hdrop := (dropWord?_eq_some_iff w (w ++ r) r).2 rfl
  cases hs : w ++ r with
  | nil =>
    rw [hs] at hdrop
    rw [after?, hdrop]
  | cons c s =>
    rw [hs] at hdrop
    rw [after?, hdrop]

/-! ## Trimming -/

/-- **A text with no blank at either end.** -/
def Solid (s : List Char) : Prop :=
  s ≠ [] ∧ (∀ c, s.head? = some c → isBlank c = false) ∧ ∀ c, s.getLast? = some c → isBlank c = false

section
variable {P : Char → Prop} {s pre post : List Char}

theorem Nested.solid (h : Nested P s) (hP : ∀ c, P c → isBlank c = false) (hne : s ≠ []) : Solid s := by
  refine ⟨hne, fun c hc => ?_, fun c hc => ?_⟩
  · rcases h.head_cases hc with rfl | hc
    · rfl
    · exact hP c hc
  · rcases h.getLast_cases hc with rfl | hc
    · rfl
    · exact hP c hc

theorem dropWhile_blank_append {t : List Char} (hpre : pre.all isBlank = true)
    (ht : ∀ c, t.head? = some c → isBlank c = false) : (pre ++ t).dropWhile isBlank = t := by
  rw [List.dropWhile_append_of_pos (List.all_eq_true.1 hpre)]
  cases t with
  | nil => rfl
  | cons c t => rw [List.dropWhile_cons_of_neg (by simp [ht c rfl])]

/-- **Trimming takes the blanks at the ends and nothing else.** -/
theorem Solid.trim_eq (h : Solid s) (hpre : pre.all isBlank = true) (hpost : post.all isBlank = true) :
    trim (pre ++ s ++ post) = s := by
  obtain ⟨hne, hhead, hlast⟩ := h
  have hstart : trimStart (pre ++ s ++ post) = s ++ post := by
    rw [trimStart, List.append_assoc]
    refine dropWhile_blank_append hpre fun c hc => hhead c ?_
    obtain ⟨x, t, rfl⟩ := List.exists_cons_of_ne_nil hne
    exact hc
  have hend : trimEnd (s ++ post) = s := by
    rw [trimEnd, List.reverse_append, dropWhile_blank_append (by simpa using hpost) (by simpa using hlast), List.reverse_reverse]
  rw [trim, hstart, hend]

theorem Solid.trim_self (h : Solid s) : trim s = s := by
  have htrim : trim ([] ++ s ++ []) = s := h.trim_eq rfl rfl
  simpa using htrim

theorem solid_of_ends {c d : Char} (m : List Char) (hc : isBlank c = false) (hd : isBlank d = false) :
    Solid (c :: (m ++ [d])) := by
  refine ⟨List.cons_ne_nil _ _, fun x hx => ?_, fun x hx => ?_⟩
  · cases hx
    exact hc
  · rw [← List.cons_append, List.getLast?_concat] at hx
    cases hx
    exact hd

theorem solid_of_forall (hne : s ≠ []) (h : ∀ c ∈ s, isBlank c = false) : Solid s :=
  ⟨hne, fun c hc => h c (List.mem_of_head? hc), fun c hc => h c (List.mem_of_getLast? hc)⟩

theorem Solid.all_blank (h : Solid s) : s.all isBlank = false := by
  obtain ⟨hne, hhead, -⟩ := h
  obtain ⟨c, t, rfl⟩ := List.exists_cons_of_ne_nil hne
  rw [List.all_cons, hhead c rfl, Bool.false_and]

/-- **What trimming takes is blank.** -/
theorem exists_eq_append_trim (s : List Char) :
    ∃ pre post, pre.all isBlank = true ∧ post.all isBlank = true ∧ s = pre ++ trim s ++ post := by
  refine ⟨s.takeWhile isBlank, ((trimStart s).reverse.takeWhile isBlank).reverse, List.all_takeWhile, ?_, ?_⟩
  · rw [List.all_reverse]
    exact List.all_takeWhile
  · have hend : trimEnd (trimStart s) ++ ((trimStart s).reverse.takeWhile isBlank).reverse = trimStart s := by
      rw [trimEnd, ← List.reverse_append, List.takeWhile_append_dropWhile, List.reverse_reverse]
    rw [List.append_assoc, trim, hend]
    exact List.takeWhile_append_dropWhile.symm

/-- **What is left after trimming is nothing or has no blank at either end.** -/
theorem trim_cases (s : List Char) : trim s = [] ∨ Solid (trim s) := by
  by_cases hnil : trim s = []
  · exact .inl hnil
  · refine .inr ⟨hnil, fun c hc => ?_, fun c hc => ?_⟩
    · -- the first character stands first before the end is trimmed, too
      obtain ⟨post, hpost⟩ : trim s <+: trimStart s := by
        rw [← List.reverse_suffix, trim, trimEnd, List.reverse_reverse]
        exact List.dropWhile_suffix isBlank
      have hhead : (trimStart s).head? = some c := by rw [← hpost, List.head?_append, hc, Option.some_or]
      have hnot := List.head?_dropWhile_not isBlank s
      rw [trimStart] at hhead
      rwa [hhead] at hnot
    · rw [trim, trimEnd, List.getLast?_reverse] at hc
      have hnot := List.head?_dropWhile_not isBlank (trimStart s).reverse
      rwa [hc] at hnot

theorem eq_nil_of_trim_eq {r : List Char} (hpre : pre.all isBlank = true) (h : trim s = pre ++ r) : pre = [] := by
  cases pre with
  | nil => rfl
  | cons c pre =>
    rcases trim_cases s with hnil | hsolid
    · simp [hnil] at h
    · have hhead := hsolid.2.1 c (by rw [h]; rfl)
      rw [List.all_cons, hhead] at hpre
      cases hpre

theorem trim_trim (s : List Char) : trim (trim s) = trim s := by
  rcases trim_cases s with h | h
  · rw [h]
    rfl
  · exact h.trim_self

theorem mem_trim_iff {c : Char} (hc : isBlank c = false) : c ∈ trim s ↔ c ∈ s := by
  obtain ⟨pre, post, hpre, hpost, heq⟩ := exists_eq_append_trim s
  have hno : ∀ l : List Char, l.all isBlank = true → c ∉ l := fun l hl hmem => by
    rw [List.all_eq_true.1 hl c hmem] at hc
    cases hc
  constructor
  · intro h
    rw [heq]
    simp [h]
  · intro h
    rw [heq] at h
    simpa [hno pre hpre, hno post hpost] using h

end

end Text
end CallPlan
