/-!
# Tables

A table is a list of keys with their values.  A key that is there keeps its place when its value changes and a new key goes to
the end, so the keys stand once each, in the order in which they first came.
-/
namespace CallPlan
namespace Table

section
variable {α β : Type} [DecidableEq α]

/-- Changes the value of a key, or gives it one. -/
def alter (k : α) (change : Option β → β) : List (α × β) → List (α × β)
  | []          => [(k, change none)]
  | (a, b) :: t => if a = k then (a, change (some b)) :: t else (a, b) :: alter k change t

def insert (k : α) (b : β) (t : List (α × β)) : List (α × β) := alter k (fun _ => b) t

variable {k : α} {change : Option β → β}

theorem lookup_alter [BEq α] [LawfulBEq α] (a k : α) (change : Option β → β) : ∀ t : List (α × β),
    (alter k change t).lookup a = if a = k then some (change (t.lookup k)) else t.lookup a
  | [] => by
    by_cases h : a = k
    · simp [alter, h]
    · simp [alter, List.lookup_cons, beq_eq_false_iff_ne.2 h, h]
  | (b, v) :: t => by
    unfold alter
    by_cases hb : b = k
    · subst hb
      by_cases h : a = b
      · simp [h]
      · simp [List.lookup_cons, beq_eq_false_iff_ne.2 h, h]
    · rw [if_neg hb, List.lookup_cons, List.lookup_cons, lookup_alter a k change t]
      by_cases h : a = b
      · subst h; simp [hb]
      · simp [List.lookup_cons, beq_eq_false_iff_ne.2 h, beq_eq_false_iff_ne.2 (Ne.symm hb)]

theorem map_fst_alter (k : α) (change : Option β → β) : ∀ t : List (α × β),
    (alter k change t).map Prod.fst = if k ∈ t.map Prod.fst then t.map Prod.fst else t.map Prod.fst ++ [k]
  | [] => by simp [alter]
  | (b, v) :: t => by
    unfold alter
    by_cases hb : b = k
    · simp [hb]
    · rw [if_neg hb, List.map_cons, map_fst_alter k change t]
      simp only [List.map_cons, List.mem_cons, Ne.symm hb, false_or]
      split <;> simp

theorem alter_of_not_mem : ∀ {t : List (α × β)}, k ∉ t.map Prod.fst → alter k change t = t ++ [(k, change none)]
  | [], _ => rfl
  | (b, v) :: t, h => by
    obtain ⟨hb, ht⟩ : k ≠ b ∧ k ∉ t.map Prod.fst := by simpa using h
    rw [alter, if_neg (Ne.symm hb), alter_of_not_mem ht, List.cons_append]

/-- **A table of a function of its keys stays one when a value changes.** -/
theorem alter_map_of_mem (v : α → β) : ∀ {ks : List α}, ks.Nodup → k ∈ ks →
    alter k change (ks.map fun a => (a, v a)) = ks.map fun a => (a, if a = k then change (some (v a)) else v a)
  | [], _, hk => by cases hk
  | b :: ks, hnodup, hk => by
    obtain ⟨hb, hks⟩ := List.nodup_cons.1 hnodup
    rw [List.map_cons, List.map_cons, alter]
    by_cases hbk : b = k
    · have hrest : ∀ a ∈ ks, a ≠ k := fun a ha hak => hb (hbk.trans hak.symm ▸ ha)
      rw [if_pos hbk, if_pos hbk]
      exact congrArg _ (List.map_congr_left fun a ha => by rw [if_neg (hrest a ha)])
    · have hmem : k ∈ ks := (List.mem_cons.1 hk).resolve_left (Ne.symm hbk)
      rw [if_neg hbk, if_neg hbk, alter_map_of_mem v hks hmem]

theorem lookup_map [BEq α] [LawfulBEq α] (v : α → β) (a : α) : ∀ ks : List α,
    (ks.map fun b => (b, v b)).lookup a = if a ∈ ks then some (v a) else none
  | [] => rfl
  | b :: ks => by
    rw [List.map_cons, List.lookup_cons, lookup_map v a ks]
    by_cases h : a = b
    · simp [h]
    · simp [beq_eq_false_iff_ne.2 h, h]

theorem nodup_map_fst_alter {t : List (α × β)} (h : (t.map Prod.fst).Nodup) : ((alter k change t).map Prod.fst).Nodup := by
  rw [map_fst_alter]
  split
  · exact h
  · rename_i hk
    refine List.nodup_append.2 ⟨h, List.nodup_cons.2 ⟨List.not_mem_nil, List.nodup_nil⟩, fun a ha b hb heq => hk ?_⟩
    rwa [← List.mem_singleton.1 hb, ← heq]

theorem lookup_insert [BEq α] [LawfulBEq α] (a k : α) (b : β) (t : List (α × β)) :
    (insert k b t).lookup a = if a = k then some b else t.lookup a := lookup_alter a k _ t

theorem map_fst_insert (k : α) (b : β) (t : List (α × β)) :
    (insert k b t).map Prod.fst = if k ∈ t.map Prod.fst then t.map Prod.fst else t.map Prod.fst ++ [k] :=
  map_fst_alter k _ t

end
end Table

/-! ## Keys that stand once -/

section
variable {α β : Type} [BEq α] [LawfulBEq α]

/-- **Where every key stands once, looking it up finds its entry.** -/
theorem Table.lookup_eq_some_iff_mem {a : α} {b : β} : ∀ {l : List (α × β)},
    (l.map Prod.fst).Nodup → (l.lookup a = some b ↔ (a, b) ∈ l)
  | [], _ => by simp
  | (k, c) :: l, hnd => by
    obtain ⟨hk, hl⟩ := List.nodup_cons.1 hnd
    rw [List.lookup_cons]
    by_cases h : a = k
    · subst h
      have hne : (a, b) ∉ l := fun hm => hk (List.mem_map.2 ⟨_, hm, rfl⟩)
      simp [hne, eq_comm]
    · rw [beq_eq_false_iff_ne.2 h]
      simp only [lookup_eq_some_iff_mem hl, List.mem_cons, Prod.mk.injEq, h, false_and, false_or]

theorem nodup_eraseDups : ∀ l : List α, l.eraseDups.Nodup
  | [] => List.nodup_nil
  | a :: l => by
    rw [List.eraseDups_cons]
    refine List.nodup_cons.2 ⟨fun h => ?_, nodup_eraseDups _⟩
    simpa using (List.mem_filter.1 (List.mem_eraseDups.1 h)).2
termination_by l => l.length
decreasing_by exact Nat.lt_succ_of_le (List.length_filter_le _ _)

theorem eraseDups_concat (l : List α) (a : α) [Decidable (a ∈ l.eraseDups)] :
    (l ++ [a]).eraseDups = if a ∈ l.eraseDups then l.eraseDups else l.eraseDups ++ [a] := by
  rw [List.eraseDups_append]
  by_cases h : a ∈ l
  · simp [List.removeAll, h]
  · simp [List.removeAll, h, List.eraseDups_cons]

end
end CallPlan
