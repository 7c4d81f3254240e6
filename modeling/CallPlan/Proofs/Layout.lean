import CallPlan.Abi.Decoding
import CallPlan.Abi.Layout
/-!
# Where a layout puts its members

The head of a member starts behind the heads before it.  A member in the tail starts behind all heads and the tails before
it, and that is what its offset word says.  Either way `seek?` at the member's head leads to the member (`seek?_layout`).
-/
namespace CallPlan

/-! ## Words and counted bytes at the front -/

theorem frontWord?_append (w : Word) (rest : Bytes) : frontWord? (w.bytes ++ rest) = some w := by
  unfold frontWord?
  rw [List.take_left' w.length_bytes, Block.ofBytes?_bytes]

theorem frontNat?_append {n : Nat} (h : n < Word.modulus) (rest : Bytes) :
    frontNat? ((Word.ofNat n).bytes ++ rest) = some n := by
  rw [frontNat?, frontWord?_append, Option.map_some, Word.toNat_ofNat h]

theorem front?_padToWords (bs rest : Bytes) : front? bs.length (padToWords bs ++ rest) = some bs := by
  unfold front? padToWords
  rw [List.append_assoc, List.take_left, List.length_append, if_neg (by omega)]

theorem countedFront?_counted {bs : Bytes} (h : bs.length < Word.modulus) (rest : Bytes) :
    countedFront? (counted bs ++ rest) = some bs := by
  unfold countedFront? counted
  rw [List.append_assoc, frontNat?_append h, Option.bind_some, List.drop_left' (Word.ofNat bs.length).length_bytes,
    front?_padToWords]

theorem length_padToWords (bs : Bytes) : (padToWords bs).length = (bs.length + 31) / 32 * 32 := by
  unfold padToWords
  rw [List.length_append, List.length_replicate]
  omega

/-! ## Heads and tails -/

theorem headLength_append : ∀ ps qs : List Part, headLength (ps ++ qs) = headLength ps + headLength qs
  | [], qs => by simp [headLength]
  | p :: ps, qs => by rw [List.cons_append, headLength, headLength, headLength_append ps qs, Nat.add_assoc]

theorem tails_cons (p : Part) (ps : List Part) : tails (p :: ps) = p.tail ++ tails ps := List.flatMap_cons

theorem tails_append (ps qs : List Part) : tails (ps ++ qs) = tails ps ++ tails qs := List.flatMap_append

theorem Part.length_head (p : Part) (position : Nat) : (p.head position).length = p.headLength := by
  unfold Part.head Part.headLength
  split
  · exact (Word.ofNat position).length_bytes
  · rfl

theorem length_heads : ∀ (ps : List Part) (position : Nat), (heads position ps).length = headLength ps
  | [], _ => rfl
  | p :: ps, position => by rw [heads, headLength, List.length_append, p.length_head, length_heads ps]

theorem heads_append : ∀ (ps qs : List Part) (position : Nat),
    heads position (ps ++ qs) = heads position ps ++ heads (position + (tails ps).length) qs
  | [], qs, position => by simp [heads, tails]
  | p :: ps, qs, position => by
    rw [List.cons_append, heads, heads, heads_append ps qs, tails_cons, List.length_append, List.append_assoc,
      Nat.add_assoc]

theorem length_layout (ps : List Part) : (layout ps).length = headLength ps + (tails ps).length := by
  rw [layout, List.length_append, length_heads]

theorem Part.length_body_le (p : Part) : p.body.length ≤ p.headLength + p.tail.length := by
  unfold Part.headLength Part.tail
  split
  · exact Nat.le_add_left _ _
  · exact Nat.le_add_right _ _

theorem length_body_le {p : Part} {ps : List Part} (h : p ∈ ps) : p.body.length ≤ (layout ps).length := by
  obtain ⟨pre, post, rfl⟩ := List.append_of_mem h
  have hp := p.length_body_le
  rw [length_layout, headLength_append, tails_append, tails_cons, headLength, List.length_append, List.length_append]
  omega

/-! ## Finding a member -/

theorem drop_heads (pre post : List Part) (p : Part) (rest : Bytes) :
    (layout (pre ++ p :: post) ++ rest).drop (headLength pre) =
      p.head (headLength (pre ++ p :: post) + (tails pre).length) ++
        (heads (headLength (pre ++ p :: post) + (tails pre).length + p.tail.length) post ++
          (tails (pre ++ p :: post) ++ rest)) := by
  rw [layout, heads_append, heads, List.append_assoc, List.append_assoc, List.drop_left' (length_heads _ _),
    List.append_assoc]

theorem drop_tails (pre post : List Part) (p : Part) (rest : Bytes) :
    (layout (pre ++ p :: post) ++ rest).drop (headLength (pre ++ p :: post) + (tails pre).length) =
      p.tail ++ (tails post ++ rest) := by
  rw [layout, tails_append, tails_cons, List.append_assoc, ← List.drop_drop, List.drop_left' (length_heads _ _),
    List.append_assoc, List.drop_left, List.append_assoc]

/-- **The head of a member leads to the member**, in place or through its offset word. -/
theorem seek?_layout {pre post : List Part} {p : Part} (h : (layout (pre ++ p :: post)).length < Word.modulus) (rest : Bytes) :
    ∃ behind, seek? p.usesOffset (layout (pre ++ p :: post) ++ rest) (headLength pre) = some (p.body ++ behind) := by
  unfold seek?
  rw [drop_heads]
  cases hp : p.usesOffset with
  | false =>
    have hhead : ∀ position, p.head position = p.body := fun position => by simp [Part.head, hp]
    exact ⟨_, by rw [if_neg Bool.false_ne_true, hhead]⟩
  | true =>
    -- the offset counts the heads and the tails before the member, so it lies in the layout
    have hoffset : headLength (pre ++ p :: post) + (tails pre).length < Word.modulus := by
      rw [length_layout, tails_append, List.length_append] at h
      omega
    have hhead : ∀ position, p.head position = (Word.ofNat position).bytes := fun position => by simp [Part.head, hp]
    have htail : p.tail = p.body := by simp [Part.tail, hp]
    refine ⟨tails post ++ rest, ?_⟩
    rw [if_pos rfl, hhead, frontNat?_append hoffset, Option.map_some, drop_tails, htail]

end CallPlan
