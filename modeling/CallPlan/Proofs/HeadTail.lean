import CallPlan.Proofs.Checking
/-!
# Heads and tails in whole words

The encoding of a sequence is a head and a tail, both in whole words.  The head has a piece for each value, its own encoding
or a word; the words say where the encodings of the others start, and from there these stand one behind the other to the end
(`LaidOut`).  That holds of every list of values, whether they fit any types or not, and at every depth
(`encode_laidOut`): the encoding of a sequence inside another is a stretch of the other's encoding, so it is no longer.
-/
namespace CallPlan

open Text (countLimit)

/-- **The bodies stand in `out` one behind the other from a position to the end**, each at the number beside it. -/
inductive Tiles (out : Bytes) : Nat → List (Nat × Bytes) → Prop where
  | done : Tiles out out.length []
  | body {position : Nat} {bs : Bytes} {rest : List (Nat × Bytes)} : bs <+: out.drop position →
      Tiles out (position + bs.length) rest → Tiles out position ((position, bs) :: rest)

/-- **The values that stand in a tail**: bytes, texts and arrays, whatever is in them, and a fixed array or a tuple that has such
a value among its items. -/
inductive Token.StandsInTail : Token → Prop where
  | bytes (bs : Bytes) : StandsInTail (.bytes bs)
  | string (s : String) : StandsInTail (.string s)
  | array (items : List Token) : StandsInTail (.array items)
  | fixedArray {items : List Token} {t : Token} : t ∈ items → StandsInTail t → StandsInTail (.fixedArray items)
  | tuple {items : List Token} {t : Token} : t ∈ items → StandsInTail t → StandsInTail (.tuple items)

namespace Token

theorem StandsInTail.usesOffset {t : Token} (h : t.StandsInTail) : t.usesOffset = true := by
  induction h with
  | bytes bs => rfl
  | string s => rfl
  | array items => rfl
  | fixedArray ht _ ih =>
    rw [Token.usesOffset, anyUsesOffset_eq_any, List.any_eq_true]
    exact ⟨_, ht, ih⟩
  | tuple ht _ ih =>
    rw [Token.usesOffset, anyUsesOffset_eq_any, List.any_eq_true]
    exact ⟨_, ht, ih⟩

theorem standsInTail_of_usesOffset (t : Token) (h : t.usesOffset = true) : t.StandsInTail := by
  cases t with
  | bytes bs => exact .bytes bs
  | string s => exact .string s
  | array items => exact .array items
  | fixedArray items =>
    rw [usesOffset, anyUsesOffset_eq_any, List.any_eq_true] at h
    obtain ⟨t, ht, h⟩ := h
    exact .fixedArray ht (standsInTail_of_usesOffset t h)
  | tuple items =>
    rw [usesOffset, anyUsesOffset_eq_any, List.any_eq_true] at h
    obtain ⟨t, ht, h⟩ := h
    exact .tuple ht (standsInTail_of_usesOffset t h)
  | address a => cases h
  | bool b => cases h
  | uint w => cases h
  | int w => cases h
  | fixedBytes bs => cases h
termination_by sizeOf t

/-- **The encoder gives a word to exactly the values that stand in the tail.** -/
theorem usesOffset_iff (t : Token) : t.usesOffset = true ↔ t.StandsInTail :=
  ⟨standsInTail_of_usesOffset t, StandsInTail.usesOffset⟩

instance : DecidablePred StandsInTail := fun t => decidable_of_iff _ (usesOffset_iff t)

end Token

/-- The values that stand in the tail: the number that the head has for each, and its own encoding. -/
def inTail (ts : List Token) (pieces : List Bytes) : List (Nat × Bytes) :=
  ((ts.zip pieces).filter (·.1.StandsInTail)).map fun e => (ofBigEndian e.2, e.1.encoding)

/-- What a head has for a value: its own encoding or, for a value in the tail, a word. -/
def Token.HasHead (t : Token) (piece : Bytes) : Prop :=
  (¬ t.StandsInTail → piece = t.encoding) ∧ (t.StandsInTail → piece.length = 32)

/-- **A sequence laid out with these pieces in its head.** -/
structure LaidOut (ts : List Token) (pieces : List Bytes) (out : Bytes) : Prop where
  aligned : 32 ∣ out.length
  hasHead : List.Forall₂ Token.HasHead ts pieces
  out_eq : out = pieces.flatten ++ ((ts.filter (·.StandsInTail)).map Token.encoding).flatten
  offsets_aligned : ∀ e ∈ inTail ts pieces, 32 ∣ e.1
  tiles : Tiles out pieces.flatten.length (inTail ts pieces)

/-- **A sequence in a sequence**: itself or, at any depth, the items of an array, a fixed array or a tuple. -/
inductive SequenceIn (ts : List Token) : List Token → Prop where
  | whole : SequenceIn ts ts
  | array {us items : List Token} : SequenceIn ts us → .array items ∈ us → SequenceIn ts items
  | fixedArray {us items : List Token} : SequenceIn ts us → .fixedArray items ∈ us → SequenceIn ts items
  | tuple {us items : List Token} : SequenceIn ts us → .tuple items ∈ us → SequenceIn ts items

/-! ## Whole words -/

theorem dvd_length_word (w : Word) : 32 ∣ w.bytes.length := by simp [w.length_bytes]

theorem dvd_length_padToWords (bs : Bytes) : 32 ∣ (padToWords bs).length := by
  rw [length_padToWords]
  exact Nat.dvd_mul_left 32 _

theorem dvd_length_counted (bs : Bytes) : 32 ∣ (counted bs).length := by
  rw [counted, List.length_append]
  exact Nat.dvd_add (dvd_length_word _) (dvd_length_padToWords bs)

theorem dvd_headLength : ∀ {ps : List Part}, (∀ p ∈ ps, 32 ∣ p.body.length) → 32 ∣ headLength ps
  | [], _ => Nat.dvd_zero 32
  | p :: ps, h => by
    have hp : 32 ∣ p.headLength := by
      unfold Part.headLength
      split
      · exact Nat.dvd_refl 32
      · exact h p List.mem_cons_self
    exact Nat.dvd_add hp (dvd_headLength fun q hq => h q (List.mem_cons_of_mem p hq))

theorem dvd_length_tails : ∀ {ps : List Part}, (∀ p ∈ ps, 32 ∣ p.body.length) → 32 ∣ (tails ps).length
  | [], _ => Nat.dvd_zero 32
  | p :: ps, h => by
    have hp : 32 ∣ p.tail.length := by
      unfold Part.tail
      split
      · exact h p List.mem_cons_self
      · exact Nat.dvd_zero 32
    rw [tails_cons, List.length_append]
    exact Nat.dvd_add hp (dvd_length_tails fun q hq => h q (List.mem_cons_of_mem p hq))

theorem dvd_length_layout {ps : List Part} (h : ∀ p ∈ ps, 32 ∣ p.body.length) : 32 ∣ (layout ps).length := by
  rw [length_layout]
  exact Nat.dvd_add (dvd_headLength h) (dvd_length_tails h)

namespace Token

mutual
/-- **Every value is encoded in whole words.** -/
theorem dvd_length_encoding : ∀ t : Token, 32 ∣ t.encoding.length
  | .address a => by rw [encoding]; exact dvd_length_word _
  | .bool b => by rw [encoding]; exact dvd_length_word _
  | .uint w => by rw [encoding]; exact dvd_length_word _
  | .int w => by rw [encoding]; exact dvd_length_word _
  | .fixedBytes bs => by rw [encoding]; exact dvd_length_padToWords bs
  | .bytes bs => by rw [encoding]; exact dvd_length_counted bs
  | .string s => by rw [encoding]; exact dvd_length_counted _
  | .array items => by
    rw [encoding, List.length_append]
    exact Nat.dvd_add (dvd_length_word _) (dvd_length_layout (dvd_length_parts items))
  | .fixedArray items => by rw [encoding]; exact dvd_length_layout (dvd_length_parts items)
  | .tuple items => by rw [encoding]; exact dvd_length_layout (dvd_length_parts items)

theorem dvd_length_parts : ∀ (ts : List Token), ∀ p ∈ parts ts, 32 ∣ p.body.length
  | [], _, hp => by cases hp
  | t :: ts, p, hp => by
    rcases List.mem_cons.1 hp with rfl | hp
    · exact dvd_length_encoding t
    · exact dvd_length_parts ts p hp
end

end Token

/-! ## The pieces of a head -/

/-- The head of each member, the tail of the first starting at a position. -/
def headPieces (position : Nat) : List Part → List Bytes
  | []      => []
  | p :: ps => p.head position :: headPieces (position + p.tail.length) ps

theorem flatten_headPieces : ∀ (ps : List Part) (position : Nat), (headPieces position ps).flatten = heads position ps
  | [], _ => rfl
  | p :: ps, position => by rw [headPieces, heads, List.flatten_cons, flatten_headPieces ps]

theorem forall₂_headPieces : ∀ (ts : List Token) (position : Nat),
    List.Forall₂ Token.HasHead ts (headPieces position (Token.parts ts))
  | [], _ => .nil
  | t :: ts, position => by
    refine .cons ⟨fun ht => ?_, fun ht => ?_⟩ (forall₂_headPieces ts _)
    · rw [← Token.usesOffset_iff] at ht
      simp [Part.head, ht]
    · rw [← Token.usesOffset_iff] at ht
      simp [Part.head, ht, Block.length_bytes]

theorem tails_parts_eq : ∀ ts : List Token,
    tails (Token.parts ts) = ((ts.filter (·.StandsInTail)).map Token.encoding).flatten
  | [] => rfl
  | t :: ts => by
    rw [Token.parts, tails_cons, tails_parts_eq ts]
    cases ht : t.usesOffset <;> simp [Part.tail, ← Token.usesOffset_iff, ht]

theorem inTail_cons (t : Token) (ts : List Token) (piece : Bytes) (pieces : List Bytes) :
    inTail (t :: ts) (piece :: pieces) =
      if t.usesOffset then (ofBigEndian piece, t.encoding) :: inTail ts pieces else inTail ts pieces := by
  cases ht : t.usesOffset <;> simp [inTail, ← Token.usesOffset_iff, ht]

/-- **The words in the head say where the tails start.**  The induction moves each tail from what is to come to what is in
front. -/
theorem tiles_headPieces : ∀ (ts : List Token) (front : Bytes),
    (front ++ tails (Token.parts ts)).length < Word.modulus →
      Tiles (front ++ tails (Token.parts ts)) front.length (inTail ts (headPieces front.length (Token.parts ts)))
  | [], front, _ => by
    have hnil : front ++ tails (Token.parts []) = front := List.append_nil front
    rw [hnil]
    exact .done
  | t :: ts, front, h => by
    have hparts : Token.parts (t :: ts) = t.part :: Token.parts ts := by rw [Token.parts]; rfl
    rw [hparts, tails_cons, ← List.append_assoc] at h ⊢
    have hrest := tiles_headPieces ts (front ++ t.part.tail) h
    rw [headPieces, inTail_cons]
    rw [List.length_append] at hrest
    cases ht : t.usesOffset with
    | false =>
      have hlen : t.part.tail.length = 0 := by simp [Token.part, Part.tail, ht]
      rw [hlen, Nat.add_zero] at hrest ⊢
      exact hrest
    | true =>
      have htail : t.part.tail = t.encoding := by simp [Token.part, Part.tail, ht]
      have hhead : t.part.head front.length = (Word.ofNat front.length).bytes := by simp [Token.part, Part.head, ht]
      have hfront : front.length < Word.modulus := by
        rw [List.length_append, List.length_append] at h
        omega
      have hnumber : ofBigEndian (t.part.head front.length) = front.length := by
        rw [hhead]
        exact Word.toNat_ofNat hfront
      rw [if_pos rfl, hnumber]
      rw [htail] at hrest ⊢
      refine .body ?_ hrest
      rw [List.append_assoc, List.drop_left]
      exact List.prefix_append _ _

theorem Tiles.dvd_of_mem {out : Bytes} {position : Nat} {bodies : List (Nat × Bytes)} (h : Tiles out position bodies)
    (hposition : 32 ∣ position) (hbodies : ∀ e ∈ bodies, 32 ∣ e.2.length) : ∀ e ∈ bodies, 32 ∣ e.1 := by
  induction h with
  | done => exact fun e he => by cases he
  | body hbs hrest ih =>
    intro e he
    rcases List.mem_cons.1 he with rfl | he
    · exact hposition
    · have hnext := Nat.dvd_add hposition (hbodies _ List.mem_cons_self)
      exact ih hnext (fun e' he' => hbodies e' (List.mem_cons_of_mem _ he')) e he

theorem dvd_of_mem_inTail {ts : List Token} {pieces : List Bytes} : ∀ e ∈ inTail ts pieces, 32 ∣ e.2.length := by
  intro e he
  obtain ⟨e', -, rfl⟩ := List.mem_map.1 he
  exact Token.dvd_length_encoding e'.1

/-- **One sequence is laid out as a head and a tail.** -/
theorem laidOut_encode {ts : List Token} (h : (encode ts).length < Word.modulus) :
    LaidOut ts (headPieces (headLength (Token.parts ts)) (Token.parts ts)) (encode ts) := by
  have hwords := Token.dvd_length_parts ts
  have hhead : (headPieces (headLength (Token.parts ts)) (Token.parts ts)).flatten =
      heads (headLength (Token.parts ts)) (Token.parts ts) := flatten_headPieces _ _
  have htiles := tiles_headPieces ts (heads (headLength (Token.parts ts)) (Token.parts ts)) h
  rw [length_heads] at htiles
  refine ⟨dvd_length_layout hwords, forall₂_headPieces ts _, ?_, ?_, ?_⟩
  · rw [hhead, ← tails_parts_eq]
    rfl
  · exact htiles.dvd_of_mem (dvd_headLength hwords) dvd_of_mem_inTail
  · rw [hhead, length_heads]
    exact htiles

/-! ## Sequences inside a sequence -/

theorem body_isInfix_layout {p : Part} {ps : List Part} (h : p ∈ ps) : p.body <:+: layout ps := by
  obtain ⟨pre, post, rfl⟩ := List.append_of_mem h
  unfold layout
  rw [heads_append, heads, tails_append, tails_cons]
  cases hp : p.usesOffset with
  | false =>
    have hhead : ∀ position, p.head position = p.body := fun position => by simp [Part.head, hp]
    rw [hhead]
    exact ((List.prefix_append _ _).isInfix.trans (List.suffix_append _ _).isInfix).trans
      (List.prefix_append _ _).isInfix
  | true =>
    have htail : p.tail = p.body := by simp [Part.tail, hp]
    rw [htail]
    exact ((List.prefix_append _ _).isInfix.trans (List.suffix_append _ _).isInfix).trans
      (List.suffix_append _ _).isInfix

theorem encoding_isInfix {t : Token} {ts : List Token} (h : t ∈ ts) : t.encoding <:+: encode ts := by
  have hpart : t.part ∈ ts.map Token.part := List.mem_map.2 ⟨t, h, rfl⟩
  rw [encode, Token.parts_eq_map]
  exact body_isInfix_layout hpart

theorem SequenceIn.encode_isInfix {ts us : List Token} (h : SequenceIn ts us) : encode us <:+: encode ts := by
  induction h with
  | whole => exact List.infix_refl _
  | @array us items _ hmem ih =>
    have hitems : encode items <:+: (Token.array items).encoding := by
      rw [Token.encoding]
      exact (List.suffix_append _ _).isInfix
    exact (hitems.trans (encoding_isInfix hmem)).trans ih
  | @fixedArray us items _ hmem ih =>
    have hitems := encoding_isInfix hmem
    rw [Token.encoding] at hitems
    exact hitems.trans ih
  | @tuple us items _ hmem ih =>
    have hitems := encoding_isInfix hmem
    rw [Token.encoding] at hitems
    exact hitems.trans ih

/-- **Every sequence is laid out as a head and a tail, in whole words, at every depth.**  Of a list of values whose encoding is
shorter than `2 ^ 64` bytes, take any sequence in it.  Its encoding is a stretch of the whole and laid out: a head with the
own encoding of each value that needs no offset and a word for each other, and a tail with the encodings of the others in
order, each at the position that its word says, the first right behind the head.  The items of an array are such a sequence
behind the word that counts them, those of a fixed array or a tuple are one on their own. -/
theorem encode_laidOut (ts : List Token) (h : (encode ts).length < countLimit) (us : List Token) (hus : SequenceIn ts us) :
    encode us <:+: encode ts ∧ (∃ pieces, LaidOut us pieces (encode us)) ∧
    ∀ items : List Token, (Token.array items).encoding = (Word.ofNat items.length).bytes ++ encode items ∧
      (Token.fixedArray items).encoding = encode items ∧ (Token.tuple items).encoding = encode items := by
  have hstretch := hus.encode_isInfix
  have hlen : (encode us).length < Word.modulus :=
    Nat.lt_of_le_of_lt hstretch.length_le (Nat.lt_trans h (by decide))
  refine ⟨hstretch, ⟨_, laidOut_encode hlen⟩, fun items => ⟨?_, ?_, ?_⟩⟩
  · rw [Token.encoding]; rfl
  · rw [Token.encoding]; rfl
  · rw [Token.encoding]; rfl

/-- Strings in an array in a tuple, between values that stand in place. -/
def deepStrings : List Token :=
  [.bool true, .tuple [.array [.string "ab", .string ""], .fixedBytes [7]], .fixedArray []]

theorem encode_laidOut_deepStrings :
    SequenceIn deepStrings [.string "ab", .string ""] ∧ encode [.string "ab", .string ""] <:+: encode deepStrings ∧
      ∃ pieces, LaidOut [.string "ab", .string ""] pieces (encode [.string "ab", .string ""]) := by
  have htuple : Token.tuple [.array [.string "ab", .string ""], .fixedBytes [7]] ∈ deepStrings := .tail _ (.head _)
  have hin : SequenceIn deepStrings [.string "ab", .string ""] := .array (.tuple .whole htuple) (.head _)
  obtain ⟨hstretch, hlaid, -⟩ := encode_laidOut deepStrings (by decide +kernel) _ hin
  exact ⟨hin, hstretch, hlaid⟩

end CallPlan
