import CallPlan.Proofs.Checking
/-!
# Reading back what was laid out

Reading a layout at the types of its values gives the values back, so the bytes tell the values apart (`decode_encode`).  The
tag of an integer is not in the bytes; `untagged` leaves it out.  A count is, as long as it is less than a word can hold:
`countsFit` says so of the arrays, whose items need not take any bytes.  For everything else the length of the layout does.
-/
namespace CallPlan

open Text (countLimit)
open Token (Fits)

namespace Token

mutual
/-- The value without the tags of its integers. -/
def untagged : Token → Token
  | .int w            => .uint w
  | .array items      => .array (untaggedAll items)
  | .fixedArray items => .fixedArray (untaggedAll items)
  | .tuple items      => .tuple (untaggedAll items)
  | t                 => t

def untaggedAll : List Token → List Token
  | []      => []
  | t :: ts => t.untagged :: untaggedAll ts
end

mutual
/-- Whether a word can hold the number of items of every array. -/
def countsFit : Token → Bool
  | .array items                     => decide (items.length < Word.modulus) && allCountsFit items
  | .fixedArray items | .tuple items => allCountsFit items
  | _                                => true

def allCountsFit : List Token → Bool
  | []      => true
  | t :: ts => t.countsFit && allCountsFit ts
end

theorem allCountsFit_iff : ∀ {ts : List Token}, allCountsFit ts = true ↔ ∀ t ∈ ts, t.countsFit = true
  | [] => by simp [allCountsFit]
  | t :: ts => by rw [allCountsFit, Bool.and_eq_true, allCountsFit_iff, List.forall_mem_cons]

theorem length_encoding_le {t : Token} {ts : List Token} (h : t ∈ ts) : t.encoding.length ≤ (layout (parts ts)).length := by
  have hpart : t.part ∈ ts.map part := List.mem_map.2 ⟨t, h, rfl⟩
  rw [parts_eq_map]
  exact length_body_le hpart

end Token

/-! ## Sequences -/

/-- **The reader finds the value at the front of bytes**, whatever stands behind its encoding. -/
def Finds (read : Bytes → Option Token) (t : Token) : Prop :=
  ∀ rest, ∃ t', read (t.encoding ++ rest) = some t' ∧ t'.untagged = t.untagged

/-- **Values that can be found can be found in a layout**, one after the other behind members that were read before. -/
theorem decodeFrom_layout : ∀ {tys : List AbiType} {ts : List Token} (pre : List Part) (rest : Bytes),
    List.Forall₂ (fun t ty => t.Fits ty ∧ Finds ty.decodeFront t) ts tys →
    (layout (pre ++ Token.parts ts)).length < Word.modulus →
    ∃ ts', AbiType.decodeFrom (layout (pre ++ Token.parts ts) ++ rest) (headLength pre) tys = some ts' ∧
      Token.untaggedAll ts' = Token.untaggedAll ts
  | _, _, pre, rest, .nil, _ => ⟨[], rfl, rfl⟩
  | ty :: tys, t :: ts, pre, rest, .cons ⟨hfit, hfind⟩ hs, hlen => by
    have hmove : pre ++ Token.parts (t :: ts) = pre ++ [t.part] ++ Token.parts ts := by
      rw [Token.parts, List.append_assoc]
      rfl
    have hnext : headLength pre + ty.headSize = headLength (pre ++ [t.part]) := by
      rw [headLength_append, ← headLength_part hfit]
      rfl
    obtain ⟨behind, hseek⟩ := seek?_layout hlen rest
    obtain ⟨t', ht', htag⟩ := hfind behind
    rw [hmove] at hlen
    obtain ⟨ts', hts', htags⟩ := decodeFrom_layout (pre ++ [t.part]) rest hs hlen
    refine ⟨t' :: ts', ?_, by rw [Token.untaggedAll, Token.untaggedAll, htag, htags]⟩
    rw [AbiType.decodeFrom, ← usesOffset_eq ty hfit, Token.parts, hseek, Option.bind_some, ht']
    rw [← hmove, Token.parts, ← hnext] at hts'
    simp only [hts', Option.map_some]

theorem decodeFrom_parts {tys : List AbiType} {ts : List Token} (rest : Bytes)
    (h : List.Forall₂ (fun t ty => t.Fits ty ∧ Finds ty.decodeFront t) ts tys)
    (hlen : (layout (Token.parts ts)).length < Word.modulus) :
    ∃ ts', AbiType.decodeFrom (layout (Token.parts ts) ++ rest) 0 tys = some ts' ∧
      Token.untaggedAll ts' = Token.untaggedAll ts :=
  decodeFrom_layout [] rest h hlen

/-- A row is read as a sequence of one type. -/
theorem readRow_eq_decodeFrom (ty : AbiType) (frame : Bytes) : ∀ (count position : Nat),
    readRow ty.decodeFront ty.standsInTail ty.headSize frame position count =
      AbiType.decodeFrom frame position (List.replicate count ty)
  | 0, _ => rfl
  | count + 1, position => by
    rw [readRow, List.replicate_succ, AbiType.decodeFrom, readRow_eq_decodeFrom ty frame count]

theorem forall₂_replicate {ty : AbiType} : ∀ {ts : List Token}, (∀ t ∈ ts, t.Fits ty ∧ Finds ty.decodeFront t) →
    List.Forall₂ (fun t ty => t.Fits ty ∧ Finds ty.decodeFront t) ts (List.replicate ts.length ty)
  | [], _ => .nil
  | t :: _, h => .cons (h t List.mem_cons_self) (forall₂_replicate fun u hu => h u (List.mem_cons_of_mem t hu))

/-! ## Values -/

theorem length_le_counted (bs : Bytes) : bs.length ≤ (counted bs).length := by
  rw [counted, List.length_append, length_padToWords]
  omega

mutual
/-- **A value that fits a type is found at the type**, if its counts and its length are less than a word can hold. -/
theorem finds : ∀ (ty : AbiType) {t : Token}, t.Fits ty → t.countsFit = true → t.encoding.length < Word.modulus →
    Finds ty.decodeFront t
  | .address, t, h, _, _ => by
    cases h.cases with
    | address a =>
      intro rest
      refine ⟨_, ?_, rfl⟩
      rw [AbiType.decodeFront, Token.encoding, List.take_left' a.toWord.length_bytes, Address.toWord,
        List.drop_left' List.length_replicate, Block.ofBytes?_bytes]
      rfl
  | .bool, t, h, _, _ => by
    cases h.cases with
    | bool b =>
      intro rest
      have hb : b.toNat < Word.modulus := Nat.lt_of_lt_of_le b.toNat_lt (by decide)
      refine ⟨_, ?_, rfl⟩
      rw [AbiType.decodeFront, Token.encoding, frontNat?_append hb]
      cases b <;> rfl
  | .uint n, t, h, _, _ => by
    cases h.cases with
    | uint w | intAsUint w =>
      intro rest
      exact ⟨.uint w, by rw [AbiType.decodeFront, Token.encoding, frontWord?_append]; rfl, rfl⟩
  | .int n, t, h, _, _ => by
    cases h.cases with
    | uintAsInt w | int w =>
      intro rest
      exact ⟨.int w, by rw [AbiType.decodeFront, Token.encoding, frontWord?_append]; rfl, rfl⟩
  | .fixedBytes n, t, h, _, _ => by
    cases h.cases with
    | fixedBytes bs =>
      intro rest
      exact ⟨.fixedBytes bs, by rw [AbiType.decodeFront, Token.encoding, front?_padToWords]; rfl, rfl⟩
  | .bytes, t, h, _, hlen => by
    cases h.cases with
    | bytes bs =>
      intro rest
      have hbs : bs.length < Word.modulus := Nat.lt_of_le_of_lt (length_le_counted bs) hlen
      exact ⟨.bytes bs, by rw [AbiType.decodeFront, Token.encoding, countedFront?_counted hbs]; rfl, rfl⟩
  | .string, t, h, _, hlen => by
    cases h.cases with
    | string s =>
      intro rest
      have hs : (textBytes s).length < Word.modulus := Nat.lt_of_le_of_lt (length_le_counted _) hlen
      refine ⟨.string s, ?_, rfl⟩
      rw [AbiType.decodeFront, Token.encoding, countedFront?_counted hs, Option.bind_some, bytesText?_textBytes]
      rfl
  | .array ty, t, h, hcount, hlen => by
    cases h.cases with
    | array hall =>
      rename_i items
      intro rest
      rw [Token.countsFit, Bool.and_eq_true, decide_eq_true_eq, Token.allCountsFit_iff] at hcount
      have hlen' : (layout (Token.parts items)).length < Word.modulus := by
        rw [Token.encoding, List.length_append] at hlen
        omega
      have hfind := forall₂_replicate fun u hu => And.intro (hall u hu)
        (finds ty (hall u hu) (hcount.2 u hu) (Nat.lt_of_le_of_lt (Token.length_encoding_le hu) hlen'))
      obtain ⟨items', hitems, htags⟩ := decodeFrom_parts rest hfind hlen'
      refine ⟨.array items', ?_, by rw [Token.untagged, Token.untagged, htags]⟩
      rw [AbiType.decodeFront, Token.encoding, List.append_assoc, frontNat?_append hcount.1, Option.bind_some,
        List.drop_left' (Word.ofNat items.length).length_bytes, readRow_eq_decodeFrom, hitems]
      rfl
  | .fixedArray ty n, t, h, hcount, hlen => by
    cases h.cases with
    | fixedArray hall =>
      intro rest
      rw [Token.countsFit, Token.allCountsFit_iff] at hcount
      rw [Token.encoding] at hlen
      have hfind := forall₂_replicate fun u hu => And.intro (hall u hu)
        (finds ty (hall u hu) (hcount u hu) (Nat.lt_of_le_of_lt (Token.length_encoding_le hu) hlen))
      obtain ⟨items', hitems, htags⟩ := decodeFrom_parts rest hfind hlen
      refine ⟨.fixedArray items', ?_, by rw [Token.untagged, Token.untagged, htags]⟩
      rw [AbiType.decodeFront, Token.encoding, readRow_eq_decodeFrom, hitems]
      rfl
  | .tuple tys, t, h, hcount, hlen => by
    cases h.cases with
    | tuple hall =>
      intro rest
      rw [Token.countsFit, Token.allCountsFit_iff] at hcount
      rw [Token.encoding] at hlen
      have hfind := findsEach tys hall fun u hu =>
        And.intro (hcount u hu) (Nat.lt_of_le_of_lt (Token.length_encoding_le hu) hlen)
      obtain ⟨items', hitems, htags⟩ := decodeFrom_parts rest hfind hlen
      refine ⟨.tuple items', ?_, by rw [Token.untagged, Token.untagged, htags]⟩
      rw [AbiType.decodeFront, Token.encoding, hitems]
      rfl

theorem findsEach : ∀ (tys : List AbiType) {ts : List Token}, List.Forall₂ Fits ts tys →
    (∀ t ∈ ts, t.countsFit = true ∧ t.encoding.length < Word.modulus) →
    List.Forall₂ (fun t ty => t.Fits ty ∧ Finds ty.decodeFront t) ts tys
  | [], _, .nil, _ => .nil
  | ty :: tys, t :: _, .cons h hs, hsize =>
    .cons ⟨h, finds ty h (hsize t List.mem_cons_self).1 (hsize t List.mem_cons_self).2⟩
      (findsEach tys hs fun u hu => hsize u (List.mem_cons_of_mem t hu))
end

/-! ## Whole layouts -/

section
variable {tys : List AbiType} {ts us : List Token}

theorem exists_decode (hfit : List.Forall₂ Fits ts tys) (hcount : ∀ t ∈ ts, t.countsFit = true)
    (hlen : (encode ts).length < Word.modulus) :
    ∃ ts', decode tys (encode ts) = some ts' ∧ Token.untaggedAll ts' = Token.untaggedAll ts := by
  have hfind := findsEach tys hfit fun t ht =>
    And.intro (hcount t ht) (Nat.lt_of_le_of_lt (Token.length_encoding_le ht) hlen)
  have := decodeFrom_parts [] hfind hlen
  rwa [List.append_nil] at this

theorem untaggedAll_eq_of_encode_eq (ht : List.Forall₂ Fits ts tys) (hu : List.Forall₂ Fits us tys)
    (hcount : ∀ t ∈ ts, t.countsFit = true) (hcount' : ∀ u ∈ us, u.countsFit = true)
    (hlen : (encode ts).length < Word.modulus) (h : encode us = encode ts) :
    Token.untaggedAll us = Token.untaggedAll ts := by
  obtain ⟨ts', hdecode, htags⟩ := exists_decode ht hcount hlen
  obtain ⟨us', hdecode', htags'⟩ := exists_decode hu hcount' (h ▸ hlen)
  rw [h, hdecode] at hdecode'
  cases hdecode'
  exact htags'.symm.trans htags

end

/-- **Reading undoes laying out.**  Values that fit their types, laid out in fewer than `2 ^ 64` bytes, are read back at these
types, up to the tags of integers.  So values that fit the same types and are laid out alike are the same up to tags. -/
theorem decode_encode (tys : List AbiType) (ts : List Token) (hfit : List.Forall₂ Fits ts tys)
    (hcount : ∀ t ∈ ts, t.countsFit = true) (hlen : (encode ts).length < countLimit) :
    (∃ ts', decode tys (encode ts) = some ts' ∧ Token.untaggedAll ts' = Token.untaggedAll ts) ∧
    ∀ us, List.Forall₂ Fits us tys → (∀ u ∈ us, u.countsFit = true) → encode us = encode ts →
      Token.untaggedAll us = Token.untaggedAll ts := by
  have hlen' : (encode ts).length < Word.modulus := Nat.lt_trans hlen (by decide)
  exact ⟨exists_decode hfit hcount hlen',
    fun _ hfit' hcount' h => untaggedAll_eq_of_encode_eq hfit hfit' hcount hcount' hlen' h⟩

theorem decode_encode_nested :
    ∃ ts', decode [.array (.tuple []), .uint 8, .array .string, .fixedArray .string 0]
        (encode [.array [.tuple [], .tuple []], .int (Word.ofNat 5), .array [.string "ab", .string ""], .fixedArray []]) = some ts' ∧
      Token.untaggedAll ts' =
        [.array [.tuple [], .tuple []], .uint (Word.ofNat 5), .array [.string "ab", .string ""], .fixedArray []] := by
  have hfit : List.Forall₂ Fits
      [.array [.tuple [], .tuple []], .int (Word.ofNat 5), .array [.string "ab", .string ""], .fixedArray []]
      [.array (.tuple []), .uint 8, .array .string, .fixedArray .string 0] := by
    simp only [List.forall₂_cons, List.Forall₂.nil, and_true]
    decide
  exact (decode_encode _ _ hfit (by decide) (by decide +kernel)).1

end CallPlan
