import CallPlan.Plan.Listing
import CallPlan.Proofs.HexDigits
import CallPlan.Proofs.Nesting
import CallPlan.Proofs.Numerals
import CallPlan.Proofs.Validation
import Mathlib.Data.List.Forall2
/-!
# What a listing tells

A listing is read field by field: a field ends at a mark that it cannot hold, or after a known number of digits, whatever
stands behind it.  So two listings that are the same have the same fields.  An operand behind an absent one is not shown, and
a checked program has none; of a slot the length and the first 32 bytes are shown.  The listing of a checked program tells
just that (`listing_faithful`).
-/
namespace CallPlan

/-! ## Joined texts -/

namespace Text

theorem mem_joinWith {c : Char} {w x y : List Char} {xs : List (List Char)} : c ∈ joinWith (c :: w) (x :: y :: xs) := by
  simp [joinWith]

theorem joinWith_ne_nil {sep x : List Char} (hx : x ≠ []) (xs : List (List Char)) : joinWith sep (x :: xs) ≠ [] := by
  cases xs with
  | nil => exact hx
  | cons y ys => simp [joinWith, hx]

/-- **Texts that are not empty and lack the mark can be told from the text that joins them.** -/
theorem joinWith_inj {c : Char} {w : List Char} : ∀ {xs ys : List (List Char)}, (∀ x ∈ xs, x ≠ [] ∧ c ∉ x) →
    (∀ y ∈ ys, y ≠ [] ∧ c ∉ y) → joinWith (c :: w) xs = joinWith (c :: w) ys → xs = ys
  | [], [], _, _, _ => rfl
  | [], y :: ys, _, hys, heq => absurd heq.symm (joinWith_ne_nil (hys y List.mem_cons_self).1 ys)
  | x :: xs, [], hxs, _, heq => absurd heq (joinWith_ne_nil (hxs x List.mem_cons_self).1 xs)
  | [x], [y], _, _, heq => congrArg (fun z => [z]) heq
  | [x], y :: y' :: ys, hxs, _, heq => by
    have hmem : c ∈ joinWith (c :: w) [x] := heq ▸ mem_joinWith
    exact absurd hmem (hxs x List.mem_cons_self).2
  | x :: x' :: xs, [y], _, hys, heq => by
    have hmem : c ∈ joinWith (c :: w) [y] := heq ▸ mem_joinWith
    exact absurd hmem (hys y List.mem_cons_self).2
  | x :: x' :: xs, y :: y' :: ys, hxs, hys, heq => by
    simp only [joinWith, List.append_assoc, List.cons_append] at heq
    obtain ⟨rfl, hrest⟩ := (append_mark_inj (hxs x List.mem_cons_self).2 (hys y List.mem_cons_self).2).1 heq
    rw [joinWith_inj (fun z hz => hxs z (List.mem_cons_of_mem x hz)) (fun z hz => hys z (List.mem_cons_of_mem x hz))
      (List.append_cancel_left hrest)]

theorem not_mem_joinWith {c : Char} {sep : List Char} (hsep : c ∉ sep) : ∀ {xs : List (List Char)}, (∀ x ∈ xs, c ∉ x) →
    c ∉ joinWith sep xs
  | [], _ => List.not_mem_nil
  | [x], h => h x List.mem_cons_self
  | x :: y :: xs, h => by
    have ih := not_mem_joinWith hsep fun z hz => h z (List.mem_cons_of_mem x hz)
    simp [joinWith, h x List.mem_cons_self, hsep, ih]

end Text

open Text (decimal joinWith append_mark_inj decimal_inj not_mem_decimal)

/-! ## Operands -/

namespace SlotRef

theorem toList_text_slot (i : UInt8) (d : Bool) :
    (slot i d).text.toList = 's' :: (decimal i.toNat ++ if d then ['*'] else []) := by
  cases d
  · simp [text, Text.decimalString]
  · simp [text, Text.decimalString]

theorem mem_text {r : SlotRef} {c : Char} (h : c ∈ r.text.toList) : c.isDigit = true ∨ c ∈ "state_*".toList := by
  cases r with
  | absent => exact .inr (List.mem_append_right "state".toList (List.mem_append_left ['*'] h))
  | state => exact .inr (List.mem_append_left ['_', '*'] h)
  | slot i d =>
    rw [toList_text_slot, List.mem_cons, List.mem_append] at h
    rcases h with rfl | h | h
    · exact .inr (by decide)
    · exact .inl ((Text.writesNat_decimal _).2.1 c h)
    · cases d
      · cases h
      · obtain rfl : c = '*' := by simpa using h
        exact .inr (by decide)

theorem not_mem_text (r : SlotRef) {c : Char} (hdigit : c.isDigit = false) (hletter : c ∉ "state_*".toList) :
    c ∉ r.text.toList := by
  intro hc
  rcases mem_text hc with h | h
  · rw [hdigit] at h
    cases h
  · exact hletter h

theorem text_ne_nil (r : SlotRef) : r.text.toList ≠ [] := by
  cases r with
  | absent => decide
  | state => decide
  | slot i d =>
    rw [toList_text_slot]
    exact List.cons_ne_nil _ _

theorem text_slot_ne_state (i : UInt8) (d : Bool) : (slot i d).text.toList ≠ state.text.toList := by
  intro h
  rw [toList_text_slot] at h
  obtain ⟨hne, hdigits, -⟩ := Text.writesNat_decimal i.toNat
  obtain ⟨c, cs, hc⟩ := List.exists_cons_of_ne_nil hne
  rw [hc] at h hdigits
  have ht : c = 't' := (List.cons.inj (List.cons.inj h).2).1
  rw [ht] at hdigits
  exact absurd (hdigits 't' List.mem_cons_self) (by decide)

/-- **The text of a byte tells what it names.** -/
theorem text_inj : ∀ {r r' : SlotRef}, r.text.toList = r'.text.toList → r = r'
  | .absent, .absent, _ => rfl
  | .absent, .state, h => absurd h (by decide)
  | .absent, .slot i d, h => by
    rw [toList_text_slot] at h
    exact absurd (List.cons.inj h).1 (by decide)
  | .state, .absent, h => absurd h (by decide)
  | .state, .state, _ => rfl
  | .state, .slot i d, h => absurd h.symm (text_slot_ne_state i d)
  | .slot i d, .absent, h => by
    rw [toList_text_slot] at h
    exact absurd (List.cons.inj h).1 (by decide)
  | .slot i d, .state, h => absurd h (text_slot_ne_state i d)
  | .slot i d, .slot i' d', h => by
    rw [toList_text_slot, toList_text_slot] at h
    have hrest := (List.cons.inj h).2
    -- with a mark behind both, the numeral ends at the first mark
    have hmark : ∀ (n : Nat) (f : Bool),
        decimal n ++ (if f then ['*'] else []) ++ ['*'] = decimal n ++ '*' :: if f then ['*'] else [] := by
      intro n f
      cases f <;> simp
    have hends := congrArg (· ++ ['*']) hrest
    simp only [hmark] at hends
    obtain ⟨hi, hd⟩ := (append_mark_inj (not_mem_decimal (by decide) _) (not_mem_decimal (by decide) _)).1 hends
    have hflag : d = d' := by
      revert hd
      cases d <;> cases d' <;> simp
    rw [UInt8.toNat_inj.1 (decimal_inj.1 hi), hflag]

end SlotRef

namespace Address

theorem length_text (a : Address) : a.text.toList.length = 42 := by
  simp [text, toHex, Hex.length_digits, a.length_bytes]

theorem text_inj {a b : Address} (h : a.text.toList = b.text.toList) : a = b := by
  simp only [text, toHex, String.toList_append, String.toList_ofList] at h
  exact Block.ext (Hex.digits_inj.1 (List.append_cancel_left h))

end Address

namespace Program

/-- **The operands that stand in front are the ones that are shown.** -/
theorem operandTexts_append {bs : Bytes} (h : 0xFF ∉ bs) (d : Nat) :
    operandTexts (bs ++ List.replicate d 0xFF) = bs.map fun b => (SlotRef.ofByte b).text.toList := by
  have hpresent : ∀ r ∈ bs.map SlotRef.ofByte, decide (r ≠ .absent) = true := by
    intro r hr
    obtain ⟨b, hb, rfl⟩ := List.mem_map.1 hr
    rw [decide_eq_true_eq, ← SlotRef.ofByte_absent, Ne, SlotRef.ofByte_inj]
    rintro rfl
    exact h hb
  have habsent : (List.replicate d SlotRef.absent).takeWhile (· ≠ .absent) = [] := by
    cases d <;> simp [List.replicate_succ]
  have hff : SlotRef.ofByte 0xFF = .absent := rfl
  rw [operandTexts, List.map_append, List.map_replicate, hff, List.takeWhile_append_of_pos hpresent, habsent,
    List.append_nil, List.map_map]
  rfl

theorem operands_eq_of_texts {size size' : Nat} {ins ins' : Instruction} (h : ins.Executable size)
    (h' : ins'.Executable size') (heq : operandTexts ins.operands.bytes = operandTexts ins'.operands.bytes) :
    ins.operands = ins'.operands := by
  obtain ⟨bs, d, hbytes, hbs⟩ := h.shape
  obtain ⟨bs', d', hbytes', hbs'⟩ := h'.shape
  rw [hbytes, hbytes', operandTexts_append hbs, operandTexts_append hbs'] at heq
  obtain rfl : bs = bs' := by
    refine (List.map_inj_right fun b b' hb => ?_).1 heq
    exact SlotRef.ofByte_inj.1 (SlotRef.text_inj hb)
  have hlen := ins.operands.length_bytes
  have hlen' := ins'.operands.length_bytes
  rw [hbytes, List.length_append, List.length_replicate] at hlen
  rw [hbytes', List.length_append, List.length_replicate] at hlen'
  obtain rfl : d = d' := by omega
  exact Block.ext (hbytes.trans hbytes'.symm)

theorem mem_operandTexts {bs : Bytes} {t : List Char} (h : t ∈ operandTexts bs) : ∃ r : SlotRef, t = r.text.toList := by
  obtain ⟨r, -, rfl⟩ := List.mem_map.1 h
  exact ⟨r, rfl⟩

theorem joinWith_operandTexts_inj {bs bs' : Bytes}
    (h : joinWith ", ".toList (operandTexts bs) = joinWith ", ".toList (operandTexts bs')) :
    operandTexts bs = operandTexts bs' := by
  have hcomma : ∀ {bs : Bytes}, ∀ t ∈ operandTexts bs, t ≠ [] ∧ ',' ∉ t := by
    intro bs t ht
    obtain ⟨r, rfl⟩ := mem_operandTexts ht
    exact ⟨r.text_ne_nil, r.not_mem_text (by decide) (by decide)⟩
  exact Text.joinWith_inj hcomma hcomma h

theorem dash_not_mem_operands (bs : Bytes) : '-' ∉ joinWith ", ".toList (operandTexts bs) ++ [' '] := by
  rw [List.mem_append, not_or]
  refine ⟨Text.not_mem_joinWith (by decide) fun t ht => ?_, by decide⟩
  obtain ⟨r, rfl⟩ := mem_operandTexts ht
  exact r.not_mem_text (by decide) (by decide)

/-! ## Lines -/

/-- **The line of an instruction tells it**, whatever stands behind. -/
theorem instructionLine_inj {size size' pc : Nat} {ins ins' : Instruction} {t t' : List Char} (h : ins.Executable size)
    (h' : ins'.Executable size') (heq : instructionLine pc ins ++ t = instructionLine pc ins' ++ t') :
    ins = ins' ∧ t = t' := by
  have harrow : ∀ l r : List Char, l ++ (" -> ".toList ++ r) = (l ++ [' ']) ++ '-' :: ("> ".toList ++ r) := by simp
  have hline : ∀ r : SlotRef, '\n' ∉ r.text.toList := fun r => r.not_mem_text (by decide) (by decide)
  unfold instructionLine at heq
  simp only [List.append_assoc] at heq
  replace heq := List.append_cancel_left (List.append_cancel_left heq)
  obtain ⟨hselector, heq⟩ := List.append_inj heq (by simp [Hex.length_digits, Block.length_bytes])
  replace heq := List.append_cancel_left heq
  obtain ⟨haddress, heq⟩ := List.append_inj heq (by rw [Address.length_text, Address.length_text])
  replace heq := List.append_cancel_left heq
  -- the operands hold blanks, so they end at the dash of the arrow behind them
  rw [harrow, harrow] at heq
  obtain ⟨hoperands, heq⟩ := (append_mark_inj (dash_not_mem_operands _) (dash_not_mem_operands _)).1 heq
  replace heq := List.append_cancel_left heq
  obtain ⟨hresult, rfl⟩ := (append_mark_inj (hline _) (hline _)).1 heq
  have hselector' : ins.selector = ins'.selector := Block.ext (Hex.digits_inj.1 hselector)
  have haddress' : ins.address = ins'.address := Address.text_inj haddress
  have hoperands' : ins.operands = ins'.operands :=
    operands_eq_of_texts h h' (joinWith_operandTexts_inj (List.append_cancel_right hoperands))
  have hresult' : ins.result = ins'.result := SlotRef.ofByte_inj.1 (SlotRef.text_inj hresult)
  refine ⟨?_, rfl⟩
  cases ins
  cases ins'
  rw [Instruction.mk.injEq]
  exact ⟨hselector', hoperands', hresult', haddress'⟩

theorem instructionLines_inj {size size' : Nat} {t t' : List Char} : ∀ {is is' : List Instruction} (pc : Nat),
    is.length = is'.length → (∀ ins ∈ is, ins.Executable size) → (∀ ins ∈ is', ins.Executable size') →
    instructionLines pc is ++ t = instructionLines pc is' ++ t' → is = is' ∧ t = t'
  | [], [], _, _ => fun _ _ heq => ⟨rfl, heq⟩
  | ins :: is, ins' :: is', pc, hlen => by
    intro h h' heq
    rw [instructionLines, instructionLines, List.append_assoc, List.append_assoc] at heq
    obtain ⟨rfl, hrest⟩ := instructionLine_inj (h ins List.mem_cons_self) (h' ins' List.mem_cons_self) heq
    obtain ⟨rfl, rfl⟩ := instructionLines_inj (pc + 1) (Nat.succ.inj hlen)
      (fun i hi => h i (List.mem_cons_of_mem ins hi)) (fun i hi => h' i (List.mem_cons_of_mem ins hi)) hrest
    exact ⟨rfl, rfl⟩

/-! ## Slots -/

/-- **What is shown of two slots is the same.** -/
def Alike (a b : Bytes) : Prop := a.length = b.length ∧ a.take 32 = b.take 32

/-- What stands behind the digits of a slot. -/
def previewEnd (slot : Bytes) : List Char :=
  if slot.length ≤ 32 then [] else '…' :: (" (".toList ++ (decimal slot.length ++ " bytes)".toList))

theorem preview_eq {slot : Bytes} (h : slot ≠ []) :
    preview slot = '0' :: 'x' :: (Hex.digits (slot.take 32) ++ previewEnd slot) := by
  have hempty : slot.isEmpty = false := by simpa using h
  have hdigits : (Hex.digits slot).length ≤ previewDigits ↔ slot.length ≤ 32 := by
    rw [Hex.length_digits, previewDigits]
    omega
  have htake : (Hex.digits slot).take previewDigits = Hex.digits (slot.take 32) := Hex.take_digits 32 slot
  unfold preview previewEnd
  by_cases hlen : slot.length ≤ 32
  · simp [hempty, hdigits, hlen, List.take_of_length_le hlen]
  · simp [hempty, hdigits, hlen, htake]

theorem head?_preview {slot : Bytes} : (preview slot).head? = some '(' ↔ slot = [] := by
  by_cases h : slot = []
  · rw [h]
    exact iff_of_true rfl rfl
  · simp [preview_eq h, h]

theorem ellipsis_not_mem_digits (bs : Bytes) : '…' ∉ Hex.digits bs := fun h =>
  absurd (Hex.isHexDigit_of_mem_digits h) (by decide)

theorem ellipsis_mem_preview {slot : Bytes} (h : slot ≠ []) : '…' ∈ preview slot ↔ 32 < slot.length := by
  rw [preview_eq h, previewEnd]
  by_cases hlen : slot.length ≤ 32
  · simp [hlen, ellipsis_not_mem_digits, Nat.not_lt_of_le hlen]
  · simp [hlen, Nat.lt_of_not_le hlen]

theorem preview_inj_of_ne {a b : Bytes} (ha : a ≠ []) (hb : b ≠ []) (h : preview a = preview b) : Alike a b := by
  have hlong : 32 < a.length ↔ 32 < b.length := by
    rw [← ellipsis_mem_preview ha, h, ellipsis_mem_preview hb]
  rw [preview_eq ha, preview_eq hb, previewEnd, previewEnd] at h
  replace h := (List.cons.inj (List.cons.inj h).2).2
  by_cases hlen : a.length ≤ 32
  · have hlen' : b.length ≤ 32 := by omega
    simp only [hlen, hlen', if_true, List.append_nil, Hex.digits_inj, List.take_of_length_le] at h
    rw [h]
    exact ⟨rfl, rfl⟩
  · have hlen' : ¬ b.length ≤ 32 := by omega
    simp only [hlen, hlen', if_false] at h
    obtain ⟨hdigits, hend⟩ := (append_mark_inj (ellipsis_not_mem_digits _) (ellipsis_not_mem_digits _)).1 h
    replace hend := List.append_cancel_left hend
    exact ⟨decimal_inj.1 (List.append_cancel_right hend), Hex.digits_inj.1 hdigits⟩

/-- **What is shown of a slot tells its length and its first bytes, and no more.** -/
theorem preview_inj {a b : Bytes} : preview a = preview b ↔ Alike a b := by
  constructor
  · intro h
    have hnil : a = [] ↔ b = [] := by rw [← head?_preview, h, head?_preview]
    by_cases ha : a = []
    · rw [ha, hnil.1 ha]
      exact ⟨rfl, rfl⟩
    · exact preview_inj_of_ne ha (mt hnil.2 ha) h
  · rintro ⟨hlen, htake⟩
    have hnil : a = [] ↔ b = [] := by rw [← List.length_eq_zero_iff, hlen, List.length_eq_zero_iff]
    by_cases ha : a = []
    · rw [ha, hnil.1 ha]
    · rw [preview_eq ha, preview_eq (mt hnil.2 ha), previewEnd, previewEnd, hlen, htake]

theorem newline_not_mem_preview (slot : Bytes) : '\n' ∉ preview slot := by
  by_cases h : slot = []
  · rw [h]
    decide
  · have hdigits : ∀ bs : Bytes, '\n' ∉ Hex.digits bs := fun bs hc =>
      absurd (Hex.isHexDigit_of_mem_digits hc) (by decide)
    rw [preview_eq h, previewEnd]
    by_cases hlen : slot.length ≤ 32
    · simp [hlen, hdigits]
    · simp [hlen, hdigits, not_mem_decimal (show '\n'.isDigit = false by decide)]

theorem slotLines_inj : ∀ {bs bs' : List Bytes} (index : Nat), bs.length = bs'.length →
    (slotLines index bs = slotLines index bs' ↔ List.Forall₂ Alike bs bs')
  | [], [], _, _ => iff_of_true rfl .nil
  | b :: bs, b' :: bs', index, hlen => by
    rw [List.forall₂_cons, ← preview_inj, ← slotLines_inj (index + 1) (Nat.succ.inj hlen), slotLines, slotLines]
    unfold slotLine
    simp only [List.append_assoc, List.cons_append, List.nil_append, List.cons.injEq, true_and,
      List.append_cancel_left_eq]
    exact append_mark_inj (newline_not_mem_preview b) (newline_not_mem_preview b')

/-! ## Listings -/

theorem header_inj {p q : Program} {t t' : List Char} (h : p.header ++ t = q.header ++ t') :
    p.instructions.length = q.instructions.length ∧ p.state.length = q.state.length ∧ t = t' := by
  have hslots : ∀ l r : List Char, l ++ (" slots=".toList ++ r) = l ++ ' ' :: ("slots=".toList ++ r) := by simp
  have hspace : ∀ n, ' ' ∉ decimal n := not_mem_decimal (by decide)
  have hline : ∀ n, '\n' ∉ decimal n := not_mem_decimal (by decide)
  unfold header at h
  simp only [List.append_assoc] at h
  replace h := List.append_cancel_left h
  rw [hslots, hslots] at h
  obtain ⟨hcount, h⟩ := (append_mark_inj (hspace _) (hspace _)).1 h
  replace h := List.append_cancel_left h
  obtain ⟨hlen, h⟩ := (append_mark_inj (hline _) (hline _)).1 h
  exact ⟨decimal_inj.1 hcount, decimal_inj.1 hlen, h⟩

theorem stateSection_inj {bs bs' : List Bytes} (hlen : bs.length = bs'.length) :
    stateSection bs = stateSection bs' ↔ List.Forall₂ Alike bs bs' := by
  rw [← slotLines_inj 0 hlen]
  unfold stateSection
  cases bs with
  | nil => simp [List.length_eq_zero_iff.1 hlen.symm]
  | cons b bs =>
    obtain ⟨b', bs', rfl⟩ := List.exists_cons_of_length_eq_add_one hlen.symm
    simp

theorem forall₂_alike_iff {bs bs' : List Bytes} : List.Forall₂ Alike bs bs' ↔ bs.length = bs'.length ∧
    ∀ (n : Nat) (a b : Bytes), bs[n]? = some a → bs'[n]? = some b → Alike a b := by
  rw [List.forall₂_iff_get]
  refine and_congr_right fun _ => ⟨fun h n a b ha hb => ?_, fun h n hn hn' => ?_⟩
  · obtain ⟨hn, rfl⟩ := List.getElem?_eq_some_iff.1 ha
    obtain ⟨hn', rfl⟩ := List.getElem?_eq_some_iff.1 hb
    exact h n hn hn'
  · exact h n _ _ (List.getElem?_eq_getElem hn) (List.getElem?_eq_getElem hn')

/-- **Two checked programs with the same listing.** -/
theorem listing_inj {p q : Program} (hp : p.validate = .ok ()) (hq : q.validate = .ok ()) :
    p.listing = q.listing ↔ p.instructions = q.instructions ∧ List.Forall₂ Alike p.state q.state := by
  rw [listing, listing, String.ofList_inj, listingChars, listingChars, List.append_assoc, List.append_assoc]
  constructor
  · intro h
    obtain ⟨hcount, hlen, hbody⟩ := header_inj h
    obtain ⟨hins, hstate⟩ := instructionLines_inj 0 hcount (p.validate_eq_ok_iff.1 hp).2 (q.validate_eq_ok_iff.1 hq).2 hbody
    exact ⟨hins, (stateSection_inj hlen).1 hstate⟩
  · rintro ⟨hins, hstate⟩
    have hlen := hstate.length_eq
    rw [(stateSection_inj hlen).2 hstate, hins]
    unfold header
    rw [hins, hlen]

/-- **A listing is faithful.**  Two checked programs have the same listing exactly when they have the same instructions, byte
for byte, and as many slots, of the same lengths and with the same first 32 bytes.  A slot of at most 32 bytes is then the same
in both. -/
theorem listing_faithful (p q : Program) (hp : p.validate = .ok ()) (hq : q.validate = .ok ()) :
    (p.listing = q.listing ↔ p.instructions = q.instructions ∧ p.state.length = q.state.length ∧
      ∀ (n : Nat) (a b : Bytes), p.state[n]? = some a → q.state[n]? = some b →
        a.length = b.length ∧ a.take 32 = b.take 32) ∧
    (p.listing = q.listing → ∀ (n : Nat) (a : Bytes), p.state[n]? = some a → a.length ≤ 32 → q.state[n]? = some a) := by
  have hiff := (listing_inj hp hq).trans (and_congr_right fun _ => forall₂_alike_iff)
  refine ⟨hiff, fun h n a ha hshort => ?_⟩
  obtain ⟨-, hlen, halike⟩ := hiff.1 h
  have hn : n < q.state.length := hlen ▸ (List.getElem?_eq_some_iff.1 ha).1
  obtain ⟨hsame, htake⟩ := halike n a _ ha (List.getElem?_eq_getElem hn)
  rw [List.take_of_length_le hshort, List.take_of_length_le (hsame ▸ hshort)] at htake
  rw [List.getElem?_eq_getElem hn, htake]

/-- A call with one operand, on a table with a slot of 33 bytes, the last of them given, and a short slot. -/
def oneCall (last : UInt8) (short : Bytes) : Program where
  instructions := [⟨Block.fill 4 0xAB, Instruction.operandBlock [0x80], 0x01, Block.fill 20 0x11⟩]
  state := [List.replicate 32 0 ++ [last], short]

theorem listing_faithful_oneCall :
    (oneCall 1 [7]).validate = .ok () ∧ (oneCall 2 [7]).validate = .ok () ∧ (oneCall 1 [8]).validate = .ok () ∧
      (oneCall 1 [7]).listing = (oneCall 2 [7]).listing ∧ (oneCall 1 [7]).listing ≠ (oneCall 1 [8]).listing := by
  have hcheck : ∀ last short, (oneCall last short).validate = .ok () := fun _ _ => rfl
  refine ⟨hcheck _ _, hcheck _ _, hcheck _ _, ?_, fun h => ?_⟩
  · refine (listing_faithful _ _ (hcheck 1 [7]) (hcheck 2 [7])).1.2 ⟨rfl, rfl, fun n a b ha hb => ?_⟩
    match n with
    | 0 => cases ha; cases hb; exact ⟨rfl, rfl⟩
    | 1 => cases ha; cases hb; exact ⟨rfl, rfl⟩
  · have hsame := (listing_faithful _ _ (hcheck 1 [7]) (hcheck 1 [8])).2 h 1 [7] rfl (by decide)
    exact absurd hsame (by decide)

end Program
end CallPlan
