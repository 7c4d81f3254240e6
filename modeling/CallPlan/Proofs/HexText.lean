import CallPlan.Plan.Program
import CallPlan.Proofs.HexDigits
import CallPlan.Proofs.Instruction
import CallPlan.Proofs.Nesting
/-!
# Bytes as text and back

Bytes are read back from their text (`ofHex_toHex`), so the texts of a program tell it (`Program.eq_of_texts`).  What is read is
an even number of digits behind at most one marker (`Hex.Unmarked`), and the text of what was read is these digits in lower case
behind `0x` (`ofHex_eq_ok_iff`).  Blanks at the ends are let through for addresses only (`Address.ofText_eq_ok_iff`).
-/
namespace CallPlan
namespace Hex

/-- **`ds` is the text without the marker in front of it, if it has one.**  A second marker stays. -/
inductive Unmarked : List Char → List Char → Prop where
  | marked {x : Char} (hx : IsMarker x) (ds : List Char) : Unmarked ('0' :: x :: ds) ds
  | bare {s : List Char} (hs : ∀ x r, IsMarker x → s ≠ '0' :: x :: r) : Unmarked s s

/-- **An even number of digits, of either case.** -/
def IsPairs (ds : List Char) : Prop := ds.length % 2 = 0 ∧ ∀ c ∈ ds, c.isHexDigit = true

theorem unmarked_iff {s ds : List Char} : Unmarked s ds ↔ dropMarker s = ds := by
  constructor
  · intro h
    cases h with
    | marked hx => exact dropMarker_marked hx ds
    | bare hs => exact dropMarker_of_ne hs
  · rintro rfl
    by_cases hmark : ∃ x r, IsMarker x ∧ s = '0' :: x :: r
    · obtain ⟨x, r, hx, rfl⟩ := hmark
      rw [dropMarker_marked hx]
      exact .marked hx r
    · have hs : ∀ x r, IsMarker x → s ≠ '0' :: x :: r := fun x r hx heq => hmark ⟨x, r, hx, heq⟩
      rw [dropMarker_of_ne hs]
      exact .bare hs

theorem exists_decode_iff {ds : List Char} : (∃ bs, decode ds = .ok bs) ↔ IsPairs ds := by
  constructor
  · rintro ⟨bs, h⟩
    obtain ⟨hdigits, hlen, -⟩ := decode_eq_ok_iff.1 h
    exact ⟨by omega, hdigits⟩
  · rintro ⟨heven, hdigits⟩
    rw [decode_eq_decodeFrom hdigits heven]
    exact exists_decodeFrom 0 hdigits heven

/-- **What digits are decoded to is written with the same digits in lower case.** -/
theorem decode_eq_ok_iff_digits {ds : List Char} {bs : Bytes} :
    decode ds = .ok bs ↔ IsPairs ds ∧ digits bs = ds.map Char.toLower := by
  constructor
  · intro h
    exact ⟨exists_decode_iff.1 ⟨bs, h⟩, digits_of_decodeFrom ds (decodeFrom_of_decode h)⟩
  · rintro ⟨hpairs, hdigits⟩
    -- whatever bytes the digits are decoded to have the same text, so they are these
    obtain ⟨cs, hcs⟩ := exists_decode_iff.2 hpairs
    have hdigits' := digits_of_decodeFrom ds (decodeFrom_of_decode hcs)
    rw [hcs, digits_inj.1 (hdigits.trans hdigits'.symm)]

theorem read_digits (bs : Bytes) : read ('0' :: 'x' :: digits bs) = .ok bs := by
  have hdigits : ∀ c ∈ digits bs, c.isHexDigit = true := fun c => isHexDigit_of_mem_digits
  have heven : (digits bs).length % 2 = 0 := by
    rw [length_digits]
    omega
  rw [read, dropMarker_marked (.inl rfl), decode_eq_decodeFrom hdigits heven, decodeFrom_digits]

end Hex

/-! ## Bytes -/

theorem toList_toHex (bs : Bytes) : (toHex bs).toList = '0' :: 'x' :: Hex.digits bs := by
  simp [toHex]

theorem toHex_eq_iff {bs : Bytes} {t : List Char} : toHex bs = "0x" ++ String.ofList t ↔ Hex.digits bs = t := by
  refine ⟨fun h => ?_, fun h => h ▸ rfl⟩
  have hlist := congrArg String.toList h
  simp only [toHex, String.toList_append, String.toList_ofList] at hlist
  exact List.append_cancel_left hlist

theorem ofHex_eq_ok_iff_read {s : String} {bs : Bytes} : ofHex s = .ok bs ↔ Hex.read s.toList = .ok bs := by
  unfold ofHex
  cases Hex.read s.toList <;> simp

theorem ofHex_toHex (bs : Bytes) : ofHex (toHex bs) = .ok bs := by
  rw [ofHex_eq_ok_iff_read, toList_toHex, Hex.read_digits]

theorem toHex_inj {bs cs : Bytes} : toHex bs = toHex cs ↔ bs = cs := by
  refine ⟨fun h => ?_, congrArg toHex⟩
  have hbs := ofHex_toHex bs
  rw [h, ofHex_toHex] at hbs
  exact (Except.ok.inj hbs).symm

theorem exists_ofHex_iff {s : String} : (∃ bs, ofHex s = .ok bs) ↔ ∃ ds, Hex.Unmarked s.toList ds ∧ Hex.IsPairs ds := by
  simp only [ofHex_eq_ok_iff_read, Hex.read, Hex.exists_decode_iff, Hex.unmarked_iff, exists_eq_left']

/-- **A text is read exactly when it is pairs of digits behind at most one marker, and the text of the bytes is `0x` and these
digits in lower case.** -/
theorem ofHex_eq_ok_iff {s : String} {bs : Bytes} : ofHex s = .ok bs ↔
    ∃ ds, Hex.Unmarked s.toList ds ∧ Hex.IsPairs ds ∧ toHex bs = "0x" ++ String.ofList (ds.map Char.toLower) := by
  simp only [ofHex_eq_ok_iff_read, Hex.read, Hex.decode_eq_ok_iff_digits, Hex.unmarked_iff, toHex_eq_iff, exists_eq_left']

/-! ## Programs -/

/-- **The texts of its instructions and slots tell a program.** -/
theorem Program.eq_of_texts {p q : Program} (hcommands : p.commandTexts = q.commandTexts)
    (hstate : p.stateTexts = q.stateTexts) : p = q := by
  have hinstructions : p.instructions = q.instructions :=
    (List.map_inj_right fun i j h => Instruction.bytes_inj.1 (toHex_inj.1 h)).1 hcommands
  have htable : p.state = q.state := (List.map_inj_right fun _ _ => toHex_inj.1).1 hstate
  cases p
  cases q
  rw [Program.mk.injEq]
  exact ⟨hinstructions, htable⟩

/-! ## Addresses -/

namespace Address

theorem ofText_eq_ok_iff {s : String} {a : Address} :
    ofText s = .ok a ↔ ofHex (String.ofList (Text.trim s.toList)) = .ok a.bytes := by
  rw [ofHex_eq_ok_iff_read, String.toList_ofList, ofText]
  cases Hex.read (Text.trim s.toList) with
  | error e => simp
  | ok bs =>
    simp only [Except.ok.injEq]
    cases hblock : Block.ofBytes? 20 bs with
    | none =>
      -- the bytes of an address would make a block
      refine ⟨fun h => (by cases h), ?_⟩
      rintro rfl
      rw [Block.ofBytes?_bytes] at hblock
      cases hblock
    | some b =>
      rw [← Block.bytes_of_ofBytes? hblock, Except.ok.injEq]
      exact ⟨fun h => h ▸ rfl, fun h => Block.ext h⟩

theorem trim_text (a : Address) : Text.trim a.text.toList = a.text.toList := by
  rw [text, toList_toHex]
  refine (Text.solid_of_forall (List.cons_ne_nil _ _) fun c hc => ?_).trim_self
  rcases List.mem_cons.1 hc with rfl | hc
  · decide
  · rcases List.mem_cons.1 hc with rfl | hc
    · decide
    · exact Hex.isBlank_of_isHexDigit (Hex.isHexDigit_of_mem_digits hc)

theorem ofText_text (a : Address) : ofText a.text = .ok a := by
  rw [ofText_eq_ok_iff, trim_text, String.ofList_toList]
  exact ofHex_toHex a.bytes

end Address

/-- **Hexadecimal text loses nothing and is read strictly.**  Bytes and addresses are read back from their texts, and a program
is told by the texts of its instructions and slots.  A text is read exactly when it is an even number of digits behind at most
one marker; written again it is `0x` and these digits in lower case.  An address is read exactly from twenty bytes of such text,
blanks at the ends aside. -/
theorem hexText_lossless :
    (∀ bs, ofHex (toHex bs) = .ok bs) ∧
    (∀ p q : Program, p.commandTexts = q.commandTexts ∧ p.stateTexts = q.stateTexts ↔ p = q) ∧
    (∀ s, (∃ bs, ofHex s = .ok bs) ↔ ∃ ds, Hex.Unmarked s.toList ds ∧ Hex.IsPairs ds) ∧
    (∀ s bs, ofHex s = .ok bs ↔
      ∃ ds, Hex.Unmarked s.toList ds ∧ Hex.IsPairs ds ∧ toHex bs = "0x" ++ String.ofList (ds.map Char.toLower)) ∧
    (∀ s, (∃ a, Address.ofText s = .ok a) ↔
      ∃ bs, ofHex (String.ofList (Text.trim s.toList)) = .ok bs ∧ bs.length = 20) ∧
    (∀ s a, Address.ofText s = .ok a ↔ ofHex (String.ofList (Text.trim s.toList)) = .ok a.bytes) ∧
    ∀ a : Address, Address.ofText a.text = .ok a := by
  refine ⟨ofHex_toHex, fun p q => ⟨fun h => Program.eq_of_texts h.1 h.2, ?_⟩, fun s => exists_ofHex_iff,
    fun s bs => ofHex_eq_ok_iff, fun s => ⟨?_, ?_⟩, fun s a => Address.ofText_eq_ok_iff, Address.ofText_text⟩
  · rintro rfl
    exact ⟨rfl, rfl⟩
  · rintro ⟨a, ha⟩
    exact ⟨a.bytes, Address.ofText_eq_ok_iff.1 ha, a.length_bytes⟩
  · rintro ⟨bs, hbs, hlen⟩
    exact ⟨⟨bs, hlen⟩, Address.ofText_eq_ok_iff.2 hbs⟩

/-- A marker of either case, and digits of both. -/
example : ofHex "0XbEeF" = .ok [0xBE, 0xEF] ∧ ofHex "0x0x12" = .error (.invalidHex "0x0x12" (.badCharacter 0x78 1)) := by
  decide +kernel

end CallPlan
