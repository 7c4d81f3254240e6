import CallPlan.Abi.JsonForm
import CallPlan.Proofs.Nesting
import CallPlan.Proofs.Numerals
import Mathlib.Data.List.Forall2
/-!
# The grammar of types

A type text is derived by rules (`Derives`): a name, an element type with a dimension behind it, or members between
parentheses, which the word `tuple` may precede.  The reader takes a text apart from its end: dimensions from the right, then
the outermost parentheses, without looking whether they belong together, then the commas between the members.  It reads
exactly what is derived (`ofText_iff_derives`).  What it reads is derived since each cut can be undone; what is derived is
read since derived text is nested, so that the cuts fall where the rules put the parts together.
-/
namespace CallPlan
namespace AbiType

open Text (WritesCount Nested Solid isBlank pieces trim joinWith)

/-! ## Rules -/

/-- **The names of types without members.** -/
inductive BaseName : List Char → AbiType → Prop
  | address : BaseName "address".toList .address
  | bool : BaseName "bool".toList .bool
  | string : BaseName "string".toList .string
  | bytes : BaseName "bytes".toList .bytes
  | byte : BaseName "byte".toList (.fixedBytes 1)
  | uint : BaseName "uint".toList (.uint 256)
  | int : BaseName "int".toList (.int 256)
  | uintOf {ds : List Char} {n : Nat} (written : WritesCount ds n) (width : n % 8 = 0 ∧ 8 ≤ n ∧ n ≤ 256) :
      BaseName ("uint".toList ++ ds) (.uint n)
  | intOf {ds : List Char} {n : Nat} (written : WritesCount ds n) (width : n % 8 = 0 ∧ 8 ≤ n ∧ n ≤ 256) :
      BaseName ("int".toList ++ ds) (.int n)
  | bytesOf {ds : List Char} {n : Nat} (written : WritesCount ds n) (size : 1 ≤ n ∧ n ≤ 32) :
      BaseName ("bytes".toList ++ ds) (.fixedBytes n)

mutual
/-- **The text derives the type.** -/
inductive Derives : List Char → AbiType → Prop
  | base {s : List Char} {ty : AbiType} (name : BaseName s ty) : Derives s ty
  | array {s : List Char} {ty : AbiType} (element : Derives s ty) : Derives (s ++ ['[', ']']) (.array ty)
  | fixedArray {s ds : List Char} {ty : AbiType} {n : Nat} (element : Derives s ty) (size : WritesCount ds n) :
      Derives (s ++ '[' :: (ds ++ [']'])) (.fixedArray ty n)
  | tuple {word l : List Char} {tys : List AbiType} (keyword : word = [] ∨ word = "tuple".toList)
      (members : DerivesAll l tys) : Derives (word ++ '(' :: (l ++ [')'])) (.tuple tys)

/-- **The text derives the members of a tuple**: it is blank, or types stand in it with commas between them and blanks
around them. -/
inductive DerivesAll : List Char → List AbiType → Prop
  | none {l : List Char} (blank : l.all isBlank = true) : DerivesAll l []
  | last {pre s post : List Char} {ty : AbiType} (before : pre.all isBlank = true) (member : Derives s ty)
      (behind : post.all isBlank = true) : DerivesAll (pre ++ s ++ post) [ty]
  | more {pre s post l : List Char} {ty ty' : AbiType} {tys : List AbiType} (before : pre.all isBlank = true)
      (member : Derives s ty) (behind : post.all isBlank = true) (others : DerivesAll l (ty' :: tys)) :
      DerivesAll (pre ++ s ++ post ++ ',' :: l) (ty :: ty' :: tys)
end

/-! ## Derived text is nested -/

/-- What a derived text has outside its parentheses. -/
def IsBare (c : Char) : Prop := c ≠ ',' ∧ isBlank c = false

instance : DecidablePred IsBare := fun c => inferInstanceAs (Decidable (c ≠ ',' ∧ isBlank c = false))

theorem isBlank_of_isAlphanum {c : Char} (h : c.isAlphanum = true) : isBlank c = false := by
  have hrange : 48 ≤ c.toNat ∧ c.toNat ≤ 57 ∨ 65 ≤ c.toNat ∧ c.toNat ≤ 90 ∨ 97 ≤ c.toNat ∧ c.toNat ≤ 122 := by
    have hranges : (decide (c.val ≥ 'A'.val ∧ c.val ≤ 'Z'.val) || (decide (c.val ≥ 'a'.val) && decide (c.val ≤ 'z'.val)) ||
        (decide (c.val ≥ '0'.val) && decide (c.val ≤ '9'.val))) = true := h
    simp only [Bool.or_eq_true, Bool.and_eq_true, decide_eq_true_eq, ge_iff_le, UInt32.le_iff_toNat_le] at hranges
    rcases hranges with (⟨h1, h2⟩ | ⟨h1, h2⟩) | ⟨h1, h2⟩
    · exact .inr (.inl ⟨h1, h2⟩)
    · exact .inr (.inr ⟨h1, h2⟩)
    · exact .inl ⟨h1, h2⟩
  simp only [isBlank, Bool.or_eq_false_iff, Bool.and_eq_false_iff, decide_eq_false_iff_not, beq_eq_false_iff_ne]
  omega

/-- The characters of names and numerals. -/
def IsNameOrSign (c : Char) : Prop := c = '+' ∨ c.isAlphanum = true

theorem IsNameOrSign.isBare {c : Char} (h : IsNameOrSign c) : c ≠ '(' ∧ c ≠ ')' ∧ IsBare c := by
  rcases h with rfl | h
  · exact ⟨by decide, by decide, by decide, by decide⟩
  · refine ⟨?_, ?_, ?_, isBlank_of_isAlphanum h⟩ <;> rintro rfl <;> exact absurd h (by decide)

theorem isNameOrSign_of_writesCount {ds : List Char} {n : Nat} (h : WritesCount ds n) : ∀ c ∈ ds, IsNameOrSign c := by
  intro c hc
  rcases h.mem hc with rfl | hdigit
  · exact .inl rfl
  · exact .inr (by simp [Char.isAlphanum, hdigit])

theorem BaseName.isNameOrSign {s : List Char} {ty : AbiType} (h : BaseName s ty) : ∀ c ∈ s, IsNameOrSign c := by
  have hfamily : ∀ {w ds : List Char} {n : Nat}, w.all Char.isAlphanum = true → WritesCount ds n →
      ∀ c ∈ w ++ ds, IsNameOrSign c := by
    intro w ds n hw hds c hc
    rcases List.mem_append.1 hc with hc | hc
    · exact .inr (List.all_eq_true.1 hw c hc)
    · exact isNameOrSign_of_writesCount hds c hc
  cases h with
  | uintOf written _ => exact hfamily (by decide) written
  | intOf written _ => exact hfamily (by decide) written
  | bytesOf written _ => exact hfamily (by decide) written
  | _ => exact fun c hc => .inr (List.all_eq_true.1 (by decide) c hc)

/-- Text with nothing that is cut at and no parentheses. -/
def IsFlat (s : List Char) : Prop := ∀ c ∈ s, c ≠ '(' ∧ c ≠ ')' ∧ IsBare c

instance (s : List Char) : Decidable (IsFlat s) := List.decidableBAll _ s

theorem IsFlat.nested {s : List Char} (h : IsFlat s) : Nested IsBare s := Text.nested_of_forall h

theorem IsFlat.append {s t : List Char} (hs : IsFlat s) (ht : IsFlat t) : IsFlat (s ++ t) :=
  List.forall_mem_append.2 ⟨hs, ht⟩

theorem BaseName.isFlat {s : List Char} {ty : AbiType} (h : BaseName s ty) : IsFlat s :=
  fun c hc => (h.isNameOrSign c hc).isBare

theorem isFlat_dimension {ds : List Char} {n : Nat} (h : WritesCount ds n) : IsFlat ('[' :: (ds ++ [']'])) := by
  have hds : IsFlat ds := fun c hc => (isNameOrSign_of_writesCount h c hc).isBare
  have hopen : IsFlat ['['] := by decide
  exact hopen.append (hds.append (by decide))

theorem isFlat_keyword {word : List Char} (h : word = [] ∨ word = "tuple".toList) : IsFlat word := by
  rcases h with rfl | rfl
  · decide
  · decide

theorem nested_of_blank {s : List Char} (h : s.all isBlank = true) : Nested (· ≠ ',') s := by
  refine Text.nested_of_forall fun c hc => ?_
  have hblank := List.all_eq_true.1 h c hc
  refine ⟨?_, ?_, ?_⟩ <;> rintro rfl <;> exact absurd hblank (by decide)

theorem nested_padded {pre s post : List Char} (hpre : pre.all isBlank = true) (hs : Nested (· ≠ ',') s)
    (hpost : post.all isBlank = true) : Nested (· ≠ ',') (pre ++ s ++ post) :=
  ((nested_of_blank hpre).append hs).append (nested_of_blank hpost)

mutual
theorem Derives.nested : ∀ {s : List Char} {ty : AbiType}, Derives s ty → Nested IsBare s
  | _, _, .base name => name.isFlat.nested
  | _, _, .array element => by
    have hdim : IsFlat ['[', ']'] := by decide
    exact element.nested.append hdim.nested
  | _, _, .fixedArray element size => element.nested.append (isFlat_dimension size).nested
  | _, _, .tuple keyword members => (isFlat_keyword keyword).nested.append (.parens members.nested .nil)

theorem DerivesAll.nested : ∀ {l : List Char} {tys : List AbiType}, DerivesAll l tys → Nested (fun _ => True) l
  | _, _, .none blank => (nested_of_blank blank).mono fun _ _ => trivial
  | _, _, .last before member behind =>
    (nested_padded before (member.nested.mono fun _ hc => hc.1) behind).mono fun _ _ => trivial
  | _, _, .more before member behind others =>
    ((nested_padded before (member.nested.mono fun _ hc => hc.1) behind).mono fun _ _ => trivial).append
      (.char (by decide) (by decide) trivial others.nested)
end

theorem Derives.ne_nil {s : List Char} {ty : AbiType} (h : Derives s ty) : s ≠ [] := by
  cases h with
  | base name =>
    cases name with
    | uintOf _ _ => exact List.cons_ne_nil _ _
    | intOf _ _ => exact List.cons_ne_nil _ _
    | bytesOf _ _ => exact List.cons_ne_nil _ _
    | _ => decide
  | _ => simp

theorem Derives.solid {s : List Char} {ty : AbiType} (h : Derives s ty) : Solid s :=
  h.nested.solid (fun _ hc => hc.2) h.ne_nil

/-! ## One step of the reader -/

theorem readWidth?_eq_some_iff {s : List Char} {n : Nat} :
    readWidth? s = some n ↔ WritesCount s n ∧ n % 8 = 0 ∧ 8 ≤ n ∧ n ≤ 256 := by
  rw [← Text.readCount?_eq_some_iff, readWidth?]
  cases Text.readCount? s with
  | none => simp
  | some m =>
    simp only [Option.ite_none_right_eq_some, Option.some.injEq]
    grind

theorem readByteCount?_eq_some_iff {s : List Char} {n : Nat} :
    readByteCount? s = some n ↔ WritesCount s n ∧ 1 ≤ n ∧ n ≤ 32 := by
  rw [← Text.readCount?_eq_some_iff, readByteCount?]
  cases Text.readCount? s with
  | none => simp
  | some m =>
    simp only [Option.ite_none_right_eq_some, Option.some.injEq]
    grind

theorem readBase?_eq_some_iff {s : List Char} {ty : AbiType} : readBase? s = some ty ↔ BaseName s ty := by
  constructor
  · intro h
    unfold readBase? at h
    split_ifs at h with h1 h2 h3 h4 h5 h6 h7
    · cases h; exact h1 ▸ .address
    · cases h; exact h2 ▸ .bool
    · cases h; exact h3 ▸ .string
    · cases h; exact h4 ▸ .bytes
    · cases h; exact h5 ▸ .byte
    · cases h; exact h6 ▸ .uint
    · cases h; exact h7 ▸ .int
    · split at h
      · rename_i ds hds
        obtain ⟨n, hn, rfl⟩ := Option.map_eq_some_iff.1 h
        obtain ⟨hwritten, hwidth⟩ := readWidth?_eq_some_iff.1 hn
        rw [(Text.dropWord?_eq_some_iff _ _ _).1 hds]
        exact .uintOf hwritten hwidth
      · split at h
        · rename_i ds hds
          obtain ⟨n, hn, rfl⟩ := Option.map_eq_some_iff.1 h
          obtain ⟨hwritten, hwidth⟩ := readWidth?_eq_some_iff.1 hn
          rw [(Text.dropWord?_eq_some_iff _ _ _).1 hds]
          exact .intOf hwritten hwidth
        · split at h
          · rename_i ds hds
            obtain ⟨n, hn, rfl⟩ := Option.map_eq_some_iff.1 h
            obtain ⟨hwritten, hsize⟩ := readByteCount?_eq_some_iff.1 hn
            rw [(Text.dropWord?_eq_some_iff _ _ _).1 hds]
            exact .bytesOf hwritten hsize
          · cases h
  · intro h
    cases h with
    | uintOf written width =>
      have hn := readWidth?_eq_some_iff.2 ⟨written, width⟩
      simp [readBase?, Text.dropWord?, written.ne_nil, hn]
    | intOf written width =>
      have hn := readWidth?_eq_some_iff.2 ⟨written, width⟩
      simp [readBase?, Text.dropWord?, written.ne_nil, hn]
    | bytesOf written size =>
      have hn := readByteCount?_eq_some_iff.2 ⟨written, size⟩
      simp [readBase?, Text.dropWord?, written.ne_nil, hn]
    | _ => rfl

theorem members?_eq_some_iff {s l : List Char} : members? s = some l ↔ s = '(' :: (l ++ [')']) := by
  unfold members?
  split
  · rw [Text.stripEnd?_eq_some_iff, List.cons.injEq, and_iff_right rfl]
  · rename_i hopen
    constructor
    · intro h
      cases h
    · rintro rfl
      exact absurd rfl (hopen _)

theorem mapM_eq_ok_iff {α β ε : Type} {f : α → Except ε β} : ∀ {l : List α} {r : List β},
    l.mapM f = .ok r ↔ List.Forall₂ (fun a b => f a = .ok b) l r
  | [], r => by
    rw [List.mapM_nil, List.forall₂_nil_left_iff]
    constructor
    · intro h
      cases h
      rfl
    · rintro rfl
      rfl
  | a :: l, r => by
    rw [List.mapM_cons, List.forall₂_cons_left_iff]
    cases ha : f a with
    | error e =>
      constructor
      · intro h
        cases h
      · rintro ⟨b, _, hb, _⟩
        cases hb
    | ok b =>
      cases hl : l.mapM f with
      | error e =>
        constructor
        · intro h
          cases h
        · rintro ⟨_, r', _, hr, _⟩
          rw [← mapM_eq_ok_iff, hl] at hr
          cases hr
      | ok bs =>
        constructor
        · intro h
          cases h
          exact ⟨b, bs, rfl, mapM_eq_ok_iff.1 hl, rfl⟩
        · rintro ⟨_, r', hb, hr, rfl⟩
          cases hb
          rw [← mapM_eq_ok_iff, hl] at hr
          cases hr
          rfl

/-- The reader without the proofs that it ends. -/
theorem read_eq (s : List Char) :
    read s =
      match Text.stripEnd? ']' (dropTupleWord s) with
      | some dimensioned =>
        match Text.splitLast? '[' dimensioned with
        | none                 => .error (.invalidType (String.ofList s))
        | some (element, size) =>
          match read element with
          | .error e  => .error e
          | .ok inner =>
            if size.isEmpty then .ok (.array inner)
            else
              match Text.readCount? size with
              | some n => .ok (.fixedArray inner n)
              | none   => .error (.invalidType (String.ofList s))
      | none =>
        match members? (dropTupleWord s) with
        | some list => ((pieces list).mapM fun p => read (trim p)).map .tuple
        | none      =>
          match readBase? (dropTupleWord s) with
          | some base => .ok base
          | none      => .error (.invalidType (String.ofList s)) := by
  rw [read]
  split
  · rename_i dimensioned h
    rw [h]
    simp only
    split
    · rename_i h'
      rw [h']
    · rename_i element size h'
      rw [h']
      simp only
      cases read element with
      | error e => rfl
      | ok inner => rfl
  · rename_i h
    rw [h]
    simp only
    split
    · rename_i list h'
      rw [h']
      simp only
      rw [List.mapM_subtype (g := fun p => read (trim p)) (fun _ _ => rfl), List.unattach_attach]
      cases (pieces list).mapM fun p => read (trim p) <;> rfl
    · rename_i h'
      cases readBase? (dropTupleWord s) <;> rw [h']

/-- **What the reader finds in a text that has no word in front of its parentheses.** -/
inductive Found (t : List Char) : AbiType → Prop
  | array {e : List Char} {inner : AbiType} (text : t = e ++ ['[', ']']) (element : read e = .ok inner) :
      Found t (.array inner)
  | fixedArray {e ds : List Char} {inner : AbiType} {n : Nat} (text : t = e ++ '[' :: (ds ++ [']']))
      (element : read e = .ok inner) (size : WritesCount ds n) : Found t (.fixedArray inner n)
  | tuple {l : List Char} {tys : List AbiType} (text : t = '(' :: (l ++ [')']))
      (members : List.Forall₂ (fun p ty => read (trim p) = .ok ty) (pieces l) tys) : Found t (.tuple tys)
  | base {ty : AbiType} (name : BaseName t ty) : Found t ty

theorem found_of_read {s : List Char} {ty : AbiType} (h : read s = .ok ty) : Found (dropTupleWord s) ty := by
  rw [read_eq] at h
  split at h
  · rename_i dimensioned hstrip
    have htext := Text.stripEnd?_eq_some_iff.1 hstrip
    split at h
    · cases h
    · rename_i element size hsplit
      have hdim := Text.eq_of_splitLast? _ _ _ hsplit
      rw [hdim, List.append_assoc, List.cons_append] at htext
      split at h
      · cases h
      · rename_i inner hinner
        split at h
        · rename_i hsize
          cases h
          exact .array (by rw [htext, List.isEmpty_iff.1 hsize]; rfl) hinner
        · split at h <;> cases h
          rename_i hcount
          exact .fixedArray htext hinner (Text.readCount?_eq_some_iff.1 hcount)
  · split at h
    · rename_i list hmembers
      cases hall : (pieces list).mapM fun p => read (trim p) with
      | error e =>
        rw [hall] at h
        cases h
      | ok tys =>
        rw [hall] at h
        cases h
        exact .tuple (members?_eq_some_iff.1 hmembers) (mapM_eq_ok_iff.1 hall)
    · split at h <;> cases h
      rename_i hbase
      exact .base (readBase?_eq_some_iff.1 hbase)

theorem BaseName.stripEnd?_eq_none {t : List Char} {ty : AbiType} (h : BaseName t ty) : Text.stripEnd? ']' t = none := by
  rw [Option.eq_none_iff_forall_ne_some]
  intro r hr
  rw [Text.stripEnd?_eq_some_iff.1 hr] at h
  exact absurd (h.isNameOrSign ']' (by simp)) (by unfold IsNameOrSign; decide)

theorem BaseName.members?_eq_none {t : List Char} {ty : AbiType} (h : BaseName t ty) : members? t = none := by
  rw [Option.eq_none_iff_forall_ne_some]
  intro l hl
  rw [members?_eq_some_iff.1 hl] at h
  exact (h.isNameOrSign '(' List.mem_cons_self).isBare.1 rfl

theorem read_of_found {s : List Char} {ty : AbiType} (h : Found (dropTupleWord s) ty) : read s = .ok ty := by
  rw [read_eq]
  cases h with
  | array text element =>
    rename_i e inner
    have hstrip : Text.stripEnd? ']' (dropTupleWord s) = some (e ++ ['[']) :=
      Text.stripEnd?_eq_some_iff.2 (by rw [text, List.append_assoc]; rfl)
    have hsplit : Text.splitLast? '[' (e ++ ['[']) = some (e, []) := Text.splitLast?_append (by simp) e
    simp [hstrip, hsplit, element]
  | fixedArray text element size =>
    rename_i e ds inner n
    have hstrip : Text.stripEnd? ']' (dropTupleWord s) = some (e ++ '[' :: ds) :=
      Text.stripEnd?_eq_some_iff.2 (by rw [text, List.append_assoc]; rfl)
    -- no bracket stands in a numeral, so the last one opens the dimension
    have hno : '[' ∉ ds := fun hmem =>
      absurd (isNameOrSign_of_writesCount size '[' hmem) (by unfold IsNameOrSign; decide)
    simp [hstrip, Text.splitLast?_append hno e, element, size.ne_nil, Text.readCount?_eq_some_iff.2 size]
  | tuple text members =>
    rename_i l tys
    have hstrip : Text.stripEnd? ']' (dropTupleWord s) = none := by
      rw [Option.eq_none_iff_forall_ne_some]
      intro r hr
      have hlast := congrArg List.getLast? (text.symm.trans (Text.stripEnd?_eq_some_iff.1 hr))
      rw [← List.cons_append, List.getLast?_concat, List.getLast?_concat] at hlast
      cases hlast
    simp [hstrip, members?_eq_some_iff.2 text, mapM_eq_ok_iff.2 members, Except.map]
  | base name => simp [name.stripEnd?_eq_none, name.members?_eq_none, readBase?_eq_some_iff.2 name]

theorem read_eq_ok_iff_found {s : List Char} {ty : AbiType} : read s = .ok ty ↔ Found (dropTupleWord s) ty :=
  ⟨found_of_read, read_of_found⟩

/-! ## The word in front of a tuple -/

theorem dropTupleWord_tuple (r : List Char) : dropTupleWord ("tuple".toList ++ '(' :: r) = '(' :: r := by
  unfold dropTupleWord
  rw [(Text.dropWord?_eq_some_iff _ _ _).2 rfl]
  rfl

theorem dropTupleWord_of_ne {s : List Char} (h : ∀ r, s ≠ "tuple".toList ++ '(' :: r) : dropTupleWord s = s := by
  unfold dropTupleWord
  split
  · rename_i r hr
    exact absurd ((Text.dropWord?_eq_some_iff _ _ _).1 hr) (h r)
  · rfl

theorem dropTupleWord_cases (s : List Char) :
    (∃ r, s = "tuple".toList ++ '(' :: r) ∨ ∀ r, s ≠ "tuple".toList ++ '(' :: r := by
  by_cases h : ∃ r, s = "tuple".toList ++ '(' :: r
  · exact .inl h
  · exact .inr fun r hr => h ⟨r, hr⟩

theorem dropTupleWord_open (r : List Char) : dropTupleWord ('(' :: r) = '(' :: r :=
  dropTupleWord_of_ne fun _ h => absurd (List.cons.inj h).1 (by decide)

theorem dropTupleWord_keyword {word : List Char} (h : word = [] ∨ word = "tuple".toList) (r : List Char) :
    dropTupleWord (word ++ '(' :: r) = '(' :: r := by
  rcases h with rfl | rfl
  · exact dropTupleWord_open r
  · exact dropTupleWord_tuple r

theorem dropTupleWord_idem (s : List Char) : dropTupleWord (dropTupleWord s) = dropTupleWord s := by
  rcases dropTupleWord_cases s with ⟨r, rfl⟩ | h
  · rw [dropTupleWord_tuple, dropTupleWord_open]
  · rw [dropTupleWord_of_ne h, dropTupleWord_of_ne h]

/-- A dimension behind a text leaves the word in front of it alone. -/
theorem dropTupleWord_append_dimension (e r : List Char) :
    dropTupleWord (e ++ '[' :: r) = dropTupleWord e ++ '[' :: r := by
  rcases dropTupleWord_cases e with ⟨q, rfl⟩ | h
  · rw [List.append_assoc, List.cons_append, dropTupleWord_tuple, dropTupleWord_tuple, List.cons_append]
  · rw [dropTupleWord_of_ne h, dropTupleWord_of_ne]
    intro q hq
    have hq' : e ++ '[' :: r = "tuple".toList ++ ['('] ++ q := by rw [hq, List.append_assoc]; rfl
    -- the bracket is none of the characters up to the open parenthesis, so these all stand in `e`
    rcases List.append_eq_append_iff.1 hq' with ⟨m, hm, hm'⟩ | ⟨m, hm, -⟩
    · cases m with
      | nil => exact h [] (by rw [hm, List.append_nil])
      | cons c m =>
        have hmem : '[' ∈ "tuple".toList ++ ['('] := by rw [hm, (List.cons.inj hm').1]; simp
        exact absurd hmem (by decide)
    · exact h m (by rw [hm, List.append_assoc]; rfl)

/-! ## What is read is derived -/

theorem Derives.word_tuple {s : List Char} {ty : AbiType} (h : Derives s ty) :
    ∀ {r : List Char}, s = '(' :: r → Derives ("tuple".toList ++ s) ty := by
  intro r hr
  match h with
  | .base name =>
    refine absurd rfl (name.isNameOrSign '(' ?_).isBare.1
    rw [hr]
    exact List.mem_cons_self
  | .array element =>
    obtain ⟨c, t, rfl⟩ := List.exists_cons_of_ne_nil element.ne_nil
    obtain rfl : c = '(' := (List.cons.inj hr).1
    exact (element.word_tuple rfl).array
  | .fixedArray element size =>
    obtain ⟨c, t, rfl⟩ := List.exists_cons_of_ne_nil element.ne_nil
    obtain rfl : c = '(' := (List.cons.inj hr).1
    exact (element.word_tuple rfl).fixedArray size
  | .tuple keyword members =>
    rcases keyword with rfl | rfl
    · exact .tuple (.inr rfl) members
    · exact absurd (List.cons.inj hr).1 (by decide)

theorem derivesAll_joinWith : ∀ {ps : List (List Char)} {tys : List AbiType}, ps ≠ [] →
    List.Forall₂ (fun p ty => Derives (trim p) ty) ps tys → DerivesAll (joinWith [','] ps) tys
  | [], _, hne, _ => absurd rfl hne
  | [p], _, _, .cons hp .nil => by
    obtain ⟨pre, post, hpre, hpost, heq⟩ := Text.exists_eq_append_trim p
    rw [joinWith, heq]
    exact .last hpre hp hpost
  | p :: q :: ps, _, _, .cons hp (.cons hq hps) => by
    obtain ⟨pre, post, hpre, hpost, heq⟩ := Text.exists_eq_append_trim p
    have hrest := derivesAll_joinWith (List.cons_ne_nil q ps) (.cons hq hps)
    rw [joinWith, List.append_assoc, List.singleton_append, heq]
    exact .more hpre hp hpost hrest

theorem derivesAll_of_pieces {l : List Char} {tys : List AbiType}
    (h : List.Forall₂ (fun p ty => Derives (trim p) ty) (pieces l) tys) : DerivesAll l tys := by
  by_cases hblank : l.all isBlank = true
  · rw [Text.pieces_eq_nil_iff.2 hblank] at h
    cases h
    exact .none hblank
  · have hpieces : pieces l = Text.piecesAt 0 l := if_neg hblank
    rw [hpieces] at h
    rw [← Text.joinWith_piecesAt l 0]
    exact derivesAll_joinWith (Text.piecesAt_ne_nil 0 l) h

/-- **What is read is derived**, by induction on the length of the text. -/
theorem derives_of_read (s : List Char) (ty : AbiType) (h : read s = .ok ty) : Derives s ty := by
  have hlen := length_dropTupleWord_le s
  have hdropped : Derives (dropTupleWord s) ty := by
    cases found_of_read h with
    | array text element =>
      rename_i e inner
      have : e.length < s.length := by
        rw [text] at hlen
        simp only [List.length_append, List.length_cons] at hlen
        omega
      rw [text]
      exact (derives_of_read e inner element).array
    | fixedArray text element size =>
      rename_i e ds inner n
      have : e.length < s.length := by
        rw [text] at hlen
        simp only [List.length_append, List.length_cons] at hlen
        omega
      rw [text]
      exact (derives_of_read e inner element).fixedArray size
    | tuple text members =>
      rename_i l tys
      have hshorter : ∀ p ∈ pieces l, (trim p).length < s.length := by
        intro p hp
        have h1 := Text.length_le_of_mem_pieces hp
        have h2 := Text.length_trim_le p
        rw [text] at hlen
        simp only [List.length_append, List.length_cons] at hlen
        omega
      rw [text]
      refine .tuple (.inl rfl) (derivesAll_of_pieces ?_)
      refine List.forall₂_iff_get.2 ⟨members.length_eq, fun i hi hi' => ?_⟩
      have := hshorter _ (List.get_mem (pieces l) ⟨i, hi⟩)
      exact derives_of_read _ _ ((List.forall₂_iff_get.1 members).2 i hi hi')
    | base name => exact .base name
  rcases dropTupleWord_cases s with ⟨r, rfl⟩ | hne
  · rw [dropTupleWord_tuple] at hdropped
    exact hdropped.word_tuple rfl
  · rwa [dropTupleWord_of_ne hne] at hdropped
termination_by s.length

/-! ## What is derived is read -/

theorem read_dropTupleWord {s : List Char} {ty : AbiType} (h : read s = .ok ty) : read (dropTupleWord s) = .ok ty := by
  rw [read_eq_ok_iff_found, dropTupleWord_idem]
  exact found_of_read h

theorem not_blank_padded {pre s post : List Char} (hs : Solid s) : (pre ++ s ++ post).all isBlank = false := by
  rw [List.all_append, List.all_append, hs.all_blank, Bool.and_false, Bool.false_and]

mutual
theorem Derives.read_eq_ok : ∀ {s : List Char} {ty : AbiType}, Derives s ty → read s = .ok ty
  | s, ty, .base name => by
    have hbare : ∀ r, s ≠ "tuple".toList ++ '(' :: r := by
      rintro r rfl
      exact absurd rfl (name.isNameOrSign '(' (by simp)).isBare.1
    rw [read_eq_ok_iff_found, dropTupleWord_of_ne hbare]
    exact .base name
  | _, _, .array element => by
    rw [read_eq_ok_iff_found, dropTupleWord_append_dimension]
    exact .array rfl (read_dropTupleWord element.read_eq_ok)
  | _, _, .fixedArray element size => by
    rw [read_eq_ok_iff_found, dropTupleWord_append_dimension]
    exact .fixedArray rfl (read_dropTupleWord element.read_eq_ok) size
  | _, _, .tuple keyword members => by
    rw [read_eq_ok_iff_found, dropTupleWord_keyword keyword]
    exact .tuple rfl members.read_pieces

theorem DerivesAll.read_pieces : ∀ {l : List Char} {tys : List AbiType}, DerivesAll l tys →
    List.Forall₂ (fun p ty => read (trim p) = .ok ty) (pieces l) tys
  | _, _, .none blank => by
    rw [Text.pieces_eq_nil_iff.2 blank]
    exact .nil
  | _, _, .last before member behind => by
    have hmember := member.nested.mono fun _ hc => hc.1
    rw [(nested_padded before hmember behind).pieces_eq (not_blank_padded member.solid)]
    refine .cons ?_ .nil
    rw [member.solid.trim_eq before behind]
    exact member.read_eq_ok
  | _, _, @DerivesAll.more _ _ _ l _ _ _ before member behind others => by
    have hothers := others.read_pieces
    have hl : l.all isBlank = false := by
      by_contra hblank
      rw [Text.pieces_eq_nil_iff.2 (by simpa using hblank)] at hothers
      cases hothers
    have hmember := member.nested.mono fun _ hc => hc.1
    rw [(nested_padded before hmember behind).pieces_append (not_blank_padded member.solid) hl]
    refine .cons ?_ hothers
    rw [member.solid.trim_eq before behind]
    exact member.read_eq_ok
end

theorem read_eq_ok_iff {s : List Char} {ty : AbiType} : read s = .ok ty ↔ Derives s ty :=
  ⟨derives_of_read s ty, Derives.read_eq_ok⟩

/-! ## Canonical text -/

theorem chars_fixedArray (t : AbiType) (n : Nat) :
    (fixedArray t n).chars = t.chars ++ '[' :: (Text.decimal n ++ [']']) :=
  List.append_assoc t.chars ('[' :: Text.decimal n) [']']

theorem lt_countLimit_of_le {n : Nat} (h : n ≤ 256) : n < Text.countLimit :=
  Nat.lt_of_le_of_lt h (by decide)

theorem BaseName.baseName_chars {s : List Char} {ty : AbiType} (h : BaseName s ty) : BaseName ty.chars ty := by
  cases h with
  | address => exact .address
  | bool => exact .bool
  | string => exact .string
  | bytes => exact .bytes
  | byte => exact .bytesOf (Text.writesCount_decimal (by decide)) (by decide)
  | uint => exact .uintOf (Text.writesCount_decimal (by decide)) (by decide)
  | int => exact .intOf (Text.writesCount_decimal (by decide)) (by decide)
  | uintOf _ width => exact .uintOf (Text.writesCount_decimal (lt_countLimit_of_le width.2.2)) width
  | intOf _ width => exact .intOf (Text.writesCount_decimal (lt_countLimit_of_le width.2.2)) width
  | bytesOf _ size =>
    exact .bytesOf (Text.writesCount_decimal (lt_countLimit_of_le (Nat.le_trans size.2 (by decide)))) size

mutual
/-- **A type that some text derives is derived by its canonical text.** -/
theorem Derives.derives_chars : ∀ {s : List Char} {ty : AbiType}, Derives s ty → Derives ty.chars ty
  | _, _, .base name => .base name.baseName_chars
  | _, _, .array element => element.derives_chars.array
  | _, _, .fixedArray element size => by
    obtain ⟨-, -, -, hlt⟩ := size
    rw [chars_fixedArray]
    exact element.derives_chars.fixedArray (Text.writesCount_decimal hlt)
  | _, _, .tuple _ members => .tuple (.inl rfl) members.derivesAll_chars

theorem DerivesAll.derivesAll_chars : ∀ {l : List Char} {tys : List AbiType}, DerivesAll l tys →
    DerivesAll (joinWith [','] (charsAll tys)) tys
  | _, _, .none _ => .none rfl
  | _, [ty], .last _ member _ => by
    have h : DerivesAll ([] ++ ty.chars ++ []) [ty] := .last rfl member.derives_chars rfl
    simpa [charsAll, joinWith] using h
  | _, ty :: ty' :: tys, .more _ member _ others => by
    have h : DerivesAll ([] ++ ty.chars ++ [] ++ ',' :: joinWith [','] (charsAll (ty' :: tys))) (ty :: ty' :: tys) :=
      .more rfl member.derives_chars rfl others.derivesAll_chars
    simpa [charsAll, joinWith] using h
end

theorem ofText_text {ty : AbiType} (h : Derives ty.chars ty) : ofText ty.text = .ok ty := by
  rw [ofText, text, String.toList_ofList, h.solid.trim_self]
  exact h.read_eq_ok

/-- **The reader reads exactly what the grammar derives**, blanks at the ends aside.  A type that it reads is read again from its
canonical text, which is also its form in JSON. -/
theorem ofText_iff_derives (s : String) (ty : AbiType) :
    (ofText s = .ok ty ↔ Derives (trim s.toList) ty) ∧
    (ofText s = .ok ty → ofText ty.text = .ok ty ∧ ofJson? ty.toJson = some ty) := by
  refine ⟨read_eq_ok_iff, fun h => ?_⟩
  have htext := ofText_text (read_eq_ok_iff.1 h).derives_chars
  refine ⟨htext, ?_⟩
  simp [ofJson?, toJson, Json.text?, htext, Except.toOption]

/-- Short names, a plus sign, leading zeros, blanks and the word `tuple` all go into one canonical text. -/
theorem ofText_iff_derives_loose :
    Derives (trim " tuple( uint ,byte[+02])[] ".toList) (.array (.tuple [.uint 256, .fixedArray (.fixedBytes 1) 2])) ∧
      ofText " tuple( uint ,byte[+02])[] " = .ok (.array (.tuple [.uint 256, .fixedArray (.fixedBytes 1) 2])) ∧
      ofText "(uint256,bytes1[2])[]" = .ok (.array (.tuple [.uint 256, .fixedArray (.fixedBytes 1) 2])) := by
  have hsize : WritesCount "+02".toList 2 :=
    ⟨"02".toList, .inr (by decide), ⟨by decide, List.all_eq_true.1 (by decide), by decide⟩, by decide⟩
  have hmembers : DerivesAll
      ([' '] ++ "uint".toList ++ [' '] ++ ',' :: ([] ++ ("byte".toList ++ '[' :: ("+02".toList ++ [']'])) ++ []))
      [.uint 256, .fixedArray (.fixedBytes 1) 2] :=
    .more (by decide) (.base .uint) (by decide) (.last rfl ((Derives.base .byte).fixedArray hsize) rfl)
  have htrim : trim " tuple( uint ,byte[+02])[] ".toList =
      "tuple".toList ++ '(' :: ([' '] ++ "uint".toList ++ [' '] ++ ',' ::
        ([] ++ ("byte".toList ++ '[' :: ("+02".toList ++ [']'])) ++ []) ++ [')']) ++ ['[', ']'] := by decide
  have hderives : Derives (trim " tuple( uint ,byte[+02])[] ".toList)
      (.array (.tuple [.uint 256, .fixedArray (.fixedBytes 1) 2])) :=
    htrim ▸ (Derives.tuple (.inr rfl) hmembers).array
  obtain ⟨hiff, htext⟩ := ofText_iff_derives " tuple( uint ,byte[+02])[] "
    (.array (.tuple [.uint 256, .fixedArray (.fixedBytes 1) 2]))
  have hcanonical : text (.array (.tuple [.uint 256, .fixedArray (.fixedBytes 1) 2])) = "(uint256,bytes1[2])[]" := by decide
  exact ⟨hderives, hiff.2 hderives, hcanonical ▸ (htext (hiff.2 hderives)).1⟩

end AbiType
end CallPlan
