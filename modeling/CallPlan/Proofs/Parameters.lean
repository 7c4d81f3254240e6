import CallPlan.Abi.Function.Reader
import CallPlan.Proofs.Grammar
import CallPlan.Proofs.Spacing
/-!
# Parameters and their decorations

A parameter is written as a type with words behind it: modifiers, and its name if it has one.  The components of a tuple are
parameters again, whose names and modifiers say nothing about the type (`WritesKind`, `WritesList`).  The reader looks for the
end of a type, rebuilds tuples from their components and hands the result to the reader of types.  So what it gets for a
parameter is the type and the name that were written, at every depth (`WritesList.readList?_eq`).
-/
namespace CallPlan

open Text (Nested Solid Spaced IsWord WritesCount isBlank pieces trim joinWith)
open AbiType (Derives DerivesAll BaseName IsBare IsFlat)

theorem mapM_eq_some_iff {α β : Type} {f : α → Option β} : ∀ {l : List α} {r : List β},
    l.mapM f = some r ↔ List.Forall₂ (fun a b => f a = some b) l r
  | [], r => by simp [eq_comm]
  | a :: l, r => by
    rw [List.mapM_cons, List.forall₂_cons_left_iff]
    simp only [Option.bind_eq_bind, Option.bind_eq_some_iff, Option.pure_def, Option.some.injEq, mapM_eq_some_iff]
    constructor
    · rintro ⟨b, hb, bs, hbs, rfl⟩
      exact ⟨b, bs, hb, hbs, rfl⟩
    · rintro ⟨b, bs, hb, hbs, rfl⟩
      exact ⟨b, hb, bs, hbs, rfl⟩

theorem forall_mem_of_forall₂ {α β : Type} {R : α → β → Prop} {P : β → Prop} {l : List α} {r : List β}
    (h : List.Forall₂ R l r) (hR : ∀ a b, R a b → P b) : ∀ b ∈ r, P b := by
  induction h with
  | nil => exact fun b hb => absurd hb List.not_mem_nil
  | cons hab _ ih =>
    intro b hb
    rcases List.mem_cons.1 hb with rfl | hb
    · exact hR _ _ hab
    · exact ih b hb

/-! ## Identifiers -/

namespace Function

theorem isNameChar_cases {c : Char} (h : isNameChar c = true) : c.isAlphanum = true ∨ c = '_' ∨ c = '$' := by
  simpa [isNameChar, or_assoc] using h

theorem isBlank_of_isNameChar {c : Char} (h : isNameChar c = true) : isBlank c = false := by
  rcases isNameChar_cases h with h | rfl | rfl
  · exact AbiType.isBlank_of_isAlphanum h
  · rfl
  · rfl

end Function

/-- **A name**: ASCII letters and digits, underscores and dollar signs, one at least. -/
def IsIdentifier (w : List Char) : Prop := w ≠ [] ∧ ∀ c ∈ w, Function.isNameChar c = true

instance (w : List Char) : Decidable (IsIdentifier w) :=
  have : Decidable (∀ c ∈ w, Function.isNameChar c = true) := List.decidableBAll _ w
  inferInstanceAs (Decidable (_ ∧ _))

section
variable {w : List Char} {c : Char}

theorem IsIdentifier.not_mem (h : IsIdentifier w) (hc : Function.isNameChar c = false) : c ∉ w := fun hmem => by
  rw [h.2 c hmem] at hc
  cases hc

theorem IsIdentifier.isWord (h : IsIdentifier w) : IsWord w := ⟨h.1, fun c hc => Function.isBlank_of_isNameChar (h.2 c hc)⟩

theorem IsIdentifier.isFlat (h : IsIdentifier w) : IsFlat w := by
  refine fun c hc => ⟨?_, ?_, ?_, h.isWord.2 c hc⟩
  · rintro rfl
    exact h.not_mem rfl hc
  · rintro rfl
    exact h.not_mem rfl hc
  · rintro rfl
    exact h.not_mem rfl hc

end

def Param.unnamed (ty : AbiType) : Param := ⟨"", ty⟩

theorem Function.map_kind_unnamed (tys : List AbiType) : (tys.map Param.unnamed).map Param.kind = tys := by
  rw [List.map_map]
  exact List.map_id tys

namespace Param

/-! ## Rules -/

/-- **The words behind a type**: modifiers, and the name among them if there is one. -/
inductive Named : String → List (List Char) → Prop where
  | unnamed {ws : List (List Char)} (plain : ∀ w ∈ ws, w ∈ modifiers) : Named "" ws
  | named {name : String} {before behind : List (List Char)} (plain : ∀ w ∈ before ++ behind, w ∈ modifiers)
      (identifier : IsIdentifier name.toList) (other : name.toList ∉ modifiers) : Named name (before ++ name.toList :: behind)

mutual
/-- **The text writes the type**, with names and modifiers at the components of tuples. -/
inductive WritesKind : List Char → AbiType → Prop where
  | base {s : List Char} {ty : AbiType} (name : BaseName s ty) : WritesKind s ty
  | array {s : List Char} {ty : AbiType} (element : WritesKind s ty) : WritesKind (s ++ ['[', ']']) (.array ty)
  | fixedArray {s ds : List Char} {ty : AbiType} {n : Nat} (element : WritesKind s ty) (size : WritesCount ds n) :
      WritesKind (s ++ '[' :: (ds ++ [']'])) (.fixedArray ty n)
  | tuple {word l : List Char} {ps : List Param} (keyword : word = [] ∨ word = "tuple".toList)
      (components : WritesList l ps) : WritesKind (word ++ '(' :: (l ++ [')'])) (.tuple (ps.map kind))

/-- **The text writes the parameter.** -/
inductive Writes : List Char → Param → Prop where
  | param {s t : List Char} {name : String} {ty : AbiType} {ws : List (List Char)} (kind : WritesKind s ty)
      (row : Spaced ws t) (named : Named name ws) : Writes (s ++ t) ⟨name, ty⟩

/-- **The text writes the parameters**, with commas between them and blanks around them. -/
inductive WritesList : List Char → List Param → Prop where
  | none {l : List Char} (blank : l.all isBlank = true) : WritesList l []
  | last {pre s post : List Char} {p : Param} (before : pre.all isBlank = true) (param : Writes s p)
      (behind : post.all isBlank = true) : WritesList (pre ++ s ++ post) [p]
  | more {pre s post l : List Char} {p q : Param} {ps : List Param} (before : pre.all isBlank = true) (param : Writes s p)
      (behind : post.all isBlank = true) (others : WritesList l (q :: ps)) :
      WritesList (pre ++ s ++ post ++ ',' :: l) (p :: q :: ps)
end

/-! ## Words -/

section
variable {name : String} {ws : List (List Char)} {t : List Char}

theorem isIdentifier_of_mem_modifiers : ∀ w ∈ modifiers, IsIdentifier w := by decide

theorem Named.isIdentifier (h : Named name ws) : ∀ w ∈ ws, IsIdentifier w := by
  cases h with
  | unnamed plain => exact fun w hw => isIdentifier_of_mem_modifiers w (plain w hw)
  | @named name before behind plain identifier other =>
    intro w hw
    rcases List.mem_append.1 hw with hw | hw
    · exact isIdentifier_of_mem_modifiers w (plain w (List.mem_append_left _ hw))
    · rcases List.mem_cons.1 hw with rfl | hw
      · exact identifier
      · exact isIdentifier_of_mem_modifiers w (plain w (List.mem_append_right _ hw))

theorem filter_modifiers (h : ∀ w ∈ ws, w ∈ modifiers) : ws.filter (!modifiers.contains ·) = [] := by
  simpa [List.filter_eq_nil_iff] using h

theorem Named.readName?_eq (h : Named name ws) (ht : Spaced ws t) : readName? t = some name := by
  unfold readName?
  rw [ht.words_eq]
  cases h with
  | unnamed plain => rw [filter_modifiers plain]
  | named plain identifier other =>
    have hbefore := filter_modifiers fun w hw => plain w (List.mem_append_left _ hw)
    have hbehind := filter_modifiers fun w hw => plain w (List.mem_append_right _ hw)
    rw [List.filter_append, List.filter_cons_of_pos (by simpa using other), hbefore, hbehind]
    simp

theorem nested_row (h : Spaced ws t) (hws : ∀ w ∈ ws, IsIdentifier w) : Nested (· ≠ ',') t := by
  induction h with
  | nil => exact .nil
  | cons _ blank _ _ ih =>
    rw [List.forall_mem_cons] at hws
    exact (AbiType.nested_of_blank blank).append ((hws.1.isFlat.nested.mono fun _ hc => hc.1).append (ih hws.2))

end

end Param

namespace AbiType

/-! ## Canonical texts of components -/

theorem charsAll_eq_map : ∀ tys : List AbiType, charsAll tys = tys.map chars
  | [] => rfl
  | ty :: tys => congrArg (ty.chars :: ·) (charsAll_eq_map tys)

theorem pieces_charsAll {tys : List AbiType} (h : ∀ ty ∈ tys, Derives ty.chars ty) :
    pieces (joinWith [','] (charsAll tys)) = charsAll tys := by
  refine Text.pieces_joinWith fun p hp => ?_
  rw [charsAll_eq_map] at hp
  obtain ⟨ty, hty, rfl⟩ := List.mem_map.1 hp
  exact ⟨(h ty hty).nested.mono fun _ hc => hc.1, (h ty hty).solid.all_blank⟩

theorem derivesAll_charsAll {tys : List AbiType} (h : ∀ ty ∈ tys, Derives ty.chars ty) :
    DerivesAll (joinWith [','] (charsAll tys)) tys := by
  refine derivesAll_of_pieces ?_
  rw [pieces_charsAll h, charsAll_eq_map, List.forall₂_map_left_iff, List.forall₂_same]
  intro ty hty
  rw [(h ty hty).solid.trim_self]
  exact h ty hty

theorem DerivesAll.derives_chars {l : List Char} {tys : List AbiType} (h : DerivesAll l tys) :
    ∀ ty ∈ tys, Derives ty.chars ty :=
  forall_mem_of_forall₂ h.read_pieces fun _ _ hread => (read_eq_ok_iff.1 hread).derives_chars

end AbiType

namespace Param

/-! ## Written text is nested -/

section
variable {s l : List Char} {ty : AbiType} {p : Param} {ps : List Param}

theorem WritesKind.ne_nil (h : WritesKind s ty) : s ≠ [] := by
  cases h with
  | base name => exact (Derives.base name).ne_nil
  | _ => simp

mutual
theorem WritesKind.nested : ∀ {s : List Char} {ty : AbiType}, WritesKind s ty → Nested IsBare s
  | _, _, .base name => (Derives.base name).nested
  | _, _, .array element => by
    have hdim : IsFlat ['[', ']'] := by decide
    exact element.nested.append hdim.nested
  | _, _, .fixedArray element size => element.nested.append (AbiType.isFlat_dimension size).nested
  | _, _, .tuple keyword components => (AbiType.isFlat_keyword keyword).nested.append (.parens components.nested .nil)

theorem Writes.nested : ∀ {s : List Char} {p : Param}, Writes s p → Nested (· ≠ ',') s
  | _, _, .param kind row named => (kind.nested.mono fun _ hc => hc.1).append (nested_row row named.isIdentifier)

theorem WritesList.nested : ∀ {l : List Char} {ps : List Param}, WritesList l ps → Nested (fun _ => True) l
  | _, _, .none blank => (AbiType.nested_of_blank blank).mono fun _ _ => trivial
  | _, _, .last before param behind => (AbiType.nested_padded before param.nested behind).mono fun _ _ => trivial
  | _, _, .more before param behind others =>
    ((AbiType.nested_padded before param.nested behind).mono fun _ _ => trivial).append
      (.char (by decide) (by decide) trivial others.nested)
end

theorem Writes.solid (h : Writes s p) : Solid s := by
  cases h with
  | param kind row named => exact row.solid_append (kind.nested.solid (fun _ hc => hc.2) kind.ne_nil)

theorem WritesList.not_blank (h : WritesList l ps) (hps : ps ≠ []) : l.all isBlank = false := by
  cases h with
  | none _ => exact absurd rfl hps
  | last _ param _ => exact AbiType.not_blank_padded param.solid
  | more _ param _ _ => rw [List.all_append, AbiType.not_blank_padded param.solid, Bool.false_and]

/-! ## Written types have a canonical text -/

mutual
theorem WritesKind.derives_chars : ∀ {s : List Char} {ty : AbiType}, WritesKind s ty → Derives ty.chars ty
  | _, _, .base name => (Derives.base name).derives_chars
  | _, _, .array element => element.derives_chars.array
  | _, _, .fixedArray element size => (element.derives_chars.fixedArray size).derives_chars
  | _, _, .tuple _ components => .tuple (.inl rfl) (AbiType.derivesAll_charsAll (List.forall_mem_map.2 components.derives_chars))

theorem Writes.derives_chars : ∀ {s : List Char} {p : Param}, Writes s p → Derives p.kind.chars p.kind
  | _, _, .param kind _ _ => kind.derives_chars

theorem WritesList.derives_chars : ∀ {l : List Char} {ps : List Param}, WritesList l ps → ∀ p ∈ ps, Derives p.kind.chars p.kind
  | _, _, .none _ => fun _ hp => absurd hp List.not_mem_nil
  | _, _, .last _ param _ => List.forall_mem_singleton.2 param.derives_chars
  | _, _, .more _ param _ others => List.forall_mem_cons.2 ⟨param.derives_chars, others.derives_chars⟩
end

end

/-! ## The steps of the reader -/

/-- The reader without the proof that it ends. -/
theorem read?_eq (s : List Char) :
    read? s =
      match shape (splitKind 0 s).1 with
      | .unclosed        => none
      | .plain text      => read?.finish s text
      | .tuple list rest =>
        match (pieces list).mapM fun p => read? (trim p) with
        | some components => read?.finish s (tupleText components rest)
        | none            => none := by
  rw [read?]
  split
  · rename_i h
    rw [h]
  · rename_i text h
    rw [h]
  · rename_i list rest h
    rw [h]
    simp only
    rw [List.mapM_subtype (g := fun p => read? (trim p)) (fun _ _ => rfl)]
    cases hcomponents : (pieces list).mapM fun p => read? (trim p) <;> rw [List.unattach_attach, hcomponents]

theorem derives_of_finish {s kind : List Char} {p : Param} (h : read?.finish s kind = some p) :
    Derives p.kind.chars p.kind := by
  unfold read?.finish at h
  split at h
  · cases h
  · rename_i ty hread
    obtain ⟨name, -, rfl⟩ := Option.map_eq_some_iff.1 h
    exact (AbiType.read_eq_ok_iff.1 hread).derives_chars

/-- **The type of a parameter is one that the reader of types has read.** -/
theorem derives_of_read? {s : List Char} {p : Param} (h : read? s = some p) : Derives p.kind.chars p.kind := by
  rw [read?_eq] at h
  split at h
  · cases h
  · exact derives_of_finish h
  · split at h
    · exact derives_of_finish h
    · cases h

section
variable {s t k l word : List Char} {name : String} {ty : AbiType}

theorem splitKind_append (h : Nested IsBare s) (ht : ∀ c, t.head? = some c → isBlank c = true) :
    splitKind 0 (s ++ t) = (s, t) := by
  have hscan : splitKind 0 (s ++ t) = s.foldr (fun c kr => (c :: kr.1, kr.2)) (splitKind 0 t) := by
    refine h.scan (S := fun c => isBlank c = true) (by decide) (fun d c s hstop => ?_) 0 t fun _ c hc => ?_
    · rw [splitKind, if_neg]
      rw [Bool.and_eq_true, beq_iff_eq]
      exact fun hc => hstop hc.2 hc.1
    · simp [hc.2]
  have hrest : splitKind 0 t = ([], t) := by
    cases t with
    | nil => rfl
    | cons c t => simp [splitKind, ht c rfl]
  rw [hscan, hrest]
  clear hscan h
  induction s with
  | nil => rfl
  | cons c s ih => rw [List.foldr_cons, ih]

theorem shape_plain (h : '(' ∉ t) : shape t = .plain t := by
  have hdrop : AbiType.dropTupleWord t = t := by
    refine AbiType.dropTupleWord_of_ne ?_
    rintro r rfl
    exact h (by simp)
  unfold shape
  rw [hdrop]
  split
  · exact absurd List.mem_cons_self h
  · rfl

theorem shape_tuple {P : Char → Prop} (keyword : word = [] ∨ word = "tuple".toList) (h : Nested P l) (r : List Char) :
    shape (word ++ '(' :: (l ++ ')' :: r)) = .tuple l r := by
  unfold shape
  rw [AbiType.dropTupleWord_keyword keyword]
  simp only [h.closing?_eq]

theorem finish_eq (hs : (splitKind 0 s).2 = t) (hk : Derives k ty) (hname : readName? t = some name) :
    read?.finish s k = some ⟨name, ty⟩ := by
  unfold read?.finish
  rw [hk.solid.trim_self, hk.read_eq_ok, hs, hname]
  rfl

theorem tupleText_eq (ps : List Param) (r : List Char) : tupleText ps r = (AbiType.tuple (ps.map kind)).chars ++ r :=
  (List.append_assoc ('(' :: joinWith [','] (AbiType.charsAll (ps.map kind))) [')'] r).symm

end

/-! ## Written parameters are read -/

mutual
/-- **A written type is read as that type**, and the words behind it as the name.  The induction goes through the dimensions
into the type that they stand behind, so the dimensions `r` that have been gone through stand behind the text, and are known
by what they make of the type. -/
theorem WritesKind.read?_append : ∀ {s : List Char} {ty : AbiType}, WritesKind s ty →
    ∀ {r t : List Char} {ty' : AbiType} {name : String}, IsFlat r → (∀ u, Derives u ty → Derives (u ++ r) ty') →
      (∀ c, t.head? = some c → isBlank c = true) → readName? t = some name → read? (s ++ (r ++ t)) = some ⟨name, ty'⟩
  | s, _, .base base, r, t, ty', name, hflat, hdims, ht, hname => by
    have hderives := hdims s (.base base)
    have hsplit := splitKind_append hderives.nested ht
    have hno : '(' ∉ s ++ r := fun hmem => (base.isFlat.append hflat '(' hmem).1 rfl
    rw [← List.append_assoc, read?_eq, hsplit]
    simp only [shape_plain hno]
    exact finish_eq (by rw [hsplit]) hderives hname
  | _, _, @WritesKind.array s ty element, r, t, ty', name, hflat, hdims, ht, hname => by
    have hdim : IsFlat ['[', ']'] := by decide
    rw [List.append_assoc, ← List.append_assoc _ r t]
    refine element.read?_append (hdim.append hflat) (fun u hu => ?_) ht hname
    rw [← List.append_assoc]
    exact hdims _ hu.array
  | _, _, @WritesKind.fixedArray s ds ty n element size, r, t, ty', name, hflat, hdims, ht, hname => by
    rw [List.append_assoc, ← List.append_assoc _ r t]
    refine element.read?_append ((AbiType.isFlat_dimension size).append hflat) (fun u hu => ?_) ht hname
    rw [← List.append_assoc]
    exact hdims _ (hu.fixedArray size)
  | _, _, @WritesKind.tuple word l ps keyword components, r, t, ty', name, hflat, hdims, ht, hname => by
    have hcomponents : (pieces l).mapM (fun p => read? (trim p)) = some ps := mapM_eq_some_iff.2 components.read?_pieces
    have hshape : shape (word ++ '(' :: (l ++ [')']) ++ r) = .tuple l r := by
      simpa using shape_tuple keyword components.nested r
    have hkind := WritesKind.tuple keyword components
    have hsplit := splitKind_append (hkind.nested.append hflat.nested) ht
    rw [← List.append_assoc, read?_eq, hsplit]
    simp only [hshape, hcomponents, tupleText_eq]
    exact finish_eq (by rw [hsplit]) (hdims _ hkind.derives_chars) hname

theorem Writes.read?_eq : ∀ {s : List Char} {p : Param}, Writes s p → read? s = some p
  | _, _, .param kind row named => by
    simpa using kind.read?_append (r := []) (by simp [IsFlat]) (by simp) (fun _ hc => row.blank_head hc) (named.readName?_eq row)

theorem WritesList.read?_pieces : ∀ {l : List Char} {ps : List Param}, WritesList l ps →
    List.Forall₂ (fun q p => read? (trim q) = some p) (pieces l) ps
  | _, _, .none blank => by
    rw [Text.pieces_eq_nil_iff.2 blank]
    exact .nil
  | _, _, .last before param behind => by
    rw [(AbiType.nested_padded before param.nested behind).pieces_eq (AbiType.not_blank_padded param.solid)]
    refine .cons ?_ .nil
    rw [param.solid.trim_eq before behind]
    exact param.read?_eq
  | _, _, .more before param behind others => by
    rw [(AbiType.nested_padded before param.nested behind).pieces_append (AbiType.not_blank_padded param.solid)
      (others.not_blank (List.cons_ne_nil _ _))]
    refine .cons ?_ others.read?_pieces
    rw [param.solid.trim_eq before behind]
    exact param.read?_eq
end

/-- **A written list of parameters is read as these parameters.** -/
theorem WritesList.readList?_eq {l : List Char} {ps : List Param} (h : WritesList l ps) : readList? l = some ps :=
  mapM_eq_some_iff.2 h.read?_pieces

/-! ## Types are parameters without decorations -/

theorem writes_unnamed {s : List Char} {ty : AbiType} (h : WritesKind s ty) : Writes s (unnamed ty) := by
  have hparam : Writes (s ++ []) ⟨"", ty⟩ := .param h .nil (.unnamed (by simp))
  rwa [List.append_nil] at hparam

mutual
theorem writesKind_of_derives : ∀ {s : List Char} {ty : AbiType}, Derives s ty → WritesKind s ty
  | _, _, .base name => .base name
  | _, _, .array element => (writesKind_of_derives element).array
  | _, _, .fixedArray element size => (writesKind_of_derives element).fixedArray size
  | _, _, @Derives.tuple _ _ tys keyword members => by
    rw [← Function.map_kind_unnamed tys]
    exact .tuple keyword (writesList_of_derivesAll members)

theorem writesList_of_derivesAll : ∀ {l : List Char} {tys : List AbiType}, DerivesAll l tys → WritesList l (tys.map unnamed)
  | _, _, .none blank => .none blank
  | _, _, .last before member behind => .last before (writes_unnamed (writesKind_of_derives member)) behind
  | _, _, .more before member behind others =>
    .more before (writes_unnamed (writesKind_of_derives member)) behind (writesList_of_derivesAll others)
end

/-! ## Which parameters can be written -/

/-- **A parameter that can be written**: of a type that some text has, with no name or with an identifier that is no modifier. -/
structure Declarable (p : Param) : Prop where
  name : p.name = "" ∨ IsIdentifier p.name.toList ∧ p.name.toList ∉ modifiers
  kind : ∃ s, AbiType.ofText s = .ok p.kind

section
variable {s : List Char} {p : Param}

theorem Writes.declarable (h : Writes s p) : p.Declarable := by
  cases h with
  | param kind row named =>
    refine ⟨?_, _, AbiType.ofText_text kind.derives_chars⟩
    cases named with
    | unnamed _ => exact .inl rfl
    | named _ identifier other => exact .inr ⟨identifier, other⟩

theorem Declarable.exists_writes (h : p.Declarable) : ∃ s, Writes s p := by
  obtain ⟨hname, s, hs⟩ := h
  have hkind := writesKind_of_derives (AbiType.read_eq_ok_iff.1 hs)
  rcases hname with hname | ⟨hidentifier, hother⟩
  · obtain ⟨name, ty⟩ := p
    obtain rfl : name = "" := hname
    exact ⟨_, writes_unnamed hkind⟩
  · have hrow : Spaced [p.name.toList] ([' '] ++ (p.name.toList ++ [])) :=
      .cons (by simp) (by decide) hidentifier.isWord .nil
    exact ⟨_, .param hkind hrow (@Named.named p.name [] [] (by simp) hidentifier hother)⟩

theorem WritesList.declarable : ∀ {l : List Char} {ps : List Param}, WritesList l ps → ∀ p ∈ ps, p.Declarable
  | _, _, .none _ => fun _ hp => absurd hp List.not_mem_nil
  | _, _, .last _ param _ => List.forall_mem_singleton.2 param.declarable
  | _, _, .more _ param _ others => List.forall_mem_cons.2 ⟨param.declarable, others.declarable⟩

theorem exists_writesList : ∀ {ps : List Param}, (∀ p ∈ ps, p.Declarable) → ∃ l, WritesList l ps
  | [], _ => ⟨[], .none rfl⟩
  | [p], h => by
    obtain ⟨s, hs⟩ := (h p List.mem_cons_self).exists_writes
    exact ⟨[] ++ s ++ [], .last rfl hs rfl⟩
  | p :: q :: ps, h => by
    obtain ⟨s, hs⟩ := (h p List.mem_cons_self).exists_writes
    obtain ⟨l, hl⟩ := exists_writesList fun x hx => h x (List.mem_cons_of_mem p hx)
    exact ⟨[] ++ s ++ [] ++ ',' :: l, .more rfl hs rfl hl⟩

end

end Param
end CallPlan
