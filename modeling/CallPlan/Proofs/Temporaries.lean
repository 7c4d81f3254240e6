import CallPlan.Proofs.Numerals
import CallPlan.Proofs.Trees
import CallPlan.Run.Job
import Mathlib.Data.List.Nodup
import Mathlib.Data.List.Perm.Subperm
/-!
# Temporary files

A file is written by way of a temporary, whose name is the first free one of `name.tmp0`, `name.tmp1` and so on.  Each of these
names is another entry of the tree, so in a tree with fewer entries than there are names one is free
(`exists_freeTemporary`), and nothing stands at the location that it leads to (`IsTemporary.get?_eq_none`).
-/
namespace CallPlan

variable {t : Tree} {cwd l : Location} {name path tmp : String}

/-! ## Segments -/

namespace PathText

theorem segments_append_slash (a b : String) : segments (a ++ "/" ++ b) = segments a ++ segments b := by
  have hsplit : (a ++ "/" ++ b).toList = a.toList ++ '/' :: b.toList := by simp
  rw [segments, hsplit, List.splitOnP_append_cons _ _ (by simp), List.map_append]
  rfl

theorem segments_of_not_mem {p : String} (h : '/' ∉ p.toList) : segments p = [p] := by
  have hall : ∀ c ∈ p.toList, decide (c = '/') = false := fun c hc => by
    simpa using fun heq : c = '/' => h (heq ▸ hc)
  rw [segments, List.splitOnP_eq_singleton hall, List.map_singleton, String.ofList_toList]

theorem not_mem_of_mem_splitOnP : ∀ {s : List Char} {w : List Char}, w ∈ s.splitOnP (· = '/') → '/' ∉ w
  | [], w, h => by
    rw [List.splitOnP_nil, List.mem_singleton] at h
    simp [h]
  | c :: s, w, h => by
    rw [List.splitOnP_cons_eq_if_modifyHead] at h
    split at h
    · rcases List.mem_cons.1 h with rfl | h
      · exact List.not_mem_nil
      · exact not_mem_of_mem_splitOnP h
    · rename_i hc
      obtain ⟨a, as, has⟩ := List.exists_cons_of_ne_nil (List.splitOnP_ne_nil (· = '/') s)
      rw [has, List.modifyHead_cons] at h
      rcases List.mem_cons.1 h with rfl | h
      · have ha : '/' ∉ a := not_mem_of_mem_splitOnP (has ▸ List.mem_cons_self)
        simpa [ha, eq_comm] using hc
      · exact not_mem_of_mem_splitOnP (has ▸ List.mem_cons_of_mem a h)

theorem not_mem_of_mem_segments {p s : String} (h : s ∈ segments p) : '/' ∉ s.toList := by
  obtain ⟨w, hw, rfl⟩ := List.mem_map.1 h
  rw [String.toList_ofList]
  exact not_mem_of_mem_splitOnP hw

/-- **A name seen from a directory is the last segment.** -/
theorem exists_segments_join (dir : String) {p : String} (h : '/' ∉ p.toList) : ∃ pre, segments (join dir p) = pre ++ [p] := by
  unfold join
  split_ifs with hplain hslash
  · exact ⟨[], segments_of_not_mem h⟩
  · obtain ⟨init, hinit⟩ := List.getLast?_eq_some_iff.1 hslash
    have hdir : dir = String.ofList init ++ "/" := by
      rw [← String.toList_inj, hinit]
      simp
    exact ⟨segments (String.ofList init), by rw [hdir, segments_append_slash, segments_of_not_mem h]⟩
  · exact ⟨segments dir, by rw [segments_append_slash, segments_of_not_mem h]⟩

theorem dropIdleEnd_sublist (ss : List String) : (dropIdleEnd ss).Sublist ss := by
  rw [← List.reverse_sublist, dropIdleEnd, List.reverse_reverse]
  exact List.dropWhile_sublist _

theorem mem_segments_of_fileName? (h : fileName? path = some name) : name ∈ segments path := by
  cases hsegs : segments path with
  | nil => simp [fileName?, parts, hsegs] at h
  | cons first ss =>
    simp only [fileName?, parts, hsegs] at h
    split at h
    · rename_i s hs
      split at h <;> cases h
      exact List.mem_cons_of_mem first ((dropIdleEnd_sublist ss).mem (List.mem_of_getLast? hs))
    · split at h <;> cases h
      exact List.mem_cons_self

theorem dropIdleEnd_concat {ss : List String} {s : String} (hs : isIdle s = false) : dropIdleEnd (ss ++ [s]) = ss ++ [s] := by
  rw [dropIdleEnd, List.reverse_append, List.reverse_singleton, List.singleton_append,
    List.dropWhile_cons_of_neg (by simp [hs]), List.reverse_cons, List.reverse_reverse]

/-- **The last segment is the file's name**, if it is a name. -/
theorem fileName?_of_segments {ss : List String} (h : segments path = ss ++ [name]) (hidle : isIdle name = false)
    (hup : name ≠ "..") : fileName? path = some name := by
  cases ss with
  | nil =>
    have hname : name ≠ "" ∧ name ≠ "." := by simpa [isIdle] using hidle
    simp [fileName?, parts, h, dropIdleEnd, hname, hup]
  | cons first ss => simp [fileName?, parts, h, dropIdleEnd_concat hidle, hup]

end PathText

/-! ## Names of temporaries -/

def temporaryName (name : String) (i : Nat) : String := name ++ ".tmp" ++ Text.decimalString i

theorem toList_temporaryName (name : String) (i : Nat) :
    (temporaryName name i).toList = name.toList ++ ".tmp".toList ++ Text.decimal i := by
  simp [temporaryName, Text.decimalString]

theorem temporaryName_injective (name : String) : Function.Injective (temporaryName name) := by
  intro i j h
  have hdigits := congrArg String.toList h
  rw [toList_temporaryName, toList_temporaryName] at hdigits
  have hi := (Text.writesNat_decimal i).2.2
  rw [List.append_cancel_left hdigits, (Text.writesNat_decimal j).2.2] at hi
  exact hi.symm

theorem temporaryName_ne (name : String) (i : Nat) : temporaryName name i ≠ name := by
  intro h
  have hlen := congrArg (fun s => s.toList.length) h
  simp [toList_temporaryName] at hlen

theorem temporaryName_not_idle (name : String) (i : Nat) :
    PathText.isIdle (temporaryName name i) = false ∧ temporaryName name i ≠ ".." := by
  have hlong : ∀ s : String, s.toList.length < 4 → temporaryName name i ≠ s := by
    rintro s hs rfl
    simp [toList_temporaryName] at hs
    omega
  refine ⟨?_, hlong ".." (by decide)⟩
  simp [PathText.isIdle, hlong "" (by decide), hlong "." (by decide)]

theorem not_mem_temporaryName (h : '/' ∉ name.toList) (i : Nat) : '/' ∉ (temporaryName name i).toList := by
  have hdigits : '/' ∉ Text.decimal i := fun hmem => absurd ((Text.writesNat_decimal i).2.1 '/' hmem) (by decide)
  rw [toList_temporaryName]
  simp [h, hdigits]

/-- **A temporary stands beside its file**: its name is the last segment. -/
theorem exists_segments_temporaryPath (dir : String) (h : '/' ∉ name.toList) (i : Nat) :
    ∃ pre, PathText.segments (temporaryPath dir name i) = pre ++ [temporaryName name i] :=
  PathText.exists_segments_join dir (not_mem_temporaryName h i)

/-! ## The search for a free name -/

namespace Tree

theorem segments_of_checkedSegments {p : String} {ss : List String} (h : checkedSegments p = .ok ss) :
    ss = PathText.segments p := by
  unfold checkedSegments at h
  split_ifs at h
  exact (Except.ok.inj h).symm

/-- **What stands at a path stands at its last segment**, if that is a name. -/
theorem exists_entry_of_isPresent {p s : String} {pre : List String} (hsegs : PathText.segments p = pre ++ [s])
    (hidle : PathText.isIdle s = false) (hup : s ≠ "..") (h : t.isPresent cwd p = true) :
    ∃ e ∈ t.entries, e.1.getLast? = some s := by
  unfold isPresent at h
  split at h
  · rename_i l hl
    unfold find at hl
    split at hl
    · cases hl
    · rename_i ss hss
      rw [segments_of_checkedSegments hss, hsegs] at hl
      obtain ⟨m, -, hm⟩ := walk_append_eq_ok_iff.1 hl
      obtain ⟨next, hnext, hl⟩ := walk_cons_eq_ok_iff.1 hm
      cases hl
      cases hnext with
      | stay _ hs => simp [hidle] at hs
      | up _ => exact absurd rfl hup
      | down _ _ hpresent =>
        obtain ⟨n, hn⟩ := Option.isSome_iff_exists.1 hpresent
        rw [get?_of_ne_nil (by simp)] at hn
        obtain ⟨l₁, l₂, heq, -⟩ := List.lookup_eq_some_iff.1 hn
        exact ⟨(m ++ [s], n), by simp [heq], by simp⟩
  · cases h

/-- **One of more names than there are entries is free.** -/
theorem exists_absent_temporary (t : Tree) (cwd : Location) (dir : String) (hname : '/' ∉ name.toList) :
    ∃ k ≤ t.entries.length, t.isPresent cwd (temporaryPath dir name k) = false := by
  by_contra hnone
  have hall : ∀ k ≤ t.entries.length, t.isPresent cwd (temporaryPath dir name k) = true := fun k hk => by
    by_contra habsent
    exact hnone ⟨k, hk, by simpa using habsent⟩
  -- every name is the last of an entry's location, and the names are all different
  have hsubset : (List.range (t.entries.length + 1)).map (fun k => some (temporaryName name k)) ⊆
      t.entries.map fun e => e.1.getLast? := by
    intro x hx
    obtain ⟨k, hk, rfl⟩ := List.mem_map.1 hx
    obtain ⟨pre, hpre⟩ := exists_segments_temporaryPath dir hname k
    obtain ⟨hidle, hup⟩ := temporaryName_not_idle name k
    obtain ⟨e, he, hlast⟩ := exists_entry_of_isPresent hpre hidle hup (hall k (Nat.le_of_lt_succ (List.mem_range.1 hk)))
    exact List.mem_map.2 ⟨e, he, hlast⟩
  have hnodup : ((List.range (t.entries.length + 1)).map fun k => some (temporaryName name k)).Nodup :=
    List.Nodup.map (fun i j h => temporaryName_injective name (Option.some.inj h)) List.nodup_range
  have hlen := (List.subperm_of_subset hnodup hsubset).length_le
  simp only [List.length_map, List.length_range] at hlen
  omega

end Tree

/-- A step and what follows it, from a tree on. -/
theorem bind_of_eq {α β : Type} {x : StateM Tree α} {f : α → StateM Tree β} {t t' : Tree} {a : α} (h : x t = (a, t')) :
    (x >>= f) t = f a t' := by
  change f (x t).1 (x t).2 = f a t'
  rw [h]

/-- **The search stops at the first free name**, or has tried them all. -/
theorem freeTemporary_cases (cwd : Location) (apart : Location → Location → Bool) (dir name : String) (t : Tree) : ∀ (n i : Nat),
    (∃ k < n, freeTemporary (Tree.fileSystem cwd apart) dir name n i t = (some (temporaryPath dir name (i + k)), t) ∧
      t.isPresent cwd (temporaryPath dir name (i + k)) = false ∧
      ∀ j < k, t.isPresent cwd (temporaryPath dir name (i + j)) = true) ∨
    (freeTemporary (Tree.fileSystem cwd apart) dir name n i t = (none, t) ∧
      ∀ k < n, t.isPresent cwd (temporaryPath dir name (i + k)) = true)
  | 0, i => .inr ⟨rfl, fun k hk => absurd hk (Nat.not_lt_zero k)⟩
  | n + 1, i => by
    have hask : (Tree.fileSystem cwd apart).isPresent (temporaryPath dir name i) t = (t.isPresent cwd (temporaryPath dir name i), t) :=
      rfl
    rw [freeTemporary, bind_of_eq hask]
    cases hi : t.isPresent cwd (temporaryPath dir name i) with
    | false => exact .inl ⟨0, Nat.succ_pos n, rfl, hi, fun j hj => absurd hj (Nat.not_lt_zero j)⟩
    | true =>
      rw [if_pos rfl]
      rcases freeTemporary_cases cwd apart dir name t n (i + 1) with ⟨k, hk, hfree, habsent, hbefore⟩ | ⟨hnone, hall⟩
      · have hshift : i + 1 + k = i + (k + 1) := by omega
        rw [hshift] at hfree habsent
        refine .inl ⟨k + 1, Nat.succ_lt_succ hk, hfree, habsent, fun j hj => ?_⟩
        cases j with
        | zero => exact hi
        | succ j => exact (show i + 1 + j = i + (j + 1) by omega) ▸ hbefore j (Nat.lt_of_succ_lt_succ hj)
      · refine .inr ⟨hnone, fun k hk => ?_⟩
        cases k with
        | zero => exact hi
        | succ k => exact (show i + 1 + k = i + (k + 1) by omega) ▸ hall k (Nat.lt_of_succ_lt_succ hk)

/-- **The temporary of an output path**: the first of its names, beside the file, at which nothing stands. -/
def Tree.IsTemporary (t : Tree) (cwd : Location) (path tmp : String) : Prop :=
  ∃ name k, PathText.fileName? path = some name ∧ k < maxTemporaries ∧ tmp = temporaryPath (directoryOf path) name k ∧
    t.isPresent cwd tmp = false ∧ ∀ j < k, t.isPresent cwd (temporaryPath (directoryOf path) name j) = true

namespace Tree.IsTemporary

theorem unique {tmp' : String} (h : t.IsTemporary cwd path tmp) (h' : t.IsTemporary cwd path tmp') : tmp = tmp' := by
  obtain ⟨name, k, hname, -, rfl, habsent, hbefore⟩ := h
  obtain ⟨name', k', hname', -, rfl, habsent', hbefore'⟩ := h'
  obtain rfl : name = name' := Option.some.inj (hname.symm.trans hname')
  rcases Nat.lt_trichotomy k k' with hlt | rfl | hlt
  · rw [hbefore' k hlt] at habsent
    cases habsent
  · rfl
  · rw [hbefore k' hlt] at habsent'
    cases habsent'

theorem get?_eq_none (h : t.IsTemporary cwd path tmp) (hplace : t.place cwd tmp = .ok l) : t.get? l = none := by
  obtain ⟨name, k, -, -, rfl, habsent, -⟩ := h
  rw [Tree.isPresent_of_place hplace] at habsent
  simpa using habsent

/-- **A temporary never stands where its file goes.** -/
theorem ne_of_place {l₁ : Location} (h : t.IsTemporary cwd path tmp) (htmp : t.place cwd tmp = .ok l₁)
    (hpath : t.place cwd path = .ok l) : l₁ ≠ l := by
  obtain ⟨name, k, hname, -, rfl, -, -⟩ := h
  obtain ⟨ss, dir, s, hsegs, -, -, hs, rfl⟩ := Tree.place_eq_ok_iff.1 hpath
  obtain ⟨ss₁, dir₁, s₁, hsegs₁, -, -, -, rfl⟩ := Tree.place_eq_ok_iff.1 htmp
  have hfile := PathText.fileName?_of_segments (Tree.segments_of_checkedSegments hsegs).symm hs.not_idle hs.not_up
  obtain rfl : name = s := Option.some.inj (hname.symm.trans hfile)
  have hslash := PathText.not_mem_of_mem_segments (PathText.mem_segments_of_fileName? hname)
  obtain ⟨pre, hpre⟩ := exists_segments_temporaryPath (directoryOf path) hslash k
  have hlast : s₁ = temporaryName name k :=
    List.head_eq_of_cons_eq (List.append_inj' ((Tree.segments_of_checkedSegments hsegs₁).trans hpre) rfl).2
  intro heq
  have hsame : s₁ = name := List.head_eq_of_cons_eq (List.append_inj' heq rfl).2
  exact temporaryName_ne name k (hlast.symm.trans hsame)

end Tree.IsTemporary

/-- **The search finds the temporary**, or there is none. -/
theorem freeTemporary_of_fileName? (cwd : Location) (apart : Location → Location → Bool) (t : Tree)
    (hname : PathText.fileName? path = some name) :
    (∃ tmp, freeTemporary (Tree.fileSystem cwd apart) (directoryOf path) name maxTemporaries 0 t = (some tmp, t) ∧
      t.IsTemporary cwd path tmp) ∨
    (freeTemporary (Tree.fileSystem cwd apart) (directoryOf path) name maxTemporaries 0 t = (none, t) ∧
      ∀ tmp, ¬ t.IsTemporary cwd path tmp) := by
  rcases freeTemporary_cases cwd apart (directoryOf path) name t maxTemporaries 0 with
    ⟨k, hk, hfree, habsent, hbefore⟩ | ⟨hnone, hall⟩
  · simp only [Nat.zero_add] at hfree habsent hbefore
    exact .inl ⟨temporaryPath (directoryOf path) name k, hfree, name, k, hname, hk, rfl, habsent, hbefore⟩
  · refine .inr ⟨hnone, ?_⟩
    rintro tmp ⟨name', k, hname', hk, rfl, habsent, -⟩
    obtain rfl : name = name' := Option.some.inj (hname.symm.trans hname')
    have hpresent := hall k hk
    rw [Nat.zero_add, habsent] at hpresent
    cases hpresent

theorem Tree.IsTemporary.exists_freeTemporary_eq (h : t.IsTemporary cwd path tmp) (apart : Location → Location → Bool) :
    ∃ name, PathText.fileName? path = some name ∧
      freeTemporary (Tree.fileSystem cwd apart) (directoryOf path) name maxTemporaries 0 t = (some tmp, t) := by
  have ⟨name, _, hname, _⟩ := h
  rcases freeTemporary_of_fileName? cwd apart t hname with ⟨tmp', hfree, htmp'⟩ | ⟨-, hnone⟩
  · exact ⟨name, hname, h.unique htmp' ▸ hfree⟩
  · exact absurd h (hnone tmp)

/-- **The search for a temporary ends** before it has tried more names than the tree has entries. -/
theorem exists_freeTemporary (apart : Location → Location → Bool) (hsize : t.entries.length < maxTemporaries)
    (hname : PathText.fileName? path = some name) :
    ∃ k ≤ t.entries.length,
      freeTemporary (Tree.fileSystem cwd apart) (directoryOf path) name maxTemporaries 0 t =
        (some (temporaryPath (directoryOf path) name k), t) ∧
      t.IsTemporary cwd path (temporaryPath (directoryOf path) name k) := by
  have hslash := PathText.not_mem_of_mem_segments (PathText.mem_segments_of_fileName? hname)
  obtain ⟨k₀, hk₀, hfree₀⟩ := Tree.exists_absent_temporary t cwd (directoryOf path) hslash
  rcases freeTemporary_cases cwd apart (directoryOf path) name t maxTemporaries 0 with
    ⟨k, hk, hfree, habsent, hbefore⟩ | ⟨-, hall⟩
  · simp only [Nat.zero_add] at hfree habsent hbefore
    have hle : k ≤ k₀ := by
      by_contra hlt
      rw [hbefore k₀ (by omega)] at hfree₀
      cases hfree₀
    exact ⟨k, Nat.le_trans hle hk₀, hfree, name, k, hname, hk, rfl, habsent, hbefore⟩
  · have hpresent := hall k₀ (by omega)
    rw [Nat.zero_add, hfree₀] at hpresent
    cases hpresent

end CallPlan
