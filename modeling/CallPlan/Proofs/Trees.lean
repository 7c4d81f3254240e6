import CallPlan.Files.Tree
import Mathlib.Data.List.Basic
/-!
# Where paths lead

A path takes a file at a location (`Takes`) when its directory is there, its last part is a name with nothing behind it, and no
directory stands at that name.  Writing succeeds on exactly these paths, and so does moving between locations that do not stand
apart; all they change is that location, and the one that a file is moved from.  What a path takes depends on the directories of
the tree alone, so it stays the same while files come and go (`SameDirectories`).
-/
namespace CallPlan
namespace Tree

variable {t t' : Tree} {cwd l l' here : Location} {n : Node} {p q s : String} {bs : Bytes} {ss : List String}

/-! ## Putting and erasing -/

theorem get?_of_ne_nil (h : l ≠ []) : t.get? l = t.entries.lookup l := if_neg h

theorem lookup_filter_ne (l' : Location) : ∀ es : List (Location × Node),
    (es.filter (·.1 ≠ l)).lookup l' = if l' = l then none else es.lookup l'
  | [] => by simp
  | (k, n) :: es => by
    have ih := lookup_filter_ne l' es
    by_cases hk : k = l
    · rw [List.filter_cons_of_neg (by simpa using hk), ih, List.lookup_cons]
      by_cases hl : l' = l
      · simp [hl]
      · have hne : (l' == k) = false := by simpa [hk] using hl
        simp [hne]
    · rw [List.filter_cons_of_pos (by simpa using hk), List.lookup_cons, List.lookup_cons, ih]
      by_cases hl : l' = l
      · have hne : (l' == k) = false := by simpa [hl] using Ne.symm hk
        simp [hl, hl ▸ hne]
      · simp [hl]

/-- **Putting a node changes its location and no other.** -/
theorem get?_put (hl : l ≠ []) (l' : Location) : (t.put l n).get? l' = if l' = l then some n else t.get? l' := by
  by_cases hl' : l' = []
  · subst hl'
    rw [if_neg (Ne.symm hl)]
    rfl
  · rw [get?_of_ne_nil hl', get?_of_ne_nil hl', put, erase, List.lookup_append, lookup_filter_ne]
    by_cases h : l' = l
    · simp [h]
    · have hne : (l' == l) = false := by simpa using h
      simp [h, hne, List.lookup_cons]

theorem get?_put_self (hl : l ≠ []) : (t.put l n).get? l = some n := by
  rw [get?_put hl, if_pos rfl]

theorem erase_of_absent (hl : l ≠ []) (h : t.get? l = none) : t.erase l = t := by
  have hentries : t.entries.filter (·.1 ≠ l) = t.entries := by
    rw [List.filter_eq_self]
    intro e he
    rw [get?_of_ne_nil hl, List.lookup_eq_none_iff] at h
    have hne : l ≠ e.1 := by simpa using h e he
    simpa using hne.symm
  rw [erase, hentries]

/-- **What was put where nothing stood can be taken away again.** -/
theorem erase_put (hl : l ≠ []) (h : t.get? l = none) : (t.put l n).erase l = t := by
  have hentries : (t.entries ++ [(l, n)]).filter (·.1 ≠ l) = (t.erase l).entries := by simp [erase]
  rw [put, erase_of_absent hl h]
  calc erase ⟨t.entries ++ [(l, n)]⟩ l = t.erase l := by rw [erase, hentries]
    _ = t := erase_of_absent hl h

theorem put_ne_self (hl : l ≠ []) (h : t.get? l = none) : t.put l n ≠ t := by
  intro heq
  have hput := get?_put_self (t := t) (n := n) hl
  rw [heq, h] at hput
  cases hput

/-- **What stands elsewhere can be taken away before or after.** -/
theorem erase_put_of_ne (h : l ≠ l') : (t.put l' n).erase l = (t.erase l).put l' n := by
  have hentries : ((t.entries.filter (·.1 ≠ l')) ++ [(l', n)]).filter (·.1 ≠ l) =
      (t.entries.filter (·.1 ≠ l)).filter (·.1 ≠ l') ++ [(l', n)] := by
    rw [List.filter_append, List.filter_filter, List.filter_filter, List.filter_cons_of_pos (by simpa using Ne.symm h),
      List.filter_nil]
    congr 1
    exact List.filter_congr fun e _ => Bool.and_comm _ _
  simp only [put, erase, hentries]

/-! ## Following a path -/

/-- **A segment that can be looked up in a directory.** -/
structure IsName (s : String) : Prop where
  not_idle : PathText.isIdle s = false
  not_up : s ≠ ".."
  fits : s.utf8ByteSize ≤ maxNameBytes

/-- **One segment leads from a directory to the next location.** -/
inductive Leads (t : Tree) (here : Location) : String → Location → Prop
  | stay {s : String} (directory : t.get? here = some .directory) (idle : PathText.isIdle s = true) : Leads t here s here
  | up (directory : t.get? here = some .directory) : Leads t here ".." here.dropLast
  | down {s : String} (directory : t.get? here = some .directory) (name : IsName s)
      (present : (t.get? (here ++ [s])).isSome = true) : Leads t here s (here ++ [s])

theorem walk_cons_eq_ok_iff : t.walk here (s :: ss) = .ok l ↔ ∃ next, t.Leads here s next ∧ t.walk next ss = .ok l := by
  rw [walk]
  constructor
  · intro h
    split at h
    · cases h
    · cases h
    · rename_i hdir
      split_ifs at h with hidle hup hlong
      · exact ⟨here, .stay hdir hidle, h⟩
      · exact ⟨here.dropLast, hup ▸ .up hdir, h⟩
      · split at h
        · cases h
        · rename_i m hm
          exact ⟨here ++ [s], .down hdir ⟨by simpa using hidle, hup, Nat.le_of_not_lt hlong⟩ (by simp [hm]), h⟩
  · rintro ⟨next, hnext, h⟩
    cases hnext with
    | stay hdir hidle => simpa [hdir, hidle] using h
    | up hdir => simpa [hdir, PathText.isIdle] using h
    | down hdir hname hpresent =>
      obtain ⟨m, hm⟩ := Option.isSome_iff_exists.1 hpresent
      simpa [hdir, hname.not_idle, hname.not_up, Nat.not_lt_of_le hname.fits, hm] using h

theorem walk_append_eq_ok_iff {b : List String} : ∀ {a : List String} {here : Location},
    t.walk here (a ++ b) = .ok l ↔ ∃ m, t.walk here a = .ok m ∧ t.walk m b = .ok l
  | [], here => by simp [walk]
  | s :: a, here => by
    rw [List.cons_append, walk_cons_eq_ok_iff]
    simp only [walk_append_eq_ok_iff, walk_cons_eq_ok_iff]
    constructor
    · rintro ⟨next, hnext, m, hm, hl⟩
      exact ⟨m, ⟨next, hnext, hm⟩, hl⟩
    · rintro ⟨m, ⟨next, hnext, hm⟩, hl⟩
      exact ⟨next, hnext, m, hm, hl⟩

theorem walk_name_eq_ok_iff {m : Location} (hname : IsName s) :
    t.walk m [s] = .ok l ↔ t.get? m = some .directory ∧ (t.get? (m ++ [s])).isSome = true ∧ l = m ++ [s] := by
  rw [walk_cons_eq_ok_iff]
  constructor
  · rintro ⟨next, hnext, h⟩
    cases h
    cases hnext with
    | stay _ hidle =>
      rw [hname.not_idle] at hidle
      cases hidle
    | up _ => exact absurd rfl hname.not_up
    | down hdir _ hpresent => exact ⟨hdir, hpresent, rfl⟩
  · rintro ⟨hdir, hpresent, rfl⟩
    exact ⟨m ++ [s], .down hdir hname hpresent, rfl⟩

/-- **A walk that ends in a directory starts in one.** -/
theorem directory_of_walk (h : t.walk here ss = .ok l) (hl : t.get? l = some .directory) : t.get? here = some .directory := by
  cases ss with
  | nil =>
    cases h
    exact hl
  | cons s ss =>
    obtain ⟨next, hnext, -⟩ := walk_cons_eq_ok_iff.1 h
    cases hnext with
    | stay hdir _ => exact hdir
    | up hdir => exact hdir
    | down hdir _ _ => exact hdir

/-- **A walk to a directory needs directories only.** -/
theorem walk_mono (hdirs : ∀ d, t.get? d = some .directory → t'.get? d = some .directory) :
    ∀ {ss : List String} {here : Location}, t.walk here ss = .ok l → t.get? l = some .directory → t'.walk here ss = .ok l
  | [], _, h, _ => by
    cases h
    rfl
  | s :: ss, here, h, hl => by
    obtain ⟨next, hnext, h⟩ := walk_cons_eq_ok_iff.1 h
    have hto := hdirs next (directory_of_walk h hl)
    refine walk_cons_eq_ok_iff.2 ⟨next, ?_, walk_mono hdirs h hl⟩
    cases hnext with
    | stay hdir hidle => exact .stay (hdirs _ hdir) hidle
    | up hdir => exact .up (hdirs _ hdir)
    | down hdir hname _ => exact .down (hdirs _ hdir) hname (by rw [hto]; rfl)

/-! ## Where a path puts a file -/

theorem dropEmptyEnd_isPrefix (ss : List String) : PathText.dropEmptyEnd ss <+: ss := by
  rw [← List.reverse_suffix, PathText.dropEmptyEnd, List.reverse_reverse]
  exact List.dropWhile_suffix _

theorem dropEmptyEnd_concat (hs : s ≠ "") : PathText.dropEmptyEnd (ss ++ [s]) = ss ++ [s] := by
  rw [PathText.dropEmptyEnd, List.reverse_append, List.reverse_singleton, List.singleton_append,
    List.dropWhile_cons_of_neg (by simpa using hs), List.reverse_cons, List.reverse_reverse]

theorem IsName.ne_empty (h : IsName s) : s ≠ "" := by
  rintro rfl
  exact absurd h.not_idle (by decide)

/-- **A path puts a file at a name in the directory that its other segments lead to.** -/
theorem place_eq_ok_iff :
    t.place cwd p = .ok l ↔ ∃ ss dir s, checkedSegments p = .ok (ss ++ [s]) ∧ t.walk (start cwd p) ss = .ok dir ∧
      t.get? dir = some .directory ∧ IsName s ∧ l = dir ++ [s] := by
  unfold place
  constructor
  · intro h
    split at h
    · cases h
    · rename_i segs hsegs
      simp only at h
      split at h
      · cases h
      · rename_i dir hdir
        split at h
        · cases h
        · cases h
        · cases h
        · rename_i s hget hlast
          split_ifs at h with hbad hlong
          cases h
          simp only [Bool.or_eq_true, decide_eq_true_eq, not_or, Nat.not_lt, Bool.not_eq_true] at hbad
          obtain ⟨⟨hidle, hup⟩, hlen⟩ := hbad
          have hall := (dropEmptyEnd_isPrefix segs).eq_of_length_le hlen
          rw [hall] at hlast hdir
          refine ⟨segs.dropLast, dir, s, ?_, hdir, hget, ⟨hidle, hup, Nat.le_of_not_lt hlong⟩, rfl⟩
          rw [hsegs, List.dropLast_append_getLast? s hlast]
  · rintro ⟨ss, dir, s, hsegs, hwalk, hdir, hname, rfl⟩
    simp [hsegs, dropEmptyEnd_concat hname.ne_empty, hwalk, hdir, hname.not_idle, hname.not_up,
      Nat.not_lt_of_le hname.fits]

theorem ne_nil_of_place (h : t.place cwd p = .ok l) : l ≠ [] := by
  obtain ⟨ss, dir, s, -, -, -, -, rfl⟩ := place_eq_ok_iff.1 h
  simp

theorem place_mono (hdirs : ∀ d, t.get? d = some .directory → t'.get? d = some .directory) (h : t.place cwd p = .ok l) :
    t'.place cwd p = .ok l := by
  obtain ⟨ss, dir, s, hsegs, hwalk, hdir, hname, rfl⟩ := place_eq_ok_iff.1 h
  exact place_eq_ok_iff.2 ⟨ss, dir, s, hsegs, walk_mono hdirs hwalk hdir, hdirs dir hdir, hname, rfl⟩

/-- **The path finds what stands where it would put a file.** -/
theorem find_eq_ok_iff_of_place (h : t.place cwd p = .ok l) :
    t.find cwd p = .ok l' ↔ (t.get? l).isSome = true ∧ l' = l := by
  obtain ⟨ss, dir, s, hsegs, hwalk, hdir, hname, rfl⟩ := place_eq_ok_iff.1 h
  simp only [find, hsegs, walk_append_eq_ok_iff, hwalk, walk_name_eq_ok_iff hname, Except.ok.injEq, exists_eq_left', hdir,
    true_and]

theorem find_of_place (h : t.place cwd p = .ok l) (hget : t.get? l = some n) : t.find cwd p = .ok l :=
  (find_eq_ok_iff_of_place h).2 ⟨by rw [hget]; rfl, rfl⟩

theorem isPresent_of_place (h : t.place cwd p = .ok l) : t.isPresent cwd p = (t.get? l).isSome := by
  cases hget : t.get? l with
  | some n => simp [isPresent, find_of_place h hget]
  | none =>
    unfold isPresent
    split
    · rename_i l' hl'
      have hsome := ((find_eq_ok_iff_of_place h).1 hl').1
      rw [hget] at hsome
      cases hsome
    · rfl

theorem fileAt_of_place (h : t.place cwd p = .ok l) (hget : t.get? l = some (.file bs)) : t.fileAt cwd p = .ok (l, bs) := by
  simp [fileAt, find_of_place h hget, hget]

/-- **A file that was written as a text is read as that text.** -/
theorem readText_of_place {text : String} (h : t.place cwd p = .ok l) (hget : t.get? l = some (.file (textBytes text))) :
    t.readText cwd p = .ok text := by
  simp [readText, fileAt_of_place h hget, bytesText?_textBytes]

/-! ## What takes a file -/

/-- **The path leads to a location that can hold a file**: no directory stands there. -/
def Takes (t : Tree) (cwd : Location) (p : String) (l : Location) : Prop :=
  t.place cwd p = .ok l ∧ t.get? l ≠ some .directory

/-- **Two trees have directories at the same locations.** -/
def SameDirectories (t t' : Tree) : Prop := ∀ d, t.get? d = some .directory ↔ t'.get? d = some .directory

theorem Takes.eq (h : t.Takes cwd p l) (h' : t.Takes cwd p l') : l = l' := Except.ok.inj (h.1.symm.trans h'.1)

theorem Takes.ne_nil (h : t.Takes cwd p l) : l ≠ [] := ne_nil_of_place h.1

/-- **What a path takes depends on the directories alone.** -/
theorem SameDirectories.takes_iff (h : SameDirectories t t') : t.Takes cwd p l ↔ t'.Takes cwd p l := by
  have hplace : t.place cwd p = .ok l ↔ t'.place cwd p = .ok l :=
    ⟨place_mono fun d hd => (h d).1 hd, place_mono fun d hd => (h d).2 hd⟩
  rw [Takes, Takes, hplace, ne_eq, ne_eq, h l]

theorem Takes.sameDirectories_put (h : t.Takes cwd p l) (bs : Bytes) : SameDirectories t (t.put l (.file bs)) := by
  intro d
  rw [get?_put h.ne_nil]
  by_cases hd : d = l
  · simp [hd, h.2]
  · rw [if_neg hd]

theorem directory_of_not_takes (h : ∀ l, ¬ t.Takes cwd p l) (hplace : t.place cwd p = .ok l) :
    t.get? l = some .directory := by
  by_contra hne
  exact h l ⟨hplace, hne⟩

theorem write_of_takes (h : t.Takes cwd p l) (bs : Bytes) : t.write cwd p bs = .ok (t.put l (.file bs)) := by
  unfold write
  rw [h.1]
  simp only
  split
  · rename_i hdir
    exact absurd hdir h.2
  · rfl

theorem exists_write_eq_error (h : ∀ l, ¬ t.Takes cwd p l) (bs : Bytes) : ∃ e, t.write cwd p bs = .error e := by
  unfold write
  cases hplace : t.place cwd p with
  | error e => exact ⟨e, rfl⟩
  | ok l => exact ⟨.isDirectory, by simp [directory_of_not_takes h hplace]⟩

theorem copy_eq_write (hsource : t.place cwd p = .ok l) (hfile : t.get? l = some (.file bs)) :
    t.copy cwd p q = t.write cwd q bs := by
  rw [copy, fileAt_of_place hsource hfile]

theorem remove_of_place (hsource : t.place cwd p = .ok l) (hfile : t.get? l = some (.file bs)) :
    t.remove cwd p = .ok (t.erase l) := by
  rw [remove, fileAt_of_place hsource hfile]

/-- **A file that stands at `l` is moved to where the other path takes it**, or it stands apart from there. -/
theorem rename_of_takes (apart : Location → Location → Bool) (hsource : t.place cwd p = .ok l)
    (hfile : t.get? l = some (.file bs)) (h : t.Takes cwd q l') :
    t.rename apart cwd p q = if apart l l' then .error .crossDevice else .ok ((t.erase l).put l' (.file bs)) := by
  unfold rename
  rw [fileAt_of_place hsource hfile, h.1]
  simp only
  split
  · rfl
  · split
    · rename_i hdir
      exact absurd hdir h.2
    · rfl

/-- **A file that cannot be copied cannot be moved either.** -/
theorem exists_rename_eq_error (apart : Location → Location → Bool) (hsource : t.place cwd p = .ok l)
    (hfile : t.get? l = some (.file bs)) (h : ∀ l', ¬ t.Takes cwd q l') : ∃ e, t.rename apart cwd p q = .error e := by
  unfold rename
  rw [fileAt_of_place hsource hfile]
  cases hplace : t.place cwd q with
  | error e => exact ⟨e, rfl⟩
  | ok l' =>
    by_cases hapart : apart l l' = true
    · exact ⟨.crossDevice, by simp [hapart]⟩
    · exact ⟨.isDirectory, by simp [hapart, directory_of_not_takes h hplace]⟩

end Tree
end CallPlan
