import CallPlan.Proofs.Temporaries
/-!
# What a run leaves in the tree

Reading a script and planning it change no file, so what a run changes is what writing the program changes.  Writing has three
ends (`WriteEnds`): the temporary is refused and nothing changes, or the program stands at its path and nothing else has changed,
or the temporary is written and its path then takes no file, which leaves the temporary behind.  A run that succeeds changes its
output alone (`run_ok_tree`), and one that fails changes nothing unless it ends the third way (`run_error_tree`).
-/
namespace CallPlan

variable {t t' : Tree} {cwd l l' : Location} {apart : Location → Location → Bool} {p q path : String} {bs : Bytes}

/-! ## Writing a file -/

namespace Tree

theorem step_of_ok {f : Tree → Except FileError Tree} (h : f t = .ok t') : step f t = (.ok (), t') := by
  rw [step, h]

theorem step_of_error {f : Tree → Except FileError Tree} {e : FileError} (h : f t = .error e) : step f t = (.error e, t) := by
  rw [step, h]

end Tree

/-- **A file comes to stand where the other path takes it**, whether it is moved or copied and removed. -/
theorem moveFile_of_takes (apart : Location → Location → Bool) (hsource : t.place cwd p = .ok l)
    (hfile : t.get? l = some (.file bs)) (h : t.Takes cwd q l') (hne : l ≠ l') :
    moveFile (Tree.fileSystem cwd apart) p q t = (.ok (), (t.erase l).put l' (.file bs)) := by
  have hmoved := Tree.rename_of_takes apart hsource hfile h
  by_cases hapart : apart l l' = true
  · rw [if_pos hapart] at hmoved
    have hrename : (Tree.fileSystem cwd apart).rename p q t = (.error .crossDevice, t) :=
      Tree.step_of_error (f := fun t => t.rename apart cwd p q) hmoved
    have hcopy : (Tree.fileSystem cwd apart).copy p q t = (.ok (), t.put l' (.file bs)) :=
      Tree.step_of_ok (f := fun t => t.copy cwd p q) ((Tree.copy_eq_write hsource hfile).trans (Tree.write_of_takes h bs))
    -- the copy is no directory and stands elsewhere, so the file is still found where it was
    have hplace := Tree.place_mono (fun d hd => (h.sameDirectories_put bs d).1 hd) hsource
    have hkept : (t.put l' (.file bs)).get? l = some (.file bs) := by rw [Tree.get?_put h.ne_nil, if_neg hne, hfile]
    have hremove : (Tree.fileSystem cwd apart).remove p (t.put l' (.file bs)) = (.ok (), (t.put l' (.file bs)).erase l) :=
      Tree.step_of_ok (f := fun t => t.remove cwd p) (Tree.remove_of_place hplace hkept)
    rw [← Tree.erase_put_of_ne hne]
    simp only [moveFile, bind_of_eq hrename, bind_of_eq hcopy, hremove]
  · rw [if_neg hapart] at hmoved
    have hrename : (Tree.fileSystem cwd apart).rename p q t = (.ok (), (t.erase l).put l' (.file bs)) :=
      Tree.step_of_ok (f := fun t => t.rename apart cwd p q) hmoved
    rw [moveFile, bind_of_eq hrename]
    rfl

/-- **A file that can be neither moved nor copied stays where it is.** -/
theorem exists_moveFile_eq_error (apart : Location → Location → Bool) (hsource : t.place cwd p = .ok l)
    (hfile : t.get? l = some (.file bs)) (h : ∀ l', ¬ t.Takes cwd q l') :
    ∃ e, moveFile (Tree.fileSystem cwd apart) p q t = (.error e, t) := by
  obtain ⟨e, he⟩ := Tree.exists_rename_eq_error apart hsource hfile h
  obtain ⟨e', he'⟩ := Tree.exists_write_eq_error h bs
  have hrename : (Tree.fileSystem cwd apart).rename p q t = (.error e, t) :=
    Tree.step_of_error (f := fun t => t.rename apart cwd p q) he
  have hcopy : (Tree.fileSystem cwd apart).copy p q t = (.error e', t) :=
    Tree.step_of_error (f := fun t => t.copy cwd p q) ((Tree.copy_eq_write hsource hfile).trans he')
  refine ⟨e', ?_⟩
  simp only [moveFile, bind_of_eq hrename, bind_of_eq hcopy]
  rfl

/-- **A text goes to where its path takes a file**, and all else stays, once its temporary could be written. -/
theorem writeFile_of_takes {tmp : String} (htmp : t.IsTemporary cwd path tmp) (htaken : t.Takes cwd tmp l)
    (h : t.Takes cwd path l') (text : String) :
    writeFile (Tree.fileSystem cwd apart) path text t = (.ok (), t.put l' (.file (textBytes text))) := by
  obtain ⟨name, hname, hfree⟩ := htmp.exists_freeTemporary_eq apart
  have hcreate : (Tree.fileSystem cwd apart).create tmp text t = (.ok (), t.put l (.file (textBytes text))) :=
    Tree.step_of_ok (f := fun t => t.create cwd tmp text) (Tree.write_of_takes htaken _)
  -- the temporary is no directory, so both paths lead where they led before it was written
  have hsame := htaken.sameDirectories_put (textBytes text)
  have hmove := moveFile_of_takes apart (hsame.takes_iff.1 htaken).1 (Tree.get?_put_self htaken.ne_nil)
    (hsame.takes_iff.1 h) (htmp.ne_of_place htaken.1 h.1)
  rw [Tree.erase_put htaken.ne_nil (htmp.get?_eq_none htaken.1)] at hmove
  simp only [writeFile, hname, bind_of_eq hfree, bind_of_eq hcreate, bind_of_eq hmove]
  rfl

/-- **A temporary stays behind** when its path takes no file. -/
theorem exists_writeFile_stranded {tmp : String} (htmp : t.IsTemporary cwd path tmp) (htaken : t.Takes cwd tmp l)
    (h : ∀ l', ¬ t.Takes cwd path l') (text : String) :
    ∃ e, writeFile (Tree.fileSystem cwd apart) path text t = (.error (.file e), t.put l (.file (textBytes text))) := by
  obtain ⟨name, hname, hfree⟩ := htmp.exists_freeTemporary_eq apart
  have hcreate : (Tree.fileSystem cwd apart).create tmp text t = (.ok (), t.put l (.file (textBytes text))) :=
    Tree.step_of_ok (f := fun t => t.create cwd tmp text) (Tree.write_of_takes htaken _)
  have hsame := htaken.sameDirectories_put (textBytes text)
  obtain ⟨e, hmove⟩ := exists_moveFile_eq_error apart (hsame.takes_iff.1 htaken).1 (Tree.get?_put_self htaken.ne_nil)
    fun l' hl' => h l' (hsame.takes_iff.2 hl')
  refine ⟨e, ?_⟩
  simp only [writeFile, hname, bind_of_eq hfree, bind_of_eq hcreate, bind_of_eq hmove]
  rfl

/-- **Nothing changes** when no temporary can be written. -/
theorem exists_writeFile_refused (h : ∀ tmp l, t.IsTemporary cwd path tmp → ¬ t.Takes cwd tmp l) (text : String) :
    ∃ c, writeFile (Tree.fileSystem cwd apart) path text t = (.error c, t) := by
  cases hname : PathText.fileName? path with
  | none => exact ⟨.request (.outputWithoutName path), by simp only [writeFile, hname]; rfl⟩
  | some name =>
    simp only [writeFile, hname]
    rcases freeTemporary_of_fileName? cwd apart t hname with ⟨tmp, hfree, htmp⟩ | ⟨hnone, -⟩
    · obtain ⟨e, he⟩ := Tree.exists_write_eq_error (fun l => h tmp l htmp) (textBytes text)
      have hcreate : (Tree.fileSystem cwd apart).create tmp text t = (.error e, t) :=
        Tree.step_of_error (f := fun t => t.create cwd tmp text) he
      refine ⟨.file e, ?_⟩
      simp only [bind_of_eq hfree, bind_of_eq hcreate]
      rfl
    · refine ⟨.file (.other "no temporary name is free"), ?_⟩
      rw [bind_of_eq hnone]
      rfl

/-- **What writing a text to a path answers, and the tree that it leaves.** -/
inductive WriteEnds (t : Tree) (cwd : Location) (path text : String) : Except Cause Unit → Tree → Prop
  | refused {c : Cause} (refuses : ∀ tmp l, t.IsTemporary cwd path tmp → ¬ t.Takes cwd tmp l) :
      WriteEnds t cwd path text (.error c) t
  | placed {tmp : String} {l₁ l : Location} (temporary : t.IsTemporary cwd path tmp) (taken : t.Takes cwd tmp l₁)
      (target : t.Takes cwd path l) : WriteEnds t cwd path text (.ok ()) (t.put l (.file (textBytes text)))
  | stranded {tmp : String} {l : Location} {e : FileError} (temporary : t.IsTemporary cwd path tmp)
      (taken : t.Takes cwd tmp l) (refuses : ∀ l', ¬ t.Takes cwd path l') :
      WriteEnds t cwd path text (.error (.file e)) (t.put l (.file (textBytes text)))

theorem writeFile_ends (t : Tree) (cwd : Location) (apart : Location → Location → Bool) (path text : String) :
    ∃ r t', writeFile (Tree.fileSystem cwd apart) path text t = (r, t') ∧ WriteEnds t cwd path text r t' := by
  by_cases htaken : ∃ tmp l, t.IsTemporary cwd path tmp ∧ t.Takes cwd tmp l
  · obtain ⟨tmp, l, htmp, hl⟩ := htaken
    by_cases htarget : ∃ l', t.Takes cwd path l'
    · obtain ⟨l', hl'⟩ := htarget
      exact ⟨.ok (), _, writeFile_of_takes htmp hl hl' text, .placed htmp hl hl'⟩
    · have hrefuses : ∀ l', ¬ t.Takes cwd path l' := fun l' hl' => htarget ⟨l', hl'⟩
      obtain ⟨e, he⟩ := exists_writeFile_stranded htmp hl hrefuses text
      exact ⟨.error (.file e), _, he, .stranded htmp hl hrefuses⟩
  · have hrefuses : ∀ tmp l, t.IsTemporary cwd path tmp → ¬ t.Takes cwd tmp l := fun tmp l htmp hl => htaken ⟨tmp, l, htmp, hl⟩
    obtain ⟨c, hc⟩ := exists_writeFile_refused hrefuses text
    exact ⟨.error c, t, hc, .refused hrefuses⟩

/-! ## Planning -/

theorem readAll_fileSystem (cwd : Location) (t : Tree) : ∀ ps : List String,
    readAll (Tree.fileSystem cwd apart) ps t = (ps.map fun p => (p, t.readText cwd p), t)
  | [] => rfl
  | p :: ps => by
    have hread : (Tree.fileSystem cwd apart).readText p t = (t.readText cwd p, t) := rfl
    rw [readAll, bind_of_eq hread, bind_of_eq (readAll_fileSystem cwd t ps)]
    rfl

theorem readFrom_map (read : ReadFile) : ∀ {ps : List String}, p ∈ ps → readFrom (ps.map fun p => (p, read p)) p = read p
  | q :: ps, h => by
    rw [readFrom, List.map_cons, List.lookup_cons]
    by_cases hp : p = q
    · simp [hp]
    · have hne : (p == q) = false := by simpa using hp
      have ih := readFrom_map read ((List.mem_cons.1 h).resolve_left hp)
      rw [readFrom] at ih
      rw [hne]
      exact ih

theorem AbiSource.load_congr {read read' : ReadFile} {base : String} {s : AbiSource}
    (h : ∀ p, s = .path p → read (PathText.join base p) = read' (PathText.join base p)) :
    s.load read base = s.load read' base := by
  cases s with
  | path p => rw [load, load, h p rfl]
  | inline js => rfl

namespace Script

theorem bind_congr {read read' : ReadFile} {base : String} : ∀ {cs : List (String × ContractSpec)},
    (∀ c ∈ cs, ∀ p, c.2.abi = .path p → read (PathText.join base p) = read' (PathText.join base p)) →
    bind read base cs = bind read' base cs
  | [], _ => rfl
  | (n, spec) :: cs, h => by
    rw [bind, bind, AbiSource.load_congr (h (n, spec) List.mem_cons_self),
      bind_congr fun c hc => h c (List.mem_cons_of_mem (n, spec) hc)]

/-- **A script is compiled from the files that it names, and from no others.** -/
theorem compile_congr {read read' : ReadFile} {base : String} {s : Script}
    (h : ∀ p ∈ s.interfacePaths, read (PathText.join base p) = read' (PathText.join base p)) :
    s.compile read base = s.compile read' base := by
  have hbind : bind read base s.contracts = bind read' base s.contracts := by
    refine bind_congr fun c hc p hp => h p (List.mem_filterMap.2 ⟨c, hc, ?_⟩)
    simp only [hp]
  rw [compile, compile, build, build, hbind]

end Script

theorem planWith_fileSystem (cwd : Location) (base text : String) (t : Tree) :
    planWith (Tree.fileSystem cwd apart) base text t = (planScript (t.readText cwd) base text, t) := by
  unfold planWith planScript
  cases Script.ofText text with
  | error f => rfl
  | ok s =>
    have hread : s.compile (readFrom ((s.interfacePaths.map (PathText.join base)).map fun p => (p, t.readText cwd p))) base =
        s.compile (t.readText cwd) base :=
      Script.compile_congr fun p hp => readFrom_map (t.readText cwd) (List.mem_map_of_mem hp)
    simp only
    rw [bind_of_eq (readAll_fileSystem cwd t _), ← hread]
    rfl

/-! ## Runs -/

namespace PlanJob

variable {job : PlanJob} {stdin : Except FileError String}

/-- **The job's script makes the program.**  A script in a file names its interfaces from the file's parent directory, one in the
input from the working directory. -/
inductive Plans (job : PlanJob) (t : Tree) (cwd : Location) (stdin : Except FileError String) (prog : Program) : Prop
  | file {script text : String} (input : job.input = some script) (read : t.readText cwd script = .ok text)
      (plans : planScript (t.readText cwd) ((PathText.parent? script).getD "") text = .ok prog)
  | stdin {text : String} (input : job.input = none) (read : stdin = .ok text)
      (plans : planScript (t.readText cwd) "." text = .ok prog)

/-- The two kinds of script as one. -/
theorem plans_iff {prog : Program} : job.Plans t cwd stdin prog ↔
    ∃ text, job.input.elim stdin (t.readText cwd) = .ok text ∧
      planScript (t.readText cwd) (scriptBase job.input) text = .ok prog := by
  constructor
  · rintro (⟨input, read, plans⟩ | ⟨input, read, plans⟩)
    · rw [input]
      exact ⟨_, read, plans⟩
    · rw [input]
      exact ⟨_, read, plans⟩
  · rintro ⟨text, read, plans⟩
    cases input : job.input with
    | some script =>
      rw [input] at read plans
      exact .file input read plans
    | none =>
      rw [input] at read plans
      exact .stdin input read plans

theorem Plans.unique {prog prog' : Program} (h : job.Plans t cwd stdin prog) (h' : job.Plans t cwd stdin prog') :
    prog = prog' := by
  obtain ⟨text, htext, hplan⟩ := plans_iff.1 h
  obtain ⟨text', htext', hplan'⟩ := plans_iff.1 h'
  obtain rfl : text = text' := Except.ok.inj (htext.symm.trans htext')
  exact Except.ok.inj (hplan.symm.trans hplan')

theorem readScript_fileSystem (input : Option String) (cwd : Location) (apart : Location → Location → Bool)
    (stdin : Except FileError String) (t : Tree) :
    ∃ r, readScript (Tree.fileSystem cwd apart) (pure stdin) input t = (r, t) ∧
      ∀ text, r = .ok text ↔ input.elim stdin (t.readText cwd) = .ok text := by
  cases input with
  | none =>
    have hstdin : (pure stdin : StateM Tree _) t = (stdin, t) := rfl
    rw [readScript, bind_of_eq hstdin]
    cases stdin with
    | ok text => exact ⟨.ok text, rfl, by simp⟩
    | error e => exact ⟨.error ⟨[.readingScript], .file e⟩, rfl, by simp⟩
  | some path =>
    have hread : (Tree.fileSystem cwd apart).readText path t = (t.readText cwd path, t) := rfl
    rw [readScript, bind_of_eq hread]
    cases htext : t.readText cwd path with
    | ok text => exact ⟨.ok text, rfl, by simp [htext]⟩
    | error e => exact ⟨.error ⟨[.readingScript, .openingScript path], .file e⟩, rfl, by simp [htext]⟩

/-- **A run changes nothing until it hands its program over.** -/
theorem run_fileSystem (job : PlanJob) (cwd : Location) (apart : Location → Location → Bool)
    (stdin : Except FileError String) (t : Tree) :
    (∃ f, job.run (Tree.fileSystem cwd apart) (pure stdin) t = (.error f, t) ∧ ∀ prog, ¬ job.Plans t cwd stdin prog) ∨
    ∃ prog, job.Plans t cwd stdin prog ∧
      job.run (Tree.fileSystem cwd apart) (pure stdin) t = deliver (Tree.fileSystem cwd apart) job prog t := by
  obtain ⟨r, hr, htext⟩ := readScript_fileSystem job.input cwd apart stdin t
  rw [run, bind_of_eq hr]
  cases r with
  | error f =>
    refine .inl ⟨f, rfl, ?_⟩
    intro prog hplans
    obtain ⟨text, hscript, -⟩ := plans_iff.1 hplans
    cases (htext text).2 hscript
  | ok text =>
    have hscript := (htext text).1 rfl
    simp only
    rw [bind_of_eq (planWith_fileSystem cwd (scriptBase job.input) text t)]
    cases hplan : planScript (t.readText cwd) (scriptBase job.input) text with
    | ok prog => exact .inr ⟨prog, plans_iff.2 ⟨text, hscript, hplan⟩, rfl⟩
    | error f =>
      refine .inl ⟨f, rfl, ?_⟩
      intro prog hplans
      obtain ⟨text', hscript', hplan'⟩ := plans_iff.1 hplans
      obtain rfl : text = text' := Except.ok.inj (hscript.symm.trans hscript')
      rw [hplan] at hplan'
      cases hplan'

theorem deliver_of_ok {prog : Program} (hout : job.output = some path)
    (h : writeFile (Tree.fileSystem cwd apart) path (prog.render job.format) t = (.ok (), t')) :
    deliver (Tree.fileSystem cwd apart) job prog t = (.ok ⟨"", statusLine "WRITE" path ++ planStatus prog⟩, t') := by
  simp only [deliver, hout, bind_of_eq h]
  rfl

theorem deliver_of_error {prog : Program} {c : Cause} (hout : job.output = some path)
    (h : writeFile (Tree.fileSystem cwd apart) path (prog.render job.format) t = (.error c, t')) :
    deliver (Tree.fileSystem cwd apart) job prog t = (.error ⟨[.writing path], c⟩, t') := by
  simp only [deliver, hout, bind_of_eq h]
  rfl

/-- **How a run with an output file ends**: without a program, with one that could not be written, or with one that was. -/
inductive Ends (job : PlanJob) (t : Tree) (cwd : Location) (stdin : Except FileError String) (path : String) :
    Except Failure Report → Tree → Prop
  | unplanned {f : Failure} (planless : ∀ prog, ¬ job.Plans t cwd stdin prog) : Ends job t cwd stdin path (.error f) t
  | unwritten {prog : Program} {c : Cause} {t' : Tree} (plans : job.Plans t cwd stdin prog)
      (written : WriteEnds t cwd path (prog.render job.format) (.error c) t') :
      Ends job t cwd stdin path (.error ⟨[.writing path], c⟩) t'
  | written {prog : Program} {report : Report} {t' : Tree} (plans : job.Plans t cwd stdin prog)
      (written : WriteEnds t cwd path (prog.render job.format) (.ok ()) t') : Ends job t cwd stdin path (.ok report) t'

theorem run_ends (hout : job.output = some path) {r : Except Failure Report}
    (hrun : Job.run (Tree.fileSystem cwd apart) (pure stdin) (.plan job) t = (r, t')) : job.Ends t cwd stdin path r t' := by
  rw [Job.run] at hrun
  rcases run_fileSystem job cwd apart stdin t with ⟨f, hf, hplanless⟩ | ⟨prog, hplans, hdeliver⟩
  · rw [hf] at hrun
    cases hrun
    exact .unplanned hplanless
  · rw [hdeliver] at hrun
    obtain ⟨w, t₁, hwrite, hwritten⟩ := writeFile_ends t cwd apart path (prog.render job.format)
    cases w with
    | ok _ =>
      rw [deliver_of_ok hout hwrite] at hrun
      cases hrun
      exact .written hplans hwritten
    | error c =>
      rw [deliver_of_error hout hwrite] at hrun
      cases hrun
      exact .unwritten hplans hwritten

/-- **A run that fails changes nothing, or leaves its temporary behind.**  If the output path takes a file, nothing changes.
The tree changes exactly when the script makes a program and the temporary can be written; what is new then is that one file,
where nothing stood before, with the program in it. -/
theorem run_error_tree {f : Failure} (hout : job.output = some path)
    (hrun : Job.run (Tree.fileSystem cwd apart) (pure stdin) (.plan job) t = (.error f, t')) :
    ((∃ l, t.Takes cwd path l) → t' = t) ∧
    (t' ≠ t ↔ ∃ prog tmp l, job.Plans t cwd stdin prog ∧ t.IsTemporary cwd path tmp ∧ t.Takes cwd tmp l) ∧
    ∀ prog tmp l, job.Plans t cwd stdin prog → t.IsTemporary cwd path tmp → t.Takes cwd tmp l →
      t.get? l = none ∧ t' = t.put l (.file (textBytes (prog.render job.format))) ∧ ∃ e, f = ⟨[.writing path], .file e⟩ := by
  cases run_ends hout hrun with
  | unplanned planless =>
    refine ⟨fun _ => rfl, ⟨fun h => absurd rfl h, ?_⟩, fun prog tmp l hplans => absurd hplans (planless prog)⟩
    rintro ⟨prog, tmp, l, hplans, -⟩
    exact absurd hplans (planless prog)
  | unwritten hplans hwritten =>
    cases hwritten with
    | refused refuses =>
      refine ⟨fun _ => rfl, ⟨fun h => absurd rfl h, ?_⟩, fun prog tmp l _ htmp hl => absurd hl (refuses tmp l htmp)⟩
      rintro ⟨prog, tmp, l, -, htmp, hl⟩
      exact absurd hl (refuses tmp l htmp)
    | @stranded tmp l e htmp htaken refuses =>
      have habsent := htmp.get?_eq_none htaken.1
      refine ⟨?_, ⟨fun _ => ⟨_, tmp, l, hplans, htmp, htaken⟩, fun _ => Tree.put_ne_self htaken.ne_nil habsent⟩, ?_⟩
      · rintro ⟨l', hl'⟩
        exact absurd hl' (refuses l')
      · intro prog' tmp' l' hplans' htmp' htaken'
        obtain rfl := hplans.unique hplans'
        obtain rfl := htmp.unique htmp'
        obtain rfl := htaken.eq htaken'
        exact ⟨habsent, rfl, e, rfl⟩

def listingJob (input output : String) : PlanJob := ⟨some input, some output, .listing, false⟩

/-- A directory stands where the program is to go. -/
def blockedTree : Tree :=
  ⟨[(["plan.json"], .file (textBytes "\x7b\"contracts\":\x7b\x7d,\"commands\":[]\x7d")), (["out"], .directory)]⟩

theorem run_blockedTree :
    Job.run (Tree.fileSystem [] fun _ _ => false) (pure (.ok "")) (.plan (listingJob "plan.json" "out")) blockedTree =
      (.error ⟨[.writing "out"], .file .isDirectory⟩,
        blockedTree.put ["out.tmp0"] (.file (textBytes ";; instructions=0 slots=0\n"))) ∧
    blockedTree.put ["out.tmp0"] (.file (textBytes ";; instructions=0 slots=0\n")) ≠ blockedTree :=
  ⟨Prod.ext (by decide +kernel) (by decide +kernel), by decide +kernel⟩

/-- The script lacks its commands. -/
def brokenTree : Tree :=
  ⟨[(["plan.json"], .file (textBytes "\x7b\"contracts\":\x7b\x7d\x7d")), (["out"], .file (textBytes "kept"))]⟩

theorem run_error_tree_brokenTree :
    ∃ f, Job.run (Tree.fileSystem [] fun _ _ => false) (pure (.ok "")) (.plan (listingJob "plan.json" "out")) brokenTree =
      (.error f, brokenTree) := by
  have hfails : (Job.run (Tree.fileSystem [] fun _ _ => false) (pure (.ok "")) (.plan (listingJob "plan.json" "out"))
      brokenTree).1.isOk = false := by
    decide +kernel
  have htakes : brokenTree.Takes [] "out" ["out"] := ⟨by decide +kernel, by decide +kernel⟩
  rcases hrun : Job.run (Tree.fileSystem [] fun _ _ => false) (pure (.ok "")) (.plan (listingJob "plan.json" "out")) brokenTree
    with ⟨f | report, t'⟩
  · obtain ⟨hkept, -⟩ := run_error_tree rfl hrun
    exact ⟨f, by rw [hkept ⟨["out"], htakes⟩]⟩
  · rw [hrun] at hfails
    cases hfails

/-- **A run succeeds exactly when there is a program, and a place for its temporary and for itself.** -/
theorem run_ok_iff (hout : job.output = some path) :
    (∃ report t', Job.run (Tree.fileSystem cwd apart) (pure stdin) (.plan job) t = (.ok report, t')) ↔
      ∃ prog tmp l₁ l, job.Plans t cwd stdin prog ∧ t.IsTemporary cwd path tmp ∧ t.Takes cwd tmp l₁ ∧ t.Takes cwd path l := by
  constructor
  · rintro ⟨report, t', hrun⟩
    cases run_ends hout hrun with
    | written hplans hwritten =>
      cases hwritten with
      | placed htmp htaken htarget => exact ⟨_, _, _, _, hplans, htmp, htaken, htarget⟩
  · rintro ⟨prog, tmp, l₁, l, hplans, htmp, htaken, htarget⟩
    rcases run_fileSystem job cwd apart stdin t with ⟨f, -, hplanless⟩ | ⟨prog', hplans', hdeliver⟩
    · exact absurd hplans (hplanless prog)
    · exact ⟨_, _, hdeliver.trans (deliver_of_ok hout (writeFile_of_takes htmp htaken htarget _))⟩

/-- **A run that succeeds changes its output file and nothing else.**  The search for a temporary ends, and nothing stands
where the temporary goes.  A run succeeds exactly when its script makes a program and both the temporary and the output path
take a file; then the output path holds the program, every other location is as before, and the temporary is gone. -/
theorem run_ok_tree (job : PlanJob) (t : Tree) (cwd : Location) (apart : Location → Location → Bool)
    (stdin : Except FileError String)    (hout : job.output = some path) (hsize : t.entries.length < Nat.pow 2 32) :
    (∀ name, PathText.fileName? path = some name → ∃ k ≤ t.entries.length,
      freeTemporary (Tree.fileSystem cwd apart) (directoryOf path) name maxTemporaries 0 t =
        (some (temporaryPath (directoryOf path) name k), t) ∧
      t.IsTemporary cwd path (temporaryPath (directoryOf path) name k)) ∧
    (∀ tmp l, t.IsTemporary cwd path tmp → t.place cwd tmp = .ok l → t.get? l = none) ∧
    ((∃ report t', Job.run (Tree.fileSystem cwd apart) (pure stdin) (.plan job) t = (.ok report, t')) ↔
      ∃ prog tmp l₁ l, job.Plans t cwd stdin prog ∧ t.IsTemporary cwd path tmp ∧ t.Takes cwd tmp l₁ ∧ t.Takes cwd path l) ∧
    ∀ report t', Job.run (Tree.fileSystem cwd apart) (pure stdin) (.plan job) t = (.ok report, t') →
      ∃ prog l, job.Plans t cwd stdin prog ∧ t.place cwd path = .ok l ∧ t' = t.put l (.file (textBytes (prog.render job.format))) ∧
        (∀ l' ≠ l, t'.get? l' = t.get? l') ∧ t'.readText cwd path = .ok (prog.render job.format) ∧
        ∀ tmp l₁, t.IsTemporary cwd path tmp → t.place cwd tmp = .ok l₁ → t'.get? l₁ = none := by
  refine ⟨fun name hname => exists_freeTemporary apart hsize hname, fun tmp l htmp hl => htmp.get?_eq_none hl, run_ok_iff hout, ?_⟩
  intro report t' hrun
  cases run_ends hout hrun with
  | @written prog _ _ hplans hwritten =>
    cases hwritten with
    | @placed tmp l₁ l htmp htaken htarget =>
      have hothers : ∀ l' ≠ l, (t.put l (.file (textBytes (prog.render job.format)))).get? l' = t.get? l' := fun l' hne => by
        rw [Tree.get?_put htarget.ne_nil, if_neg hne]
      have hsame := htarget.sameDirectories_put (textBytes (prog.render job.format))
      refine ⟨prog, l, hplans, htarget.1, rfl, hothers, ?_, fun tmp' l' htmp' hl' => ?_⟩
      · exact Tree.readText_of_place (hsame.takes_iff.1 htarget).1 (Tree.get?_put_self htarget.ne_nil)
      · rw [hothers l' (htmp'.ne_of_place hl' htarget.1), htmp'.get?_eq_none hl']

/-- The program is to replace an interface that its script reads, and its first temporary's name is taken.  Another file of the
interface's name stands in the working directory. -/
def crowdedTree : Tree :=
  ⟨[(["c.json"], .file (textBytes "[]")), (["in"], .directory),
    (["in", "plan.json"], .file (textBytes ("\x7b\"contracts\":\x7b\"c\":\x7b" ++
      "\"address\":\"0xeeeeeeeeeeeeeeeeeeeeeeeeeeeeeeeeeeeeeeee\",\"abi\":\"c.json\"\x7d\x7d," ++
      "\"commands\":[\x7b\"call\":\"c.f\",\"args\":[]\x7d]\x7d"))),
    (["in", "c.json"], .file (textBytes "[\x7b\"type\":\"function\",\"name\":\"f\",\"inputs\":[],\"outputs\":[]\x7d]")),
    (["in", "c.json.tmp0"], .file (textBytes "kept"))]⟩

/-- The script is read from its own directory, and the program is copied into place because it cannot be moved. -/
theorem run_ok_tree_crowdedTree :
    ∃ report t' prog,
      Job.run (Tree.fileSystem [] fun _ _ => true) (pure (.ok "")) (.plan (listingJob "in/plan.json" "in/c.json")) crowdedTree =
        (.ok report, t') ∧
      PathText.parent? "in/plan.json" = some "in" ∧
      (listingJob "in/plan.json" "in/c.json").Plans crowdedTree [] (.ok "") prog ∧
      t'.readText [] "in/c.json" = .ok (prog.render .listing) ∧ t'.get? ["c.json"] = some (.file (textBytes "[]")) ∧
      t'.get? ["in", "c.json.tmp0"] = some (.file (textBytes "kept")) ∧ t'.get? ["in", "c.json.tmp1"] = none := by
  have hplace : crowdedTree.place [] "in/c.json" = .ok ["in", "c.json"] := by decide +kernel
  have hends : (Job.run (Tree.fileSystem [] fun _ _ => true) (pure (.ok ""))
      (.plan (listingJob "in/plan.json" "in/c.json")) crowdedTree).1.isOk = true := by
    decide +kernel
  obtain ⟨-, -, -, htree⟩ :=
    run_ok_tree (listingJob "in/plan.json" "in/c.json") crowdedTree [] (fun _ _ => true) (.ok "") rfl (by decide)
  rcases hrun : Job.run (Tree.fileSystem [] fun _ _ => true) (pure (.ok "")) (.plan (listingJob "in/plan.json" "in/c.json"))
    crowdedTree with ⟨f | report, t'⟩
  · rw [hrun] at hends
    cases hends
  · obtain ⟨prog, l, hplans, hl, -, hothers, htext, -⟩ := htree report t' hrun
    obtain rfl : l = ["in", "c.json"] := Except.ok.inj (hl.symm.trans hplace)
    refine ⟨report, t', prog, rfl, by decide +kernel, hplans, htext, ?_, ?_, ?_⟩
    · rw [hothers _ (by decide)]
      decide +kernel
    · rw [hothers _ (by decide)]
      decide +kernel
    · rw [hothers _ (by decide)]
      decide +kernel

end PlanJob
end CallPlan
