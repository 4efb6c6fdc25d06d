import Mathlib.Data.Prod.Lex
import Mathlib.Logic.Relation
import CodeSurvey.Scan.Workers
import CodeSurvey.Proofs.FingerprintOrder
import CodeSurvey.Proofs.ProjectScan

/-!
# A report is never partial

Once the token has fired, workers leave tasks out. A token that has fired stays fired and the scan
looks at it after every phase, so no report is made from a phase in which something was left out:
a scan gives the report of a scan that is not cancelled, or none. A scan whose workers cannot be had
fails before it has begun, whatever the token does.

## Key results

- `Pool.Step.keeps`: a pool loses no task, and none is left out before the token has fired
- `Step.sound`: what every step of a scan that has its workers preserves
- `Step.fails`: a scan without them does not get anywhere
- `wellFounded_step` / `exists_step`: a scan comes to its end
- `exists_run_iff_exists_token`: the results of runs are those of tokens
- `cancelled_or_complete`: at its end a scan has been cancelled or gives the complete report
-/

namespace CodeSurvey

/-! ## Pools -/

namespace Pool

variable {α : Type}

/-- The pool holds the tasks it was given, and none is left out before the token has fired. -/
structure Holds (pool : Pool α) (tasks : List α) (fired : Bool) : Prop where
  perm : (pool.waiting ++ pool.running ++ pool.finished ++ pool.dropped).Perm tasks
  fired_of_dropped : pool.dropped ≠ [] → fired = true

theorem holds_ofTasks (tasks : List α) (fired : Bool) : (ofTasks tasks).Holds tasks fired where
  perm := by simp [ofTasks]
  fired_of_dropped h := absurd rfl h

/-- The token may fire at any time. -/
theorem Holds.fire {pool : Pool α} {tasks : List α} {fired : Bool} (h : pool.Holds tasks fired)
    (other : Bool) : pool.Holds tasks (fired || other) where
  perm := h.perm
  fired_of_dropped hdropped := by rw [h.fired_of_dropped hdropped, Bool.true_or]

/-- A worker loses no task. -/
theorem Step.keeps {fired : Bool} {pool next : Pool α} {done : Option α}
    (hstep : pool.Step fired next done) {tasks : List α} (h : pool.Holds tasks fired) :
    next.Holds tasks fired := by
  cases hstep with
  | @start waiting running finished dropped task rest _ htask =>
    have htaken : (rest ++ task :: running).Perm (waiting ++ running) :=
      List.perm_middle.trans (htask.symm.append_right running)
    exact {
      perm := ((htaken.append_right finished).append_right dropped).trans h.perm
      fired_of_dropped := h.fired_of_dropped }
  | @drop waiting running finished dropped task rest hlook htask =>
    have hleft : (rest ++ running ++ finished ++ task :: dropped).Perm
        (waiting ++ running ++ finished ++ dropped) :=
      List.perm_middle.trans
        (((htask.symm.append_right running).append_right finished).append_right dropped)
    exact { perm := hleft.trans h.perm, fired_of_dropped := fun _ => hlook }
  | @finish waiting running finished dropped task rest htask =>
    have hdone : (rest ++ (finished ++ [task])).Perm (running ++ finished) := by
      rw [← List.append_assoc]
      exact List.perm_append_comm.trans (htask.symm.append_right finished)
    have hall := (hdone.append_right dropped).append_left waiting
    have hperm := h.perm
    simp only [List.append_assoc] at hall hperm
    exact {
      perm := by
        simp only [List.append_assoc]
        exact hall.trans hperm
      fired_of_dropped := h.fired_of_dropped }

theorem Step.finished_eq {fired : Bool} {pool next : Pool α} {done : Option α}
    (hstep : pool.Step fired next done) : next.finished = pool.finished ++ done.toList := by
  cases hstep <;> simp

/-- If the token has not fired when no worker has anything left to do, everything has been done. -/
theorem Holds.complete {pool : Pool α} {tasks : List α} (h : pool.Holds tasks false)
    (hidle : pool.IsIdle) : pool.finished.Perm tasks ∧ pool.dropped = [] := by
  obtain ⟨hwaiting, hrunning⟩ := hidle
  have hdropped : pool.dropped = [] := Classical.byContradiction fun hne =>
    Bool.false_ne_true (h.fired_of_dropped hne)
  have hperm := h.perm
  rw [hwaiting, hrunning, hdropped, List.append_nil] at hperm
  exact ⟨hperm, hdropped⟩

/-- How much is left to do: a task is taken and then finished. -/
def todo (pool : Pool α) : Nat :=
  2 * pool.waiting.length + pool.running.length

theorem Step.todo_lt {fired : Bool} {pool next : Pool α} {done : Option α}
    (hstep : pool.Step fired next done) : next.todo < pool.todo := by
  cases hstep with
  | start _ htask =>
    have hlength := htask.length_eq
    simp only [todo, List.length_cons] at hlength ⊢
    omega
  | drop _ htask =>
    have hlength := htask.length_eq
    simp only [todo, List.length_cons] at hlength ⊢
    omega
  | finish htask =>
    have hlength := htask.length_eq
    simp only [todo, List.length_cons] at hlength ⊢
    omega

/-- Unless a pool is idle, some worker can do something. -/
theorem isIdle_or_exists_step (pool : Pool α) (fired : Bool) :
    pool.IsIdle ∨ ∃ next done, pool.Step fired next done := by
  obtain ⟨waiting, running, finished, dropped⟩ := pool
  cases waiting with
  | cons task rest =>
    cases fired with
    | true => exact .inr ⟨_, _, .drop rfl (.refl _)⟩
    | false => exact .inr ⟨_, _, .start rfl (.refl _)⟩
  | nil =>
    cases running with
    | cons task rest => exact .inr ⟨_, _, .finish (.refl _)⟩
    | nil => exact .inl ⟨rfl, rfl⟩

end Pool

/-! ## Files and hashes -/

namespace Scanner

variable (scanner : Scanner)

/-- A project of which no file is left out is that of a scan that is not cancelled. -/
theorem scanProject_of_not_dropped {token : Token} {detected : Detected}
    (h : ∀ position, token (.file detected.index position) = false) :
    scanner.scanProject token detected = scanner.scanProject .idle detected := by
  have hlooks : (fun position => token (.file detected.index position)) =
      fun position => Token.idle (.file detected.index position) := funext h
  rw [scanProject, scanProject, hlooks]

/-- The counts of the files of all projects, whoever counts them. -/
theorem sum_fileStats :
    Stats.sum (scanner.fileTasks.map scanner.fileStats) =
      Stats.sum (scanner.scannedProjects.map ScannedProject.stats) := by
  rw [fileTasks, List.map_flatMap, Stats.sum_flatMap, scannedProjects, List.map_map]
  congr 1
  apply List.map_congr_left
  intro project _
  have hfirst : (scanner.fileStats ∘ fun entry : Path × Nat => ⟨project, entry.2, entry.1⟩) =
      (fun path => (scanner.examination project path).stats) ∘ Prod.fst := rfl
  rw [Function.comp_apply, scanProject_idle, List.map_map, hfirst, ← List.map_map,
    List.zipIdx_map_fst]
  simp only [Analysis.stats, List.map_map]
  rfl

/-- What has been counted before the contents are hashed. -/
def analysisStats : Stats :=
  Stats.add { projects := UInt64.ofNat scanner.detected.length }
    (Stats.sum (scanner.fileTasks.map scanner.fileStats))

/-- No project is detected about which version control fires the token. -/
def IsQuiet : Prop :=
  ∀ project ∈ scanner.detected, scanner.versionControl.interrupts project.root = false

/-- What holds of a scan at every moment: what has been done is what a scan that is not cancelled
does, and if something was left out then the token has fired. -/
def Sound : ScanState → Prop
  | ⟨_, stats, .starting⟩ => stats = .zero
  | ⟨_, stats, .detecting⟩ => stats = .zero
  | ⟨fired, stats, .analyzing files unasked⟩ =>
    files.Holds scanner.fileTasks fired ∧
    stats = Stats.add { projects := UInt64.ofNat scanner.detected.length }
      (Stats.sum (files.finished.map scanner.fileStats)) ∧
    (∀ project ∈ unasked, project ∈ scanner.detected) ∧
    ∀ project ∈ scanner.detected,
      project ∈ unasked ∨ fired = true ∨ scanner.versionControl.interrupts project.root = false
  | ⟨fired, stats, .hashing scanned positions index⟩ =>
    scanned = scanner.scannedProjects ∧ scanner.IsQuiet ∧
    positions.Holds (List.range scanner.candidates.length) fired ∧
    (index, stats) = positions.finished.foldl
      (fun state position => FingerprintIndex.hashOne scanner.system position state)
      (.start scanner.candidates, scanner.analysisStats)
  | ⟨fired, _, .ended result⟩ =>
    (result = .error .cancelled ∧ fired = true) ∨ (result = .ok scanner.outcome ∧ scanner.IsQuiet)

theorem sound_start : scanner.Sound .start := rfl

variable {scanner}

/-- The workers have looked at all files: the projects are those of a scan that is not cancelled. -/
theorem map_scanProject_ofDropped {files : Pool FileTask} (h : files.dropped = []) :
    scanner.detected.map (scanner.scanProject (.ofDropped files.dropped)) =
      scanner.scannedProjects := by
  rw [h]
  exact List.map_congr_left fun project _ => scanner.scanProject_of_not_dropped fun _ => rfl

/-- The workers have hashed all contents: the report and the counts are those of a scan that is not
cancelled. -/
theorem outcome_eq {positions : List Nat}
    (hpositions : positions.Perm (List.range scanner.candidates.length))
    {index : FingerprintIndex} {stats : Stats}
    (hfilled : (index, stats) = positions.foldl
      (fun state position => FingerprintIndex.hashOne scanner.system position state)
      (.start scanner.candidates, scanner.analysisStats))
    {groups : List (Digest × List Nat)} (hgroups : groups.Perm index.groups) :
    (⟨⟨scanner.reportedProjects, FingerprintIndex.duplicates { index with groups },
      Sharing.identifiers scanner.reportedProjects⟩, stats⟩ : ScanResult) = scanner.outcome := by
  rw [FingerprintIndex.foldl_hashOne_eq_build] at hfilled
  obtain ⟨rfl, rfl⟩ := Prod.mk.inj hfilled
  have hduplicates := FingerprintIndex.duplicates_eq_of_perm scanner.system scanner.candidates
    hpositions hgroups
  have hcounts : (FingerprintIndex.build scanner.system scanner.candidates positions
      fun _ => false).2 = scanner.fingerprints.2 := by
    rw [fingerprints, FingerprintIndex.stats_build_of_perm _ _ hpositions,
      FingerprintIndex.stats_build_of_perm _ _ (.refl _)]
  have hanalysis : scanner.analysisStats =
      Stats.add { projects := UInt64.ofNat scanner.scannedProjects.length }
        (Stats.sum (scanner.scannedProjects.map ScannedProject.stats)) := by
    rw [analysisStats, sum_fileStats, scannedProjects, List.length_map]
  have hindex : (FingerprintIndex.build scanner.system scanner.candidates positions
      fun _ => false).1.candidates = scanner.candidates := by
    rw [FingerprintIndex.build_index_never]
  rw [hcounts, hanalysis, hindex, hduplicates]
  rfl

/-- The token may fire at any time. -/
theorem sound_fire {stats : Stats} {stage : ScanStage} (h : scanner.Sound ⟨false, stats, stage⟩) :
    scanner.Sound ⟨true, stats, stage⟩ := by
  cases stage with
  | starting => exact h
  | detecting => exact h
  | analyzing files unasked =>
    obtain ⟨hfiles, hstats, hunasked, -⟩ := h
    exact ⟨hfiles.fire true, hstats, hunasked, fun _ _ => .inr (.inl rfl)⟩
  | hashing scanned positions index =>
    obtain ⟨hscanned, hquiet, hpositions, hfilled⟩ := h
    exact ⟨hscanned, hquiet, hpositions.fire true, hfilled⟩
  | ended result => exact h.imp_left fun ⟨hresult, _⟩ => ⟨hresult, rfl⟩

/-- Every step keeps a scan sound that has its workers. -/
theorem Step.sound (hpool : scanner.poolFault? = none) {state next : ScanState}
    (hstep : scanner.Step state next) (h : scanner.Sound state) : scanner.Sound next := by
  cases hstep with
  | fire => exact sound_fire h
  | refuse hfault => exact nomatch hpool.symm.trans hfault
  | start _ => exact h
  | stopDetecting => exact .inl ⟨rfl, rfl⟩
  | detect =>
    obtain rfl : _ = Stats.zero := h
    exact ⟨Pool.holds_ofTasks _ _, (Stats.add_zero _).symm, fun _ => id, fun _ => .inl⟩
  | file hfiles =>
    obtain ⟨hholds, hstats, hasked⟩ := h
    refine ⟨hfiles.keeps hholds, ?_, hasked⟩
    rw [hfiles.finished_eq, List.map_append, Stats.sum_append, ← Stats.add_assoc, ← hstats]
  | @answer fired stats files unasked rest project hproject =>
    obtain ⟨hholds, hstats, hdetected, hasked⟩ := h
    refine ⟨hholds.fire _, hstats, fun other hother => hdetected other
      (hproject.mem_iff.2 (List.mem_cons_of_mem project hother)), fun other hother => ?_⟩
    rcases hasked other hother with hunasked | hfired | hquiet
    · rcases List.mem_cons.1 (hproject.mem_iff.1 hunasked) with rfl | hrest
      · -- this is the project about which version control has answered
        cases hinterrupts : scanner.versionControl.interrupts other.root with
        | true => exact .inr (.inl (Bool.or_true _))
        | false => exact .inr (.inr rfl)
      · exact .inl hrest
    · exact .inr (.inl (by rw [hfired, Bool.true_or]))
    · exact .inr (.inr hquiet)
  | stopAnalyzing _ => exact .inl ⟨rfl, rfl⟩
  | analyze hidle hscanned hcandidates =>
    obtain ⟨hholds, hstats, -, hasked⟩ := h
    -- the token has not fired, so nothing was left out
    obtain ⟨hfinished, hdropped⟩ := hholds.complete hidle
    rw [map_scanProject_ofDropped hdropped] at hscanned
    subst hscanned hcandidates
    have hquiet : scanner.IsQuiet := fun project hproject => by
      simpa using hasked project hproject
    refine ⟨rfl, hquiet, Pool.holds_ofTasks _ _, ?_⟩
    rw [hstats, Stats.sum_perm (hfinished.map scanner.fileStats)]
    rfl
  | hash hpositions hfilled =>
    obtain ⟨hscanned, hquiet, hholds, hbefore⟩ := h
    refine ⟨hscanned, hquiet, hpositions.keeps hholds, ?_⟩
    rw [hpositions.finished_eq, List.foldl_append, ← hbefore, hfilled]
  | stopHashing _ => exact .inl ⟨rfl, rfl⟩
  | report hidle hgroups hprojects =>
    obtain ⟨rfl, hquiet, hholds, hfilled⟩ := h
    subst hprojects
    obtain ⟨hfinished, -⟩ := hholds.complete hidle
    exact .inr ⟨congrArg Except.ok (outcome_eq hfinished hfilled hgroups), hquiet⟩

/-- A scan that has its workers is sound at every moment. -/
theorem sound_of_reachable (hpool : scanner.poolFault? = none) {state : ScanState}
    (h : Relation.ReflTransGen scanner.Step .start state) : scanner.Sound state := by
  induction h with
  | refl => exact scanner.sound_start
  | tail _ hstep ih => exact hstep.sound hpool ih

/-! ### Without workers -/

/-- How far a scan can come whose workers cannot be had. -/
def Fails (fault : ScanError) (stage : ScanStage) : Prop :=
  stage = .starting ∨ stage = .ended (.error fault)

/-- Without its workers a scan does not get anywhere. -/
theorem Step.fails {fault : ScanError} (hfault : scanner.poolFault? = some fault)
    {state next : ScanState} (hstep : scanner.Step state next) (h : Fails fault state.stage) :
    Fails fault next.stage := by
  obtain ⟨fired, stats, stage⟩ := state
  obtain rfl | rfl : stage = .starting ∨ stage = .ended (.error fault) := h
  · cases hstep with
    | fire => exact .inl rfl
    | refuse hother =>
      -- there is one reason why the pool cannot be built
      rw [Option.some.inj (hfault.symm.trans hother)]
      exact .inr rfl
    | start hpool => exact nomatch hpool.symm.trans hfault
  · -- after the end only the token can still fire
    cases hstep with
    | fire => exact .inr rfl

theorem fails_of_reachable {fault : ScanError} (hfault : scanner.poolFault? = some fault)
    {state : ScanState} (h : Relation.ReflTransGen scanner.Step .start state) :
    Fails fault state.stage := by
  induction h with
  | refl => exact .inl rfl
  | tail _ hstep ih => exact hstep.fails hfault ih

/-! ## Ends of a scan -/

/-- How many phases of a scan are still to come. -/
def phasesLeft : ScanStage → Nat
  | .starting => 4
  | .detecting => 3
  | .analyzing _ _ => 2
  | .hashing _ _ _ => 1
  | .ended _ => 0

/-- How much is left to do in a phase. -/
def todoIn : ScanStage → Nat
  | .analyzing files unasked => files.todo + unasked.length
  | .hashing _ positions _ => positions.todo
  | _ => 0

/-- What is left of a scan: phases, and what is to be done in the present one. That the token may
fire counts as something to be done. -/
def remaining (state : ScanState) : Nat ×ₗ Nat :=
  toLex (phasesLeft state.stage, todoIn state.stage + if state.fired then 0 else 1)

theorem Step.remaining_lt {state next : ScanState} (hstep : scanner.Step state next) :
    remaining next < remaining state := by
  rw [remaining, remaining, Prod.Lex.toLex_lt_toLex]
  cases hstep with
  | fire => exact .inr ⟨rfl, Nat.lt_succ_self _⟩
  | file hfiles =>
    have hlt := hfiles.todo_lt
    exact .inr ⟨rfl, by simp only [todoIn]; omega⟩
  | hash hpositions =>
    have hlt := hpositions.todo_lt
    exact .inr ⟨rfl, by simp only [todoIn]; omega⟩
  | @answer fired stats files unasked rest project hproject =>
    have hlength := hproject.length_eq
    -- the answer may fire the token, but does not take it back
    have hfired : (if fired || scanner.versionControl.interrupts project.root then 0 else 1) ≤
        if fired then 0 else 1 := by
      cases fired with
      | true => exact Nat.le_refl 0
      | false => split <;> simp
    refine .inr ⟨rfl, ?_⟩
    simp only [todoIn, List.length_cons] at hlength ⊢
    omega
  -- all others end a phase
  | _ => exact .inl (by simp only [phasesLeft]; omega)

variable (scanner) in
/-- No scan goes on for ever. -/
theorem wellFounded_step : WellFounded fun next state => scanner.Step state next :=
  Subrelation.wf (fun hstep => Step.remaining_lt hstep) (InvImage.wf remaining wellFounded_lt)

variable (scanner) in
/-- A scan that has not begun begins, or fails. -/
theorem exists_step_of_starting (fired : Bool) (stats : Stats) :
    ∃ next, scanner.Step ⟨fired, stats, .starting⟩ next ∧ next.fired = fired := by
  cases hpool : scanner.poolFault? with
  | none => exact ⟨_, .start hpool, rfl⟩
  | some fault => exact ⟨_, .refuse hpool, rfl⟩

/-- No scan gets stuck before its end, and if version control fires no token then the next step
need not either. -/
theorem exists_step {state : ScanState} (h : scanner.Sound state) :
    (∃ result, state.stage = .ended result) ∨
      ∃ next, scanner.Step state next ∧ (scanner.IsQuiet → next.fired = state.fired) := by
  obtain ⟨fired, stats, stage⟩ := state
  cases stage with
  | ended result => exact .inl ⟨result, rfl⟩
  | starting =>
    obtain ⟨next, hstep, hfired⟩ := scanner.exists_step_of_starting fired stats
    exact .inr ⟨next, hstep, fun _ => hfired⟩
  | detecting =>
    cases fired with
    | true => exact .inr ⟨_, .stopDetecting, fun _ => rfl⟩
    | false => exact .inr ⟨_, .detect, fun _ => rfl⟩
  | analyzing files unasked =>
    rcases files.isIdle_or_exists_step fired with hidle | ⟨next, done, hfiles⟩
    · cases unasked with
      | cons project rest =>
        refine .inr ⟨_, .answer (.refl _), fun hquiet => ?_⟩
        have hproject := hquiet project (h.2.2.1 project List.mem_cons_self)
        simp [hproject]
      | nil =>
        cases fired with
        | true => exact .inr ⟨_, .stopAnalyzing hidle, fun _ => rfl⟩
        | false => exact .inr ⟨_, .analyze hidle rfl rfl, fun _ => rfl⟩
    · exact .inr ⟨_, .file hfiles, fun _ => rfl⟩
  | hashing scanned positions index =>
    rcases positions.isIdle_or_exists_step fired with hidle | ⟨next, done, hpositions⟩
    · cases fired with
      | true => exact .inr ⟨_, .stopHashing hidle, fun _ => rfl⟩
      | false => exact .inr ⟨_, .report hidle (.refl _) rfl, fun _ => rfl⟩
    · exact .inr ⟨_, .hash hpositions rfl, fun _ => rfl⟩

/-- A scan that has its workers and whose token does not fire can go on to its report. -/
theorem exists_complete_run (hpool : scanner.poolFault? = none) (hquiet : scanner.IsQuiet)
    {state : ScanState} (hrun : Relation.ReflTransGen scanner.Step .start state)
    (hfired : state.fired = false) :
    ∃ last, Relation.ReflTransGen scanner.Step state last ∧
      last.stage = .ended (.ok scanner.outcome) := by
  induction state using scanner.wellFounded_step.induction with
  | h state ih =>
    have hsound := sound_of_reachable hpool hrun
    rcases exists_step hsound with ⟨result, hended⟩ | ⟨next, hstep, hnext⟩
    · obtain ⟨fired, stats, stage⟩ := state
      obtain rfl : stage = .ended result := hended
      obtain rfl : fired = false := hfired
      rcases hsound with ⟨-, hcancelled⟩ | ⟨rfl, -⟩
      · exact absurd hcancelled Bool.false_ne_true
      · exact ⟨_, .refl, rfl⟩
    · obtain ⟨last, hlast, hended⟩ :=
        ih next hstep (hrun.tail hstep) ((hnext hquiet).trans hfired)
      exact ⟨last, .head hstep hlast, hended⟩

/-! ## Cancelled or complete -/

variable (scanner)

theorem isInterrupted_eq_false_iff : scanner.isInterrupted = false ↔ scanner.IsQuiet := by
  simp [isInterrupted, IsQuiet]

/-- With the workers at hand, only the last look at the token counts: it sees the token fired if any
other does, and if it does not then nothing was left out. -/
theorem execute_eq {token : Token} (h : token.IsPossible) :
    scanner.execute token =
      if token .hashed || scanner.isInterrupted then .error .cancelled
      else .ok scanner.outcome := by
  cases hlast : token .hashed with
  | true =>
    simp only [execute, conclude, hlast, Bool.true_or, if_true]
    split
    · rfl
    · split <;> rfl
  | false =>
    have hidle : token = .idle := by
      funext checkpoint
      cases checkpoint with
      | hashed => exact hlast
      | _ =>
        -- all other looks come before the last one
        exact Bool.eq_false_iff.2 fun hfired =>
          Bool.false_ne_true (hlast.symm.trans (h _ .hashed (by simp [Checkpoint.stage]) hfired))
    rw [hidle, execute_idle, Bool.false_or]

/-- A scan is cancelled if the last look at the token sees it fired or version control fires it, and
gives the complete report if not. -/
theorem scanWith_eq {token : Token} (h : token.IsPossible) :
    scanner.scanWith token = scanner.withPool
      (if token .hashed || scanner.isInterrupted then .error .cancelled
      else .ok scanner.outcome) :=
  congrArg scanner.withPool (scanner.execute_eq h)

/-- The workers can bring a scan to a result exactly if it is that of some token. -/
theorem exists_run_iff_exists_token (result : Except ScanError ScanResult) :
    (∃ state, Relation.ReflTransGen scanner.Step .start state ∧ state.stage = .ended result) ↔
      ∃ token : Token, token.IsPossible ∧ scanner.scanWith token = result := by
  cases hpool : scanner.poolFault? with
  | some fault =>
    -- every run and every token comes to the fault
    constructor
    · rintro ⟨state, hrun, hended⟩
      rcases fails_of_reachable hpool hrun with hstarting | hfault
      · exact nomatch hstarting.symm.trans hended
      · refine ⟨.idle, Token.idle_isPossible, ?_⟩
        rw [scanWith, scanner.withPool_of_some hpool]
        exact ScanStage.ended.inj (hfault.symm.trans hended)
    · rintro ⟨token, -, rfl⟩
      exact ⟨_, .single (.refuse hpool), by rw [scanWith, scanner.withPool_of_some hpool]⟩
  | none =>
    constructor
    · rintro ⟨⟨fired, stats, stage⟩, hrun, hended⟩
      obtain rfl : stage = .ended result := hended
      rcases sound_of_reachable hpool hrun with ⟨rfl, -⟩ | ⟨rfl, hquiet⟩
      · have hfired : Token.fired.IsPossible := fun _ _ _ _ => rfl
        refine ⟨.fired, hfired, ?_⟩
        exact (scanner.scanWith_eq hfired).trans (scanner.withPool_of_none hpool _)
      · refine ⟨.idle, Token.idle_isPossible, ?_⟩
        rw [scanner.scanWith_eq Token.idle_isPossible, scanner.withPool_of_none hpool,
          scanner.isInterrupted_eq_false_iff.2 hquiet]
        rfl
    · rintro ⟨token, hpossible, rfl⟩
      -- a token that fires at once ends the scan after the detection
      have hstopped : Relation.ReflTransGen scanner.Step .start
          ⟨true, .zero, .ended (.error .cancelled)⟩ :=
        .tail (.tail (.single .fire) (.start hpool)) .stopDetecting
      rw [scanner.scanWith_eq hpossible, scanner.withPool_of_none hpool]
      split
      · exact ⟨_, hstopped, rfl⟩
      · rename_i hnot
        have hquiet : scanner.IsQuiet := by
          rw [Bool.or_eq_true, not_or, Bool.not_eq_true, Bool.not_eq_true] at hnot
          exact scanner.isInterrupted_eq_false_iff.1 hnot.2
        obtain ⟨last, hrun, hended⟩ := exists_complete_run hpool hquiet
          (Relation.ReflTransGen.refl : Relation.ReflTransGen scanner.Step .start .start) rfl
        exact ⟨last, hrun, hended⟩

/-- A scan that has not ended goes on. -/
theorem ended_or_exists_step {state : ScanState}
    (hrun : Relation.ReflTransGen scanner.Step .start state) :
    (∃ result, state.stage = .ended result) ∨ ∃ next, scanner.Step state next := by
  cases hpool : scanner.poolFault? with
  | none =>
    have hnext := exists_step (sound_of_reachable hpool hrun)
    exact hnext.imp_right fun ⟨next, hstep, _⟩ => ⟨next, hstep⟩
  | some fault =>
    obtain ⟨fired, stats, stage⟩ := state
    obtain rfl | hended : stage = .starting ∨ stage = .ended (.error fault) :=
      fails_of_reachable hpool hrun
    · obtain ⟨next, hstep, -⟩ := scanner.exists_step_of_starting fired stats
      exact .inr ⟨next, hstep⟩
    · exact .inl ⟨_, hended⟩

/-- At its end a scan has been cancelled, or its result is that of a scan that is not cancelled. -/
theorem cancelled_or_eq_scan {state : ScanState}
    (hrun : Relation.ReflTransGen scanner.Step .start state)
    {result : Except ScanError ScanResult} (hended : state.stage = .ended result) :
    (result = .error .cancelled ∧ state.fired = true ∧ scanner.poolFault? = none) ∨
      result = scanner.scan := by
  rw [scan_eq]
  cases hpool : scanner.poolFault? with
  | none =>
    rw [scanner.withPool_of_none hpool]
    obtain ⟨fired, stats, stage⟩ := state
    obtain rfl : stage = .ended result := hended
    exact (sound_of_reachable hpool hrun).imp (fun ⟨hresult, hfired⟩ => ⟨hresult, hfired, rfl⟩)
      And.left
  | some fault =>
    rw [scanner.withPool_of_some hpool]
    rcases fails_of_reachable hpool hrun with hstarting | hfault
    · exact nomatch hstarting.symm.trans hended
    · exact .inr (ScanStage.ended.inj (hended.symm.trans hfault))

/-- The workspace `nested` on a computer that has not got the threads that are asked for. -/
def starved : Scanner :=
  { nested with
    settings := { scan := { projectMarkers := ["m"], maxParallelJobs := some 2 } }
    threads := { shortage? := fun jobs => if 1 < jobs then some "out of threads" else none } }

end Scanner

end CodeSurvey
