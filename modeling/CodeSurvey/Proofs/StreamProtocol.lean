import CodeSurvey.Scan.StreamWorkers
import CodeSurvey.Proofs.Cancellation

/-!
# What a receiver is told

A receiver is told how many projects there are, then about each of them once, and then the result
of the scan, unless it is dropped before. Nothing but a refused update fires the token. So whatever
has been sent up to then is what a scan that is not cancelled sends, and a scan that is cancelled
has lost its receiver. A scan whose workers cannot be had tells nothing and says so in the end.

## Key results

- `executeFor_eq`: the updates of a scan, for every order of the projects and every receiver
- `StreamStep.sound`: what every step of a scan with a receiver preserves
- `StreamStep.fails`: a scan without workers does not tell anything
- `wellFounded_streamStep` / `exists_streamStep`: such a scan comes to its end
- `stream_protocol`: what a receiver gets, and what the scan returns
-/

namespace CodeSurvey

namespace Delivery

/-- What a receiver has taken of some updates that were sent. -/
def ofUpdates (receiver : Receiver) (updates : List ScanUpdate) : Delivery where
  taken := receiver.elim updates updates.take
  refused := receiver.any (· < updates.length)

theorem send_of_refused (receiver : Receiver) {delivery : Delivery}
    (h : delivery.refused = true) (update : ScanUpdate) :
    send receiver delivery update = delivery := by
  obtain ⟨taken, refused⟩ := delivery
  obtain rfl : refused = true := h
  rfl

/-- One more update is sent. -/
theorem send_ofUpdates (receiver : Receiver) (updates : List ScanUpdate) (update : ScanUpdate) :
    send receiver (ofUpdates receiver updates) update =
      ofUpdates receiver (updates ++ [update]) := by
  cases receiver with
  | none => rfl
  | some limit =>
    rcases Nat.lt_trichotomy limit updates.length with hlt | rfl | hgt
    · have hrefused : (ofUpdates (some limit) updates).refused = true := decide_eq_true hlt
      have hlonger : limit < (updates ++ [update]).length := by
        rw [List.length_append, List.length_singleton]
        omega
      rw [send_of_refused _ hrefused]
      simp only [ofUpdates, Option.elim_some, Option.any_some,
        List.take_append_of_le_length (Nat.le_of_lt hlt), hlt, hlonger]
    · simp [send, ofUpdates]
    · have htake : updates.take limit = updates := List.take_of_length_le (by omega)
      have hmore : (updates ++ [update]).take limit = updates ++ [update] :=
        List.take_of_length_le (by rw [List.length_append, List.length_singleton]; omega)
      have hnow : ¬ limit < updates.length := by omega
      have hfull : ¬ limit ≤ updates.length := by omega
      have hthen : ¬ limit < (updates ++ [update]).length := by
        rw [List.length_append, List.length_singleton]
        omega
      simp only [send, ofUpdates, Option.elim_some, Option.any_some, htake, hmore, hnow, hfull,
        hthen, decide_false, Bool.or_self, Bool.false_eq_true, if_false]

/-- The first update is sent. -/
theorem send_first (receiver : Receiver) (update : ScanUpdate) :
    send receiver {} update = ofUpdates receiver [update] := by
  have hnothing : ({} : Delivery) = ofUpdates receiver [] := by
    cases receiver <;> simp [ofUpdates]
  rw [hnothing, send_ofUpdates, List.nil_append]

/-- Once an update has been refused, more of them change nothing. -/
theorem ofUpdates_append_of_refused {receiver : Receiver} {updates : List ScanUpdate}
    (h : (ofUpdates receiver updates).refused = true) (more : List ScanUpdate) :
    ofUpdates receiver (updates ++ more) = ofUpdates receiver updates := by
  induction more using List.reverseRecOn with
  | nil => rw [List.append_nil]
  | append_singleton more update ih =>
    rw [← List.append_assoc, ← send_ofUpdates, ih, send_of_refused receiver h]

end Delivery

namespace Channel

/-- What is under way in a channel, and the loss that can still happen. -/
def load (channel : Channel) : Nat :=
  channel.queue.length + if channel.closed then 0 else 1

variable {channel next : Channel} {update : ScanUpdate} {refused : Bool}

theorem Send.load_le (h : channel.Send update next refused) : next.load ≤ channel.load + 1 := by
  cases h with
  | queue _ => simp [load]
  | refuse => exact Nat.le_succ _

/-- Sending does not wait where nothing is under way. -/
theorem exists_send (hroom : 0 < channel.capacity) (hqueue : channel.queue = [])
    (update : ScanUpdate) :
    ∃ next refused, channel.Send update next refused ∧ next.closed = channel.closed := by
  obtain ⟨capacity, queue, received, closed⟩ := channel
  obtain rfl : queue = [] := hqueue
  cases closed with
  | true => exact ⟨_, _, .refuse, rfl⟩
  | false => exact ⟨_, _, .queue hroom, rfl⟩

end Channel

namespace Scanner

variable (scanner : Scanner)

/-- The updates of a scan with a result that looks at its projects in some order. -/
def updates (result : ScanResult) (order : List Detected) : List ScanUpdate :=
  .projectsDetected scanner.detected.length ::
    (order.map (scanner.scannedUpdate .idle) ++ [.complete result])

/-- Who fires the token does not matter for the workers. -/
theorem poolFault?_undisturbed : scanner.undisturbed.poolFault? = scanner.poolFault? := rfl

/-! ## Projects in any order -/

/-- The projects at some positions. -/
def projectsAt (order : List Nat) : List Detected :=
  order.filterMap fun position => scanner.detected[position]?

theorem projectsAt_perm {order : List Nat}
    (h : order.Perm (List.range scanner.detected.length)) :
    (scanner.projectsAt order).Perm scanner.detected := by
  have hall : scanner.projectsAt (List.range scanner.detected.length) = scanner.detected :=
    List.filterMap_getElem?_range scanner.detected
  exact hall ▸ h.filterMap _

/-- What is known of the projects after those at some positions have been looked at: the updates
about them have been sent, and unless one was refused, they have been looked at completely. -/
structure Finished (receiver : Receiver) (order : List Nat) (progress : StreamProgress) : Prop where
  delivery : progress.delivery = Delivery.ofUpdates receiver
    (.projectsDetected scanner.detected.length ::
      (scanner.projectsAt order).map (scanner.scannedUpdate .idle))
  finished : progress.delivery.refused = false → progress.finished =
    ((scanner.projectsAt order).map fun project =>
      (project.index, scanner.scanProject .idle project)).reverse

/-- Looking at one more project. -/
theorem Finished.finishProject {scanner : Scanner} {receiver : Receiver} {order : List Nat}
    {progress : StreamProgress} (h : scanner.Finished receiver order progress) (position : Nat) :
    scanner.Finished receiver (order ++ [position])
      (scanner.finishProject receiver scanner.detected progress position) := by
  cases hposition : scanner.detected[position]? with
  | none =>
    have hsame : scanner.projectsAt (order ++ [position]) = scanner.projectsAt order := by
      simp [projectsAt, hposition]
    rw [Scanner.finishProject, hposition]
    exact ⟨hsame ▸ h.delivery, hsame ▸ h.finished⟩
  | some project =>
    have hmore : scanner.projectsAt (order ++ [position]) =
        scanner.projectsAt order ++ [project] := by
      simp [projectsAt, hposition]
    have hsent : progress.delivery.send receiver (scanner.scannedUpdate .idle project) =
        Delivery.ofUpdates receiver (.projectsDetected scanner.detected.length ::
          (scanner.projectsAt (order ++ [position])).map (scanner.scannedUpdate .idle)) := by
      rw [h.delivery, Delivery.send_ofUpdates, hmore, List.map_append, List.map_singleton,
        List.cons_append]
    rw [Scanner.finishProject, hposition]
    dsimp only
    -- a project is looked at completely, unless nobody listens any more
    cases hrefused : progress.delivery.refused with
    | true =>
      rw [Delivery.send_of_refused receiver hrefused] at hsent ⊢
      exact ⟨hsent, fun hopen => absurd (hrefused.symm.trans hopen) (by decide)⟩
    | false =>
      have htoken : progress.delivery.token = .idle := funext fun _ => hrefused
      rw [htoken]
      refine ⟨hsent, fun _ => ?_⟩
      rw [h.finished hrefused, hmore, List.map_append, List.map_singleton,
        List.reverse_concat, scanner.index_of_getElem? hposition]

/-- Looking at the projects at some positions. -/
theorem finished_foldl (receiver : Receiver) (order : List Nat) :
    scanner.Finished receiver order (order.foldl (scanner.finishProject receiver scanner.detected)
      ⟨Delivery.send receiver {} (.projectsDetected scanner.detected.length), []⟩) := by
  induction order using List.reverseRecOn with
  | nil => exact ⟨Delivery.send_first receiver _, fun _ => rfl⟩
  | append_singleton order position ih =>
    rw [List.foldl_append, List.foldl_cons, List.foldl_nil]
    exact ih.finishProject position

/-- Once all projects have been looked at completely, each is found by its position. -/
theorem scannedProjects_eq_filterMap {order : List Nat}
    (h : order.Perm (List.range scanner.detected.length)) :
    ((List.range scanner.detected.length).filterMap fun position =>
      ((scanner.projectsAt order).map fun project =>
        (project.index, scanner.scanProject .idle project)).reverse.lookup position) =
      scanner.scannedProjects := by
  have hmem : ∀ project, project ∈ scanner.projectsAt order ↔ project ∈ scanner.detected :=
    fun _ => (scanner.projectsAt_perm h).mem_iff
  have hfound : ∀ position ∈ List.range scanner.detected.length,
      ((scanner.projectsAt order).map fun project =>
        (project.index, scanner.scanProject .idle project)).reverse.lookup position =
      (scanner.detected[position]?).map (scanner.scanProject .idle) := by
    intro position hposition
    have hproject := List.getElem?_eq_getElem (List.mem_range.1 hposition)
    have hindex := scanner.index_of_getElem? hproject
    rw [hproject, Option.map_some]
    apply List.lookup_eq_some_of_forall
    · rw [List.mem_reverse, List.mem_map]
      exact ⟨_, (hmem _).2 (List.getElem_mem _), by rw [hindex]⟩
    · -- no other project has this position
      intro pair hpair hkey
      obtain ⟨other, hother, rfl⟩ := List.mem_map.1 (List.mem_reverse.1 hpair)
      have hsame := scanner.eq_of_index_eq ((hmem other).1 hother) (List.getElem_mem _)
        (hkey.trans hindex.symm)
      rw [hsame]
  rw [List.filterMap_congr hfound, ← List.map_filterMap, List.filterMap_getElem?_range]
  rfl

/-- What a scan sends: the updates in the order of the projects, as long as they are taken. -/
theorem executeFor_eq {order : List Nat} (h : order.Perm (List.range scanner.detected.length))
    (receiver : Receiver) :
    scanner.executeFor order receiver =
      (Delivery.ofUpdates receiver (scanner.updates scanner.outcome (scanner.projectsAt order)),
        .ok ()) := by
  obtain ⟨hdelivery, hfinished⟩ := scanner.finished_foldl receiver order
  rw [executeFor]
  generalize order.foldl _ _ = progress at *
  dsimp only
  -- the scan stops after the first update, or after those about the projects, or it is complete
  split
  · rename_i hrefused
    rw [Delivery.send_first] at hrefused ⊢
    rw [← Delivery.ofUpdates_append_of_refused hrefused]
    rfl
  · split
    · rename_i hrefused
      rw [hdelivery] at hrefused ⊢
      rw [updates, ← List.cons_append, Delivery.ofUpdates_append_of_refused hrefused]
    · rename_i hopen
      rw [hfinished (Bool.eq_false_iff.2 hopen), scanner.scannedProjects_eq_filterMap h,
        conclude_scannedProjects]
      dsimp only
      rw [hdelivery, Delivery.send_ofUpdates, List.cons_append]
      rfl

theorem stream_of_none (hpool : scanner.poolFault? = none) (order : List Nat)
    (receiver : Receiver) :
    scanner.stream order receiver = scanner.executeFor order receiver := by
  rw [stream, hpool]

/-- Without its workers a scan sends nothing. -/
theorem stream_of_some {fault : ScanError} (hfault : scanner.poolFault? = some fault)
    (order : List Nat) (receiver : Receiver) :
    scanner.stream order receiver = ({}, .error fault) := by
  rw [stream, hfault]

/-! ## Runs of the workers -/

/-- What has been sent, as long as nothing has been refused. -/
def sent (state : StreamState) (told : List Detected) : List ScanUpdate :=
  (if state.announced then [.projectsDetected scanner.detected.length] else []) ++
    (told.map (scanner.scannedUpdate .idle) ++
      if state.returned.isSome then [.complete scanner.outcome] else [])

/-- A scan whose receiver is there, and that has told it about some projects: the token has not
fired, and what has been sent is what a scan that is not cancelled sends. -/
structure Tells (state : StreamState) (told : List Detected) : Prop where
  notFired : state.scan.fired = false
  perm : (told ++ state.untold).Perm scanner.detected
  sent : state.channel.received ++ state.channel.queue = scanner.sent state told
  begun : state.announced = false → told = [] ∧ state.returned = none
  analyzed : state.announced = false ∨ state.scan.stage = .detecting ∨
    state.scan.stage.IsAnalyzing ∨ state.untold = []
  ended : state.returned.isSome = true → state.untold = []

/-- What a receiver has got that has been dropped: a part of what a scan that is not cancelled
sends, for some order of the projects, and nothing more is under way. -/
def Told (channel : Channel) : Prop :=
  channel.queue = [] ∧ ∃ order : List Detected, order.Perm scanner.detected ∧
    channel.received <+: scanner.updates scanner.outcome order

/-- What holds of a scan with a receiver at every moment, if it has its workers. -/
structure StreamSound (state : StreamState) : Prop where
  scan : scanner.undisturbed.Sound state.scan
  room : 0 < state.channel.capacity
  begun : state.announced = false → state.scan.stage = .starting ∨ state.scan.stage = .detecting
  returned : ∀ answer, state.returned = some answer → answer = .ok ()
  tells : state.channel.closed = false → ∃ told, scanner.Tells state told
  told : state.channel.closed = true → scanner.Told state.channel

theorem streamSound_start {capacity : Nat} (h : 0 < capacity) :
    scanner.StreamSound (scanner.streamStart capacity) where
  scan := scanner.undisturbed.sound_start
  room := h
  begun _ := .inl rfl
  returned _ hanswer := nomatch hanswer
  tells _ := ⟨[], {
    notFired := rfl
    perm := .refl _
    sent := rfl
    begun := fun _ => ⟨rfl, rfl⟩
    analyzed := .inl rfl
    ended := fun hsome => nomatch hsome }⟩
  told hclosed := nomatch hclosed

variable {scanner}

/-- What has been sent is a part of what a scan that is not cancelled sends. -/
theorem Tells.sent_isPrefix {state : StreamState} {told : List Detected}
    (h : scanner.Tells state told) :
    scanner.sent state told <+: scanner.updates scanner.outcome (told ++ state.untold) := by
  rw [Scanner.sent, updates]
  cases hannounced : state.announced with
  | false =>
    obtain ⟨rfl, hreturned⟩ := h.begun hannounced
    simp [hreturned]
  | true =>
    rw [if_pos rfl, List.singleton_append, List.cons_prefix_cons, List.map_append]
    refine ⟨rfl, ?_⟩
    cases hreturned : state.returned.isSome with
    | false =>
      rw [if_neg Bool.false_ne_true, List.append_nil, List.append_assoc]
      exact List.prefix_append _ _
    | true =>
      rw [h.ended hreturned, List.map_nil, List.append_nil]
      exact List.prefix_refl _

/-- A receiver has got a part of what a scan that is not cancelled sends. -/
theorem StreamSound.received_isPrefix {state : StreamState} (h : scanner.StreamSound state) :
    ∃ order : List Detected, order.Perm scanner.detected ∧
      state.channel.received <+: scanner.updates scanner.outcome order := by
  cases hclosed : state.channel.closed with
  | true => exact (h.told hclosed).2
  | false =>
    obtain ⟨told, htells⟩ := h.tells hclosed
    have hsent := htells.sent_isPrefix
    rw [← htells.sent] at hsent
    exact ⟨_, htells.perm, (List.prefix_append _ _).trans hsent⟩

/-- A refused update may fire the token. -/
theorem sound_or {fired : Bool} {stats : Stats} {stage : ScanStage}
    (h : scanner.Sound ⟨fired, stats, stage⟩) (refused : Bool) :
    scanner.Sound ⟨fired || refused, stats, stage⟩ := by
  cases fired with
  | true => exact h
  | false =>
    cases refused with
    | true => exact sound_fire h
    | false => exact h

/-- A scan that has its workers begins by the detection of projects. -/
theorem Step.stage_of_starting (hpool : scanner.poolFault? = none) {fired : Bool} {stats : Stats}
    {next : ScanState} (hstep : scanner.Step ⟨fired, stats, .starting⟩ next) :
    next.stage = .starting ∨ next.stage = .detecting := by
  cases hstep with
  | fire => exact .inl rfl
  | refuse hfault => exact nomatch hpool.symm.trans hfault
  | start _ => exact .inr rfl

/-- A scan that has not been cancelled goes on with its projects after their detection. -/
theorem Step.isAnalyzing_of_detecting {fired : Bool} {stats : Stats} {next : ScanState}
    (hstep : scanner.Step ⟨fired, stats, .detecting⟩ next) (hfired : next.fired = false) :
    next.stage.IsAnalyzing := by
  cases hstep with
  | fire => exact nomatch hfired
  | stopDetecting => exact nomatch hfired
  | detect => trivial

/-- While the receiver is there no file is left out, so the update about a project is that of a scan
that is not cancelled. -/
theorem scannedUpdate_ofDropped {stats : Stats} {files : Pool FileTask} {unasked : List Detected}
    (h : scanner.undisturbed.Sound ⟨false, stats, .analyzing files unasked⟩) (project : Detected) :
    scanner.scannedUpdate (.ofDropped files.dropped) project =
      scanner.scannedUpdate .idle project := by
  have hdropped : files.dropped = [] := Classical.byContradiction fun hne =>
    Bool.false_ne_true (h.1.fired_of_dropped hne)
  rw [scannedUpdate, scannedUpdate, hdropped, scanner.scanProject_of_not_dropped fun _ => rfl]

/-! ### Steps while the receiver is there -/

section Tells

variable {fired announced : Bool} {stats : Stats} {scan : ScanState} {channel : Channel}
variable {untold told : List Detected} {returned : Option (Except ScanError Unit)}
variable {capacity : Nat} {queue received : List ScanUpdate}

theorem Tells.announce
    (h : scanner.Tells ⟨⟨fired, stats, .detecting⟩, ⟨capacity, queue, received, false⟩, false,
      untold, returned⟩ told) :
    scanner.Tells ⟨⟨fired || false, stats, .detecting⟩,
      ⟨capacity, queue ++ [.projectsDetected scanner.detected.length], received, false⟩, true,
      untold, returned⟩ told := by
  obtain ⟨rfl, rfl⟩ := h.begun rfl
  have hsent := h.sent
  exact {
    notFired := (Bool.or_false fired).trans h.notFired
    perm := h.perm
    sent := by
      rw [← List.append_assoc, hsent]
      rfl
    begun := nofun
    analyzed := .inr (.inl rfl)
    ended := nofun }

theorem Tells.work {next : ScanState}
    (h : scanner.Tells ⟨scan, channel, announced, untold, returned⟩ told)
    (hstep : scanner.undisturbed.Step scan next) (hfired : next.fired = scan.fired)
    (hwait : scan.stage.IsAnalyzing → next.stage.IsAnalyzing ∨ untold = []) :
    scanner.Tells ⟨next, channel, announced, untold, returned⟩ told where
  notFired := hfired.trans h.notFired
  perm := h.perm
  sent := h.sent
  begun := h.begun
  analyzed := by
    rcases h.analyzed with hnot | hdetecting | hanalyzing | hnone
    · exact .inl hnot
    · obtain ⟨fired, stats, stage⟩ := scan
      obtain rfl : stage = .detecting := hdetecting
      exact .inr (.inr (.inl (hstep.isAnalyzing_of_detecting (hfired.trans h.notFired))))
    · exact .inr (.inr (hwait hanalyzing))
    · exact .inr (.inr (.inr hnone))
  ended := h.ended

theorem Tells.tell {files : Pool FileTask} {unasked rest : List Detected} {project : Detected}
    (h : scanner.Tells ⟨⟨fired, stats, .analyzing files unasked⟩,
      ⟨capacity, queue, received, false⟩, true, untold, returned⟩ told)
    (hscan : scanner.undisturbed.Sound ⟨fired, stats, .analyzing files unasked⟩)
    (hproject : untold.Perm (project :: rest)) :
    scanner.Tells ⟨⟨fired || false, stats, .analyzing files unasked⟩,
      ⟨capacity, queue ++ [scanner.scannedUpdate (.ofDropped files.dropped) project], received,
        false⟩, true, rest, returned⟩ (told ++ [project]) := by
  obtain rfl : fired = false := h.notFired
  -- the scan has not returned, as there is a project that it has not told about
  have hnone : returned = none := by
    cases returned with
    | none => rfl
    | some answer =>
      obtain rfl : untold = [] := h.ended rfl
      exact absurd hproject (List.not_perm_nil_cons _ _)
  subst hnone
  have hsent := h.sent
  exact {
    notFired := rfl
    perm := by
      rw [List.append_assoc]
      exact (hproject.symm.append_left told).trans h.perm
    sent := by
      rw [← List.append_assoc, hsent, scannedUpdate_ofDropped hscan]
      simp [Scanner.sent]
    begun := nofun
    analyzed := .inr (.inr (.inl trivial))
    ended := nofun }

theorem Tells.complete {result : ScanResult}
    (h : scanner.Tells ⟨⟨fired, stats, .ended (.ok result)⟩, ⟨capacity, queue, received, false⟩,
      true, untold, none⟩ told)
    (hscan : scanner.undisturbed.Sound ⟨fired, stats, .ended (.ok result)⟩) :
    scanner.Tells ⟨⟨fired, stats, .ended (.ok result)⟩,
      ⟨capacity, queue ++ [.complete result], received, false⟩, true, untold, some (.ok ())⟩
      told := by
  have hresult : result = scanner.outcome := by
    rcases hscan with ⟨hcancelled, -⟩ | ⟨hok, -⟩
    · exact nomatch hcancelled
    · exact Except.ok.inj hok
  have hnone : untold = [] := by
    rcases h.analyzed with hnot | hdetecting | hanalyzing | hnone
    · exact nomatch hnot
    · exact nomatch hdetecting
    · exact hanalyzing.elim
    · exact hnone
  have hsent := h.sent
  exact {
    notFired := h.notFired
    perm := h.perm
    sent := by
      rw [← List.append_assoc, hsent, hresult]
      simp [Scanner.sent]
    begun := nofun
    analyzed := .inr (.inr (.inr hnone))
    ended := fun _ => hnone }

theorem Tells.receive {update : ScanUpdate}
    (h : scanner.Tells ⟨scan, ⟨capacity, update :: queue, received, false⟩, announced, untold,
      returned⟩ told) :
    scanner.Tells ⟨scan, ⟨capacity, queue, received ++ [update], false⟩, announced, untold,
      returned⟩ told :=
  have hsent := h.sent
  { h with sent := by rw [List.append_assoc]; exact hsent }

end Tells

/-- What has been sent about projects has been announced. -/
theorem StreamSound.announced_eq {state : StreamState} (h : scanner.StreamSound state)
    (hstarting : state.scan.stage ≠ .starting) (hdetecting : state.scan.stage ≠ .detecting) :
    state.announced = true :=
  Bool.eq_true_of_not_eq_false fun hnot => (h.begun hnot).elim hstarting hdetecting

/-- Only a receiver that has been dropped makes a scan end with an error. -/
theorem StreamSound.closed_of_error {state : StreamState} (h : scanner.StreamSound state)
    {error : ScanError} (hstage : state.scan.stage = .ended (.error error)) :
    error = .cancelled ∧ state.channel.closed = true := by
  obtain ⟨⟨fired, stats, stage⟩, channel, announced, untold, returned⟩ := state
  obtain rfl : stage = .ended (.error error) := hstage
  rcases h.scan with ⟨hcancelled, rfl⟩ | ⟨hok, -⟩
  · refine ⟨Except.error.inj hcancelled, Bool.eq_true_of_not_eq_false fun hopen => ?_⟩
    obtain ⟨told, htells⟩ := h.tells hopen
    exact nomatch htells.notFired
  · exact nomatch hok

/-- Every step of a scan with a receiver keeps it sound, if it has its workers. -/
theorem StreamStep.sound (hpool : scanner.poolFault? = none) {state next : StreamState}
    (hstep : scanner.StreamStep state next) (h : scanner.StreamSound state) :
    scanner.StreamSound next := by
  rw [← poolFault?_undisturbed] at hpool
  cases hstep with
  | announce hsend =>
    cases hsend with
    | refuse => exact ⟨sound_or h.scan true, h.room, nofun, h.returned, nofun, h.told⟩
    | queue _ =>
      obtain ⟨told, htells⟩ := h.tells rfl
      exact ⟨sound_or h.scan false, h.room, nofun, h.returned,
        fun _ => ⟨told, htells.announce⟩, nofun⟩
  | @work scan next _ _ _ _ hstep hfired hsaid hwait =>
    refine ⟨hstep.sound hpool h.scan, h.room, fun hnot => ?_, h.returned, fun hopen => ?_, h.told⟩
    · -- the number of projects is sent before they have been looked at
      rcases h.begun hnot with hstarting | hdetecting
      · obtain ⟨fired, stats, stage⟩ := scan
        obtain rfl : stage = .starting := hstarting
        exact hstep.stage_of_starting hpool
      · exact nomatch hnot.symm.trans (hsaid hdetecting)
    · obtain ⟨told, htells⟩ := h.tells hopen
      exact ⟨told, htells.work hstep hfired hwait⟩
  | tell hproject hfiles hasked hsend =>
    obtain rfl := h.announced_eq nofun nofun
    cases hsend with
    | refuse => exact ⟨sound_or h.scan true, h.room, nofun, h.returned, nofun, h.told⟩
    | queue _ =>
      obtain ⟨told, htells⟩ := h.tells rfl
      exact ⟨sound_or h.scan false, h.room, nofun, h.returned,
        fun _ => ⟨_, htells.tell h.scan hproject⟩, nofun⟩
  | complete hsend =>
    obtain rfl := h.announced_eq nofun nofun
    have hok : ∀ answer : Except ScanError Unit, some (.ok ()) = some answer → answer = .ok () :=
      fun answer hanswer => (Option.some.inj hanswer).symm
    cases hsend with
    | refuse => exact ⟨h.scan, h.room, nofun, hok, nofun, h.told⟩
    | queue _ =>
      obtain ⟨told, htells⟩ := h.tells rfl
      exact ⟨h.scan, h.room, nofun, hok, fun _ => ⟨told, htells.complete h.scan⟩, nofun⟩
  | stop =>
    obtain ⟨rfl, hclosed⟩ := h.closed_of_error rfl
    refine ⟨h.scan, h.room, h.begun, fun answer hanswer => ?_, fun hopen => ?_, h.told⟩
    · rw [← Option.some.inj hanswer, hclosed]
      rfl
    · exact absurd (hclosed.symm.trans hopen) (by decide)
  | receive =>
    obtain ⟨told, htells⟩ := h.tells rfl
    exact ⟨h.scan, h.room, h.begun, h.returned, fun _ => ⟨told, htells.receive⟩, nofun⟩
  | drop =>
    exact ⟨h.scan, h.room, h.begun, h.returned, nofun, fun _ => ⟨rfl, h.received_isPrefix⟩⟩

theorem streamSound_of_reachable (hpool : scanner.poolFault? = none) {capacity : Nat}
    (hroom : 0 < capacity) {state : StreamState}
    (h : Relation.ReflTransGen scanner.StreamStep (scanner.streamStart capacity) state) :
    scanner.StreamSound state := by
  induction h with
  | refl => exact scanner.streamSound_start hroom
  | tail _ hstep ih => exact hstep.sound hpool ih

/-! ### Without workers -/

theorem ne_cancelled_of_poolFault? {fault : ScanError} (h : scanner.poolFault? = some fault) :
    fault ≠ .cancelled := by
  obtain ⟨detail, -, rfl⟩ := Option.map_eq_some_iff.1 h
  exact nofun

/-- What holds at every moment of a scan with a receiver whose workers cannot be had: nothing is
sent, and it returns why. -/
structure StreamFails (fault : ScanError) (state : StreamState) : Prop where
  stage : Fails fault state.scan.stage
  received : state.channel.received = []
  queue : state.channel.queue = []
  returned : ∀ answer, state.returned = some answer → answer = .error fault

/-- Without its workers a scan with a receiver does not tell anything. -/
theorem StreamStep.fails {fault : ScanError} (hfault : scanner.poolFault? = some fault)
    {state next : StreamState} (hstep : scanner.StreamStep state next)
    (h : StreamFails fault state) : StreamFails fault next := by
  -- what is sent is sent after the start, so the scan can only fail and return
  cases hstep with
  | announce _ => exact nomatch h.stage
  | work hstep _ _ _ =>
    rw [← poolFault?_undisturbed] at hfault
    exact ⟨hstep.fails hfault h.stage, h.received, h.queue, h.returned⟩
  | tell _ _ _ _ => exact nomatch h.stage
  | complete _ => exact nomatch h.stage
  | stop =>
    refine ⟨h.stage, h.received, h.queue, fun answer hanswer => ?_⟩
    obtain hended | hended := h.stage
    · exact nomatch hended
    · obtain rfl := Except.error.inj (ScanStage.ended.inj hended)
      rw [← Option.some.inj hanswer, answerTo, if_neg]
      exact fun hcancelled => ne_cancelled_of_poolFault? hfault hcancelled.1
  | receive => exact nomatch h.queue
  | drop => exact ⟨h.stage, h.received, rfl, h.returned⟩

theorem streamFails_of_reachable {fault : ScanError} (hfault : scanner.poolFault? = some fault)
    {capacity : Nat} {state : StreamState}
    (h : Relation.ReflTransGen scanner.StreamStep (scanner.streamStart capacity) state) :
    StreamFails fault state := by
  induction h with
  | refl => exact ⟨.inl rfl, rfl, rfl, nofun⟩
  | tail _ hstep ih => exact hstep.fails hfault ih

/-- Without its workers a scan returns. -/
theorem StreamFails.ended_or_exists_step {fault : ScanError} {state : StreamState}
    (h : StreamFails fault state) :
    (state.returned.isSome = true ∧ state.channel.queue = []) ∨
      ∃ next, scanner.StreamStep state next ∧ next.channel.closed = state.channel.closed := by
  obtain ⟨⟨fired, stats, stage⟩, channel, announced, untold, returned⟩ := state
  obtain rfl | rfl : stage = .starting ∨ stage = .ended (.error fault) := h.stage
  · obtain ⟨next, hstep, hfired⟩ := scanner.undisturbed.exists_step_of_starting fired stats
    exact .inr ⟨_, .work hstep hfired nofun False.elim, rfl⟩
  · cases returned with
    | some answer => exact .inl ⟨rfl, h.queue⟩
    | none => exact .inr ⟨_, .stop, rfl⟩

/-! ### Ends of a run -/

/-- What is left to be sent, received and lost. An update that is sent is then received. -/
def pending (state : StreamState) : Nat :=
  2 * (state.untold.length + (if state.announced then 0 else 1) +
    if state.returned.isSome then 0 else 1) + state.channel.load

/-- What is left of a scan with a receiver: that of the scan, and of what is said about it. -/
def streamRemaining (state : StreamState) : (Nat ×ₗ Nat) ×ₗ Nat :=
  toLex (remaining state.scan, pending state)

/-- A token that has fired is nothing that is left to be done. -/
theorem remaining_or_le (fired refused : Bool) (stats : Stats) (stage : ScanStage) :
    remaining ⟨fired || refused, stats, stage⟩ ≤ remaining ⟨fired, stats, stage⟩ := by
  rw [remaining, remaining, Prod.Lex.toLex_le_toLex]
  refine .inr ⟨rfl, ?_⟩
  cases fired with
  | true => exact Nat.le_refl _
  | false => cases refused <;> simp

theorem StreamStep.streamRemaining_lt {state next : StreamState}
    (hstep : scanner.StreamStep state next) : streamRemaining next < streamRemaining state := by
  -- the scan goes on, or less is left to be said about it
  suffices remaining next.scan < remaining state.scan ∨
      (remaining next.scan ≤ remaining state.scan ∧ pending next < pending state) by
    rw [streamRemaining, streamRemaining, Prod.Lex.toLex_lt_toLex]
    rcases this with hlt | ⟨hle, hlt⟩
    · exact .inl hlt
    · exact (lt_or_eq_of_le hle).imp_right fun heq => ⟨heq, hlt⟩
  cases hstep with
  | announce hsend =>
    have hload := hsend.load_le
    exact .inr ⟨remaining_or_le .., by simp [pending]; omega⟩
  | work hstep _ _ _ => exact .inl hstep.remaining_lt
  | tell hproject _ _ hsend =>
    have hlength := hproject.length_eq
    have hload := hsend.load_le
    rw [List.length_cons] at hlength
    exact .inr ⟨remaining_or_le .., by simp only [pending]; omega⟩
  | complete hsend =>
    have hload := hsend.load_le
    exact .inr ⟨le_refl _, by simp [pending]; omega⟩
  | stop => exact .inr ⟨le_refl _, by simp [pending]⟩
  | receive => exact .inr ⟨le_refl _, by simp [pending, Channel.load]⟩
  | drop => exact .inr ⟨le_refl _, by simp [pending, Channel.load]⟩

variable (scanner) in
/-- No scan with a receiver goes on for ever. -/
theorem wellFounded_streamStep : WellFounded fun next state => scanner.StreamStep state next :=
  Subrelation.wf (fun hstep => StreamStep.streamRemaining_lt hstep)
    (InvImage.wf streamRemaining wellFounded_lt)

/-- A scan leaves its files only when nothing is left to be done about them. -/
theorem Step.idle_of_leaves {fired : Bool} {stats : Stats} {files : Pool FileTask}
    {unasked : List Detected} {next : ScanState}
    (hstep : scanner.Step ⟨fired, stats, .analyzing files unasked⟩ next)
    (hleaves : ¬ next.stage.IsAnalyzing) : files.IsIdle ∧ unasked = [] := by
  cases hstep with
  | stopAnalyzing hidle => exact ⟨hidle, rfl⟩
  | analyze hidle _ _ => exact ⟨hidle, rfl⟩
  | fire => exact absurd trivial hleaves
  | file _ => exact absurd trivial hleaves
  | answer _ => exact absurd trivial hleaves

/-- Where nothing is under way, a scan has returned or goes on. -/
theorem StreamSound.returned_or_exists_step {state : StreamState} (h : scanner.StreamSound state)
    (hqueue : state.channel.queue = []) :
    state.returned.isSome = true ∨ ∃ next, scanner.StreamStep state next ∧
      next.channel.closed = state.channel.closed := by
  have hsend := Channel.exists_send h.room hqueue
  have hquiet : scanner.undisturbed.IsQuiet := fun _ _ => rfl
  have hscan := exists_step h.scan
  obtain ⟨⟨fired, stats, stage⟩, channel, announced, untold, returned⟩ := state
  dsimp only at *
  cases stage with
  | starting =>
    obtain ⟨next, hstep, hfired⟩ := scanner.undisturbed.exists_step_of_starting fired stats
    exact .inr ⟨_, .work hstep hfired nofun False.elim, rfl⟩
  | detecting =>
    cases announced with
    | false =>
      obtain ⟨next, refused, hnext, hclosed⟩ := hsend (.projectsDetected scanner.detected.length)
      exact .inr ⟨_, .announce hnext, hclosed⟩
    | true =>
      rcases hscan with ⟨result, hended⟩ | ⟨next, hstep, hfired⟩
      · exact nomatch hended
      · exact .inr ⟨_, .work hstep (hfired hquiet) (fun _ => rfl) False.elim, rfl⟩
  | analyzing files unasked =>
    obtain rfl := h.announced_eq nofun nofun
    rcases hscan with ⟨result, hended⟩ | ⟨next, hstep, hfired⟩
    · exact nomatch hended
    · by_cases hwait : next.stage.IsAnalyzing ∨ untold = []
      · exact .inr ⟨_, .work hstep (hfired hquiet) nofun fun _ => hwait, rfl⟩
      · -- the scan would leave its files, but has not told about all projects
        obtain ⟨hleaves, huntold⟩ := not_or.1 hwait
        obtain ⟨⟨hwaiting, hrunning⟩, rfl⟩ := hstep.idle_of_leaves hleaves
        obtain ⟨project, rest, rfl⟩ := List.exists_cons_of_ne_nil huntold
        obtain ⟨next, refused, hnext, hclosed⟩ :=
          hsend (scanner.scannedUpdate (.ofDropped files.dropped) project)
        exact .inr ⟨_, .tell (.refl _) (by simp [hwaiting, hrunning]) List.not_mem_nil hnext,
          hclosed⟩
  | hashing scanned positions index =>
    obtain rfl := h.announced_eq nofun nofun
    rcases hscan with ⟨result, hended⟩ | ⟨next, hstep, hfired⟩
    · exact nomatch hended
    · exact .inr ⟨_, .work hstep (hfired hquiet) nofun False.elim, rfl⟩
  | ended result =>
    cases returned with
    | some answer => exact .inl rfl
    | none =>
      cases result with
      | error error => exact .inr ⟨_, .stop, rfl⟩
      | ok result =>
        obtain ⟨next, refused, hnext, hclosed⟩ := hsend (.complete result)
        exact .inr ⟨_, .complete hnext, hclosed⟩

/-- A scan with a receiver does not get stuck: as long as it has not returned or the receiver has
not got all that is under way, it goes on without the receiver being dropped. -/
theorem StreamSound.ended_or_exists_step {state : StreamState} (h : scanner.StreamSound state) :
    (state.returned.isSome = true ∧ state.channel.queue = []) ∨
      ∃ next, scanner.StreamStep state next ∧
        next.channel.closed = state.channel.closed := by
  cases hqueue : state.channel.queue with
  | nil =>
    exact (h.returned_or_exists_step hqueue).imp_left fun hreturned => ⟨hreturned, rfl⟩
  | cons update rest =>
    cases hclosed : state.channel.closed with
    | true => exact absurd (hqueue.symm.trans (h.told hclosed).1) (List.cons_ne_nil _ _)
    | false =>
      obtain ⟨scan, ⟨capacity, queue, received, closed⟩, announced, untold, returned⟩ := state
      obtain rfl : queue = update :: rest := hqueue
      obtain rfl : closed = false := hclosed
      exact .inr ⟨_, .receive, rfl⟩

/-- A receiver that is there at the end has got everything. -/
theorem StreamSound.received_eq {state : StreamState} (h : scanner.StreamSound state)
    (hopen : state.channel.closed = false) (hreturned : state.returned.isSome = true)
    (hqueue : state.channel.queue = []) :
    ∃ order : List Detected, order.Perm scanner.detected ∧
      state.channel.received = scanner.updates scanner.outcome order := by
  obtain ⟨told, htells⟩ := h.tells hopen
  have hperm := htells.perm
  have hsent := htells.sent
  have hannounced : state.announced = true := Bool.eq_true_of_not_eq_false fun hnot => by
    simp [(htells.begun hnot).2] at hreturned
  rw [htells.ended hreturned, List.append_nil] at hperm
  rw [hqueue, List.append_nil, Scanner.sent, hannounced, hreturned, if_pos rfl, if_pos rfl] at hsent
  exact ⟨told, hperm, hsent⟩

/-- A receiver that has been dropped gets nothing any more. -/
theorem StreamStep.received_eq_of_closed {state next : StreamState}
    (hstep : scanner.StreamStep state next) (hclosed : state.channel.closed = true) :
    next.channel.received = state.channel.received ∧ next.channel.closed = true := by
  cases hstep with
  | announce hsend => cases hsend <;> exact ⟨rfl, hclosed⟩
  | tell _ _ _ hsend => cases hsend <;> exact ⟨rfl, hclosed⟩
  | complete hsend => cases hsend <;> exact ⟨rfl, hclosed⟩
  | work _ _ _ _ => exact ⟨rfl, hclosed⟩
  | stop => exact ⟨rfl, hclosed⟩
  | receive => exact nomatch hclosed
  | drop => exact nomatch hclosed

theorem received_eq_of_closed {state last : StreamState}
    (h : Relation.ReflTransGen scanner.StreamStep state last)
    (hclosed : state.channel.closed = true) :
    last.channel.received = state.channel.received ∧ last.channel.closed = true := by
  induction h with
  | refl => exact ⟨rfl, hclosed⟩
  | tail _ hstep ih =>
    obtain ⟨hreceived, hstays⟩ := hstep.received_eq_of_closed ih.2
    exact ⟨hreceived.trans ih.1, hstays⟩

/-- A receiver that is never dropped can get everything, if the scan has its workers. -/
theorem exists_delivered_run (hpool : scanner.poolFault? = none) {capacity : Nat}
    (hroom : 0 < capacity) {state : StreamState}
    (hrun : Relation.ReflTransGen scanner.StreamStep (scanner.streamStart capacity) state)
    (hopen : state.channel.closed = false) :
    ∃ last, Relation.ReflTransGen scanner.StreamStep state last ∧
      last.channel.closed = false ∧ last.returned.isSome = true ∧ last.channel.queue = [] := by
  induction state using scanner.wellFounded_streamStep.induction with
  | h state ih =>
    rcases (streamSound_of_reachable hpool hroom hrun).ended_or_exists_step with
      ⟨hreturned, hqueue⟩ | ⟨next, hstep, hclosed⟩
    · exact ⟨state, .refl, hopen, hreturned, hqueue⟩
    · obtain ⟨last, hlast, hended⟩ := ih next hstep (hrun.tail hstep) (hclosed.trans hopen)
      exact ⟨last, .head hstep hlast, hended⟩

variable (scanner)

/-- What a receiver has got in a run of the workers, it gets from `stream` for some order of the
projects if it is dropped in time. -/
theorem exists_stream_of_reachable {capacity : Nat} (hroom : 0 < capacity) {state : StreamState}
    (hrun : Relation.ReflTransGen scanner.StreamStep (scanner.streamStart capacity) state) :
    ∃ order receiver, order.Perm (List.range scanner.detected.length) ∧
      (scanner.stream order receiver).1.taken = state.channel.received := by
  cases hpool : scanner.poolFault? with
  | some fault =>
    refine ⟨_, none, .refl _, ?_⟩
    rw [scanner.stream_of_some hpool, (streamFails_of_reachable hpool hrun).received]
  | none =>
    obtain ⟨projects, hperm, hreceived⟩ :=
      (streamSound_of_reachable hpool hroom hrun).received_isPrefix
    have hindices : scanner.detected.map Detected.index = List.range scanner.detected.length := by
      have hpositions := congrArg (List.map Prod.snd) scanner.zipIdx_detected
      rw [List.zipIdx_map_snd, List.map_map] at hpositions
      rw [List.range_eq_range', hpositions]
      rfl
    have horder : (projects.map Detected.index).Perm (List.range scanner.detected.length) :=
      hindices ▸ hperm.map Detected.index
    have hprojects : scanner.projectsAt (projects.map Detected.index) = projects := by
      rw [projectsAt, List.filterMap_map]
      refine (List.filterMap_congr fun project hproject => ?_).trans List.filterMap_some
      exact scanner.getElem?_detected (hperm.subset hproject)
    refine ⟨_, some state.channel.received.length, horder, ?_⟩
    rw [scanner.stream_of_none hpool, scanner.executeFor_eq horder, hprojects]
    exact (List.prefix_iff_eq_take.1 hreceived).symm

/-! ## The protocol -/

/-- A scan with a receiver keeps to the protocol, whatever its workers and the receiver have done
up to now. -/
structure KeepsProtocol (result : ScanResult) (state : StreamState) : Prop where
  /-- The receiver has got the first of the updates, the projects being in some order. -/
  received : ∃ order : List Detected, order.Perm scanner.detected ∧
    state.channel.received <+: scanner.updates result order
  /-- It has got all of them if it is there when nothing is left to be done. -/
  complete : scanner.poolFault? = none → state.channel.closed = false →
    state.returned.isSome = true → state.channel.queue = [] →
    ∃ order : List Detected, order.Perm scanner.detected ∧
      state.channel.received = scanner.updates result order
  /-- It gets nothing any more once it has been dropped. -/
  dropped : state.channel.closed = true →
    ∀ last, Relation.ReflTransGen scanner.StreamStep state last →
      last.channel.received = state.channel.received
  /-- Nothing is sent if the workers cannot be had. -/
  failed : ∀ fault, scanner.poolFault? = some fault →
    state.channel.received = [] ∧ state.channel.queue = []
  /-- The scan returns no error but this one. -/
  returned : ∀ answer, state.returned = some answer → answer = scanner.withPool (.ok ())
  notCancelled : state.returned ≠ some (.error .cancelled)
  /-- Something is done without the receiver being dropped, until the scan has returned and nothing
  is under way. -/
  goesOn : (state.returned.isSome = true ∧ state.channel.queue = []) ∨
    ∃ next, scanner.StreamStep state next ∧ next.channel.closed = state.channel.closed

/-- A scan that has its workers keeps to the protocol. -/
theorem keepsProtocol_of_none (hpool : scanner.poolFault? = none) {capacity : Nat}
    (hroom : 0 < capacity) {state : StreamState}
    (hrun : Relation.ReflTransGen scanner.StreamStep (scanner.streamStart capacity) state) :
    scanner.KeepsProtocol scanner.outcome state where
  received := (streamSound_of_reachable hpool hroom hrun).received_isPrefix
  complete _ := (streamSound_of_reachable hpool hroom hrun).received_eq
  dropped hclosed _ hlast := (received_eq_of_closed hlast hclosed).1
  failed _ hfault := nomatch hpool.symm.trans hfault
  returned answer hanswer := by
    rw [scanner.withPool_of_none hpool]
    exact (streamSound_of_reachable hpool hroom hrun).returned answer hanswer
  notCancelled hcancelled :=
    nomatch (streamSound_of_reachable hpool hroom hrun).returned _ hcancelled
  goesOn := (streamSound_of_reachable hpool hroom hrun).ended_or_exists_step

/-- So does a scan whose workers cannot be had. -/
theorem keepsProtocol_of_some {fault : ScanError} (hfault : scanner.poolFault? = some fault)
    {capacity : Nat} {state : StreamState}
    (hrun : Relation.ReflTransGen scanner.StreamStep (scanner.streamStart capacity) state) :
    scanner.KeepsProtocol scanner.outcome state where
  received := by
    rw [(streamFails_of_reachable hfault hrun).received]
    exact ⟨_, .refl _, List.nil_prefix⟩
  complete hpool := nomatch hpool.symm.trans hfault
  dropped hclosed _ hlast := (received_eq_of_closed hlast hclosed).1
  failed _ _ := ⟨(streamFails_of_reachable hfault hrun).received,
    (streamFails_of_reachable hfault hrun).queue⟩
  returned answer hanswer := by
    rw [scanner.withPool_of_some hfault]
    exact (streamFails_of_reachable hfault hrun).returned answer hanswer
  notCancelled hcancelled := ne_cancelled_of_poolFault? hfault
    (Except.error.inj ((streamFails_of_reachable hfault hrun).returned _ hcancelled)).symm
  goesOn := (streamFails_of_reachable hfault hrun).ended_or_exists_step

end Scanner

end CodeSurvey
