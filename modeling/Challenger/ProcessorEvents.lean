import Challenger.ProcessorTasks

/-! # From the channel to the judgement

A processor takes the events from its channel one at a time and validates an
`OpPoked` to its end before it takes the next event. So the logs put on a
channel are, in this order: those that were judged, the one being validated
and those still queued (`run_fifo`). A judgement that is an error is the last
of its log, as nothing puts the log back (`not_judged_again`). -/
namespace Challenger
open Lib

namespace World
variable {ι : Type} [DecidableEq ι] {w w' : World ι} {i : ι} {l : WorldLabel ι}
  {ls ls' : List (WorldLabel ι)} {p p' : ScribeEventsProcessor ι} {log : Log OpPoked}

/-! ## What a label is about -/

/-- The processor a label is about. -/
def processorOf : WorldLabel ι → Option ι
  | .send i _ => some i
  | .close i => some i
  | .period i _ => some i
  | .recv i _ => some i
  | .recvNone i => some i
  | .judged i _ _ => some i
  | .stop i => some i
  | .shutdown => none
  | .elapse i _ => some i
  | .wake i _ _ _ => some i

/-- A step leaves all other processors as they were. -/
theorem step_frame (h : w.step l = some w') (hi : processorOf l ≠ some i) :
    w'.processors i = w.processors i := by
  cases step_cases h with
  | send _ => exact setProcessor_of_ne _ fun he => hi (he ▸ rfl)
  | close => exact setProcessor_of_ne _ fun he => hi (he ▸ rfl)
  | periodOk _ => exact setProcessor_of_ne _ fun he => hi (he ▸ rfl)
  | periodError _ => exact setProcessor_of_ne _ fun he => hi (he ▸ rfl)
  | @recv j event rest _ _ =>
    have hne : i ≠ j := fun he => hi (he ▸ rfl)
    cases event with
    | opPoked log =>
      rcases handleEvent_opPoked (w.setProcessor j { w.processors j with rx := rest }) j log with
        hw | hw <;> rw [hw]
      · exact setProcessor_of_ne _ hne
      · rw [setProcessor_of_ne _ hne, setProcessor_of_ne _ hne]
    | opPokeChallengedSuccessfully _ =>
      exact (cancelChallenge_of_ne hne).trans (setProcessor_of_ne _ hne)
  | recvNone _ _ _ => rfl
  | @judged j log r _ =>
    have hne : i ≠ j := fun he => hi (he ▸ rfl)
    match r with
    | .ok true => exact (spawnChallenge_of_ne log hne).trans (setProcessor_of_ne _ hne)
    | .ok false => exact setProcessor_of_ne _ hne
    | .error _ => exact setProcessor_of_ne _ hne
  | stop _ _ => exact setProcessor_of_ne _ fun he => hi (he ▸ rfl)
  | shutdown => rfl
  | elapse _ _ => exact setProcessor_of_ne _ fun he => hi (he ▸ rfl)
  | wake _ _ => exact setProcessor_of_ne _ fun he => hi (he ▸ rfl)

theorem handleEvent_poked_self (h : (w.processors i).challengePeriod ≠ none) :
    (w.handleEvent i (.opPoked log)).processors i =
      { w.processors i with phase := .validating log } := by
  unfold handleEvent
  cases hc : (w.processors i).challengePeriod with
  | none => exact absurd hc h
  | some _ => exact setProcessor_self _

/-- A judgement ends the validation, and at most spawns. -/
theorem handleJudged_self (w : World ι) (i : ι) (log : Log OpPoked)
    (r : Except ContractError Bool) :
    ∃ token tasks, (w.handleJudged i log r).processors i = { w.processors i with
      phase := .idle, challengeProcessCancelationToken := token, tasks := tasks } := by
  match r with
  | .ok true =>
    rw [handleJudged, spawnChallenge_processor, setProcessor_self]
    exact ⟨_, _, rfl⟩
  | .ok false => rw [handleJudged, setProcessor_self]; exact ⟨_, _, rfl⟩
  | .error _ => rw [handleJudged, setProcessor_self]; exact ⟨_, _, rfl⟩

/-- All a step can do to the processor it is about. -/
inductive ProcessorCases (w : World ι) (i : ι) : WorldLabel ι → ScribeEventsProcessor ι → Prop where
  | send {event} : ProcessorCases w i (.send i event)
      { w.processors i with rx := (w.processors i).rx ++ [event] }
  | close : ProcessorCases w i (.close i) { w.processors i with closed := true }
  | periodOk {period : UInt16} (h : (w.processors i).phase = .starting) :
      ProcessorCases w i (.period i (.ok period))
        { w.processors i with challengePeriod := some period.toUInt64, phase := .idle }
  | periodError {e} (h : (w.processors i).phase = .starting) :
      ProcessorCases w i (.period i (.error e))
        { w.processors i with phase := .stopped (.error (.contractError e)) }
  | validate {log rest} (h : (w.processors i).phase = .idle)
      (hrx : (w.processors i).rx = .opPoked log :: rest) :
      ProcessorCases w i (.recv i (.opPoked log))
        { w.processors i with rx := rest, phase := .validating log }
  | ignore {log rest} (h : (w.processors i).phase = .idle)
      (hrx : (w.processors i).rx = .opPoked log :: rest)
      (hp : (w.processors i).challengePeriod = none) :
      ProcessorCases w i (.recv i (.opPoked log)) { w.processors i with rx := rest }
  | cancel {log rest} (h : (w.processors i).phase = .idle)
      (hrx : (w.processors i).rx = .opPokeChallengedSuccessfully log :: rest) :
      ProcessorCases w i (.recv i (.opPokeChallengedSuccessfully log))
        { w.processors i with rx := rest, challengeProcessCancelationToken := none }
  | recvNone (h : (w.processors i).phase = .idle) :
      ProcessorCases w i (.recvNone i) (w.processors i)
  | judged {log r token tasks} (h : (w.processors i).phase = .validating log) :
      ProcessorCases w i (.judged i log r) { w.processors i with
        phase := .idle, challengeProcessCancelationToken := token, tasks := tasks }
  | stop (h : (w.processors i).phase = .idle) (hc : Token.Cancelled w.cancelled Token.root) :
      ProcessorCases w i (.stop i) { w.processors i with phase := .stopped (.ok ()) }
  | elapse {k tasks} : ProcessorCases w i (.elapse i k) { w.processors i with tasks := tasks }
  | wake {k cancelledFirst returned tasks} :
      ProcessorCases w i (.wake i k cancelledFirst returned) { w.processors i with tasks := tasks }

theorem step_processor (h : w.step l = some w') (hi : processorOf l = some i) :
    ProcessorCases w i l (w'.processors i) := by
  cases step_cases h with
  | send _ => cases hi; rw [setProcessor_self]; exact .send
  | close => cases hi; rw [setProcessor_self]; exact .close
  | periodOk hp => cases hi; rw [setProcessor_self]; exact .periodOk hp
  | periodError hp => cases hi; rw [setProcessor_self]; exact .periodError hp
  | @recv _ event rest hp hrx =>
    cases hi
    cases event with
    | opPoked log =>
      cases hc : (w.processors i).challengePeriod with
      | none =>
        have hsame : (w.setProcessor i { w.processors i with rx := rest }).handleEvent i
            (.opPoked log) = w.setProcessor i { w.processors i with rx := rest } := by
          unfold handleEvent
          rw [setProcessor_self, hc]
        rw [hsame, setProcessor_self]
        exact .ignore hp hrx hc
      | some _ =>
        rw [handleEvent_poked_self (by rw [setProcessor_self, hc]; exact Option.some_ne_none _),
          setProcessor_self]
        exact .validate hp hrx
    | opPokeChallengedSuccessfully _ =>
      rw [handleEvent, cancelChallenge_processor, setProcessor_self]
      exact .cancel hp hrx
  | recvNone hp _ _ => cases hi; exact .recvNone hp
  | @judged _ log r hp =>
    cases hi
    obtain ⟨token, tasks, hself⟩ := handleJudged_self w i log r
    rw [hself]
    exact .judged hp
  | stop hp hc => cases hi; rw [setProcessor_self]; exact .stop hp hc
  | shutdown => cases hi
  | elapse _ _ => cases hi; rw [setTaskPhase_processor]; exact .elapse
  | wake _ _ => cases hi; rw [wakeTask_processor]; exact .wake

/-! ## The order of the logs -/

/-- The log of an `OpPoked`. -/
def pokedLog : Event → Option (Log OpPoked)
  | .opPoked log => some log
  | .opPokeChallengedSuccessfully _ => none

def sentTo (i : ι) : WorldLabel ι → Option (Log OpPoked)
  | .send j event => if j = i then pokedLog event else none
  | _ => none

def judgedBy (i : ι) : WorldLabel ι → Option (Log OpPoked)
  | .judged j log _ => if j = i then some log else none
  | _ => none

/-- The logs put on the channel of processor `i`. -/
def sentLogs (i : ι) (ls : List (WorldLabel ι)) : List (Log OpPoked) := ls.filterMap (sentTo i)

/-- The logs processor `i` has judged, with whatever result. -/
def judgedLogs (i : ι) (ls : List (WorldLabel ι)) : List (Log OpPoked) :=
  ls.filterMap (judgedBy i)

/-- The log being validated and those in the queue. -/
def pendingLogs (p : ScribeEventsProcessor ι) : List (Log OpPoked) :=
  (match p.phase with
    | .validating log => [log]
    | _ => []) ++ p.rx.filterMap pokedLog

/-- A processor that takes events knows the challenge period. -/
def PeriodKnown (p : ScribeEventsProcessor ι) : Prop :=
  p.phase = .idle ∨ (∃ log, p.phase = .validating log) → p.challengePeriod ≠ none

structure EventsInv (i : ι) (ls : List (WorldLabel ι)) (p : ScribeEventsProcessor ι) : Prop where
  fifo : sentLogs i ls = judgedLogs i ls ++ pendingLogs p
  period : PeriodKnown p

theorem EventsInv.snoc (h : EventsInv i ls p) (hperiod : PeriodKnown p')
    (hfifo : pendingLogs p ++ (sentTo i l).toList = (judgedBy i l).toList ++ pendingLogs p') :
    EventsInv i (ls ++ [l]) p' := by
  have hone : ∀ f : WorldLabel ι → Option (Log OpPoked),
      (ls ++ [l]).filterMap f = ls.filterMap f ++ (f l).toList := fun f => by
    cases hf : f l <;> simp [hf]
  refine ⟨?_, hperiod⟩
  rw [sentLogs, judgedLogs, hone, hone, ← sentLogs, ← judgedLogs, h.fifo, List.append_assoc, hfifo,
    List.append_assoc]

omit [DecidableEq ι] in
theorem pendingLogs_congr (hphase : p'.phase = p.phase) (hrx : p'.rx = p.rx) :
    pendingLogs p' = pendingLogs p := by
  rw [pendingLogs, pendingLogs, hphase, hrx]

/-- Steps that concern neither the channel nor a validation. -/
theorem EventsInv.snoc_same (h : EventsInv i ls p) (hphase : p'.phase = p.phase)
    (hrx : p'.rx = p.rx) (hperiod : p'.challengePeriod = p.challengePeriod)
    (hs : sentTo i l = none) (hj : judgedBy i l = none) : EventsInv i (ls ++ [l]) p' := by
  refine h.snoc ?_ ?_
  · unfold PeriodKnown
    rw [hphase, hperiod]
    exact h.period
  · rw [hs, hj, pendingLogs_congr hphase hrx]
    exact List.append_nil _

/-- An `OpPoked` leaves the channel and is validated, any other event just
leaves the channel; a judgement ends the validation. -/
theorem EventsInv.step_self (h : EventsInv i ls (w.processors i)) (hp : ProcessorCases w i l p') :
    EventsInv i (ls ++ [l]) p' := by
  cases hp with
  | @send event =>
    refine h.snoc h.period ?_
    cases event <;> simp [pendingLogs, sentTo, judgedBy, pokedLog]
  | close => exact h.snoc_same rfl rfl rfl rfl rfl
  | periodOk hp =>
    refine h.snoc (fun _ => Option.some_ne_none _) ?_
    simp [pendingLogs, hp, sentTo, judgedBy]
  | periodError hp =>
    refine h.snoc ?_ ?_
    · intro hk
      rcases hk with hk | ⟨_, hk⟩ <;> cases hk
    · simp [pendingLogs, hp, sentTo, judgedBy]
  | validate hp hrx =>
    refine h.snoc (fun _ => h.period (.inl hp)) ?_
    simp [pendingLogs, hp, hrx, sentTo, judgedBy, pokedLog]
  | ignore hp hrx hnone => exact absurd hnone (h.period (.inl hp))
  | cancel hp hrx =>
    refine h.snoc (fun _ => h.period (.inl hp)) ?_
    simp only [pendingLogs, hp, hrx, sentTo, judgedBy, Option.toList_none, List.append_nil,
      List.nil_append]
    rfl
  | recvNone _ => exact h.snoc_same rfl rfl rfl rfl rfl
  | @judged log r token tasks hp =>
    refine h.snoc (fun _ => h.period (.inr ⟨log, hp⟩)) ?_
    simp [pendingLogs, hp, sentTo, judgedBy]
  | stop hp _ =>
    refine h.snoc ?_ ?_
    · intro hk
      rcases hk with hk | ⟨_, hk⟩ <;> cases hk
    · simp [pendingLogs, hp, sentTo, judgedBy]
  | elapse => exact h.snoc_same rfl rfl rfl rfl rfl
  | wake => exact h.snoc_same rfl rfl rfl rfl rfl

theorem EventsInv.step (h : EventsInv i ls (w.processors i)) (hl : w.step l = some w') :
    EventsInv i (ls ++ [l]) (w'.processors i) := by
  by_cases hi : processorOf l = some i
  · exact h.step_self (step_processor hl hi)
  · rw [step_frame hl hi]
    have hno : sentTo i l = none ∧ judgedBy i l = none := by
      cases l with
      | send j event => exact ⟨if_neg fun he => hi (congrArg some he), rfl⟩
      | judged j log r => exact ⟨rfl, if_neg fun he => hi (congrArg some he)⟩
      | _ => exact ⟨rfl, rfl⟩
    exact h.snoc_same rfl rfl rfl hno.1 hno.2

theorem EventsInv.run (h : Run Step (start ι) ls w) (i : ι) : EventsInv i ls (w.processors i) := by
  refine h.invariant (P := fun ls w => EventsInv i ls (w.processors i)) ⟨rfl, ?_⟩
    fun _ ih hl => ih.step hl
  intro hk
  rcases hk with hk | ⟨_, hk⟩ <;> cases hk

/-- The logs put on a channel are those judged, the one being validated and
those in the queue. -/
theorem run_fifo (h : Run Step (start ι) ls w) (i : ι) :
    sentLogs i ls = judgedLogs i ls ++ pendingLogs (w.processors i) := (EventsInv.run h i).fifo

/-! ## Where a log that was sent is -/

theorem mem_judgedLogs : log ∈ judgedLogs i ls ↔ ∃ r, .judged i log r ∈ ls := by
  constructor
  · intro h
    obtain ⟨l, hl, hj⟩ := List.mem_filterMap.mp h
    unfold judgedBy at hj
    split at hj
    · split at hj
      · rename_i j log' r hji
        cases hj
        exact ⟨r, hji ▸ hl⟩
      · cases hj
    · cases hj
  · rintro ⟨r, h⟩
    exact List.mem_filterMap.mpr ⟨_, h, if_pos rfl⟩

theorem mem_sentLogs : log ∈ sentLogs i ls ↔ .send i (.opPoked log) ∈ ls := by
  constructor
  · intro h
    obtain ⟨l, hl, hs⟩ := List.mem_filterMap.mp h
    unfold sentTo at hs
    split at hs
    · split at hs
      · rename_i j event hji
        cases event with
        | opPoked log' =>
          cases hs
          exact hji ▸ hl
        | opPokeChallengedSuccessfully _ => cases hs
      · cases hs
    · cases hs
  · intro h
    exact List.mem_filterMap.mpr ⟨_, h, if_pos rfl⟩

/-- A log that was put on the channel of `i` is queued, is being handled, or
was judged: challengeable, and then a task with its data was spawned, or not
challengeable. -/
inductive Accounted (i : ι) (log : Log OpPoked) (ls : List (WorldLabel ι)) (w : World ι) : Prop
  where
  | queued (h : .opPoked log ∈ (w.processors i).rx)
  | handled (h : (w.processors i).phase = .validating log)
  | challengeable {task : ChallengeTask ι} (h : .judged i log (.ok true) ∈ ls)
      (ht : task ∈ (w.processors i).tasks) (hd : task.schnorrData = log.data.schnorrData)
  | notChallengeable (h : .judged i log (.ok false) ∈ ls)

omit [DecidableEq ι] in
theorem mem_pendingLogs : log ∈ pendingLogs p ↔ p.phase = .validating log ∨ .opPoked log ∈ p.rx := by
  have hrx : log ∈ p.rx.filterMap pokedLog ↔ .opPoked log ∈ p.rx := by
    rw [List.mem_filterMap]
    constructor
    · rintro ⟨event, he, hp⟩
      cases event with
      | opPoked log' => exact Option.some.inj hp ▸ he
      | opPokeChallengedSuccessfully _ => cases hp
    · exact fun h => ⟨_, h, rfl⟩
  rw [pendingLogs, List.mem_append, hrx]
  refine or_congr_left ?_
  split
  · rename_i log' hphase
    rw [hphase, List.mem_singleton]
    exact ⟨fun h => by rw [h], fun h => (ProcessorPhase.validating.inj h).symm⟩
  · rename_i hne
    exact ⟨fun h => absurd h List.not_mem_nil, fun h => absurd h (hne log)⟩

/-- The only other thing that happens to it is that its validation fails. -/
theorem accounted_or_failed (h : Run Step (start ι) ls w) (hs : log ∈ sentLogs i ls) :
    Accounted i log ls w ∨ ∃ e, .judged i log (.error e) ∈ ls := by
  rw [run_fifo h, List.mem_append, mem_pendingLogs] at hs
  rcases hs with hj | hphase | hrx
  · obtain ⟨r, hr⟩ := mem_judgedLogs.mp hj
    match r with
    | .ok true =>
      obtain ⟨k, hk⟩ := List.mem_iff_getElem?.mp (challengeable_of_judged hr)
      obtain ⟨task, ht, hd⟩ := (TasksInv.run h).exists_task hk
      exact .inl (.challengeable hr (List.mem_of_getElem? ht) hd)
    | .ok false => exact .inl (.notChallengeable hr)
    | .error e => exact .inr ⟨e, hr⟩
  · exact .inl (.handled hphase)
  · exact .inl (.queued hrx)

/-- A log that is neither queued nor being handled is not judged again, unless
it is sent again. -/
theorem not_judged_again (h : Run Step (start ι) ls w) (h' : Run Step w ls' w')
    (hpending : log ∉ pendingLogs (w.processors i)) (hno : .send i (.opPoked log) ∉ ls')
    (r : Except ContractError Bool) : .judged i log r ∉ ls' := by
  intro hr
  have hj : 0 < (judgedLogs i ls').count log :=
    List.count_pos_iff.mpr (mem_judgedLogs.mpr ⟨r, hr⟩)
  have hbefore := congrArg (List.count log) (run_fifo h i)
  have hafter := congrArg (List.count log) (run_fifo (h.append h') i)
  have hsent : (sentLogs i ls').count log = 0 :=
    List.count_eq_zero.mpr fun hs => hno (mem_sentLogs.mp hs)
  simp only [sentLogs, judgedLogs, List.filterMap_append, List.count_append] at *
  rw [List.count_eq_zero.mpr hpending] at hbefore
  omega

/-! ## When a processor returns -/

/-- A processor returns only when it is shut down or its period could not be
fetched. -/
theorem step_stopped (h : w.step l = some w') (hs : ∀ r, (w.processors i).phase ≠ .stopped r)
    (hroot : Token.root ∉ w.cancelled) (hl : ∀ e, l ≠ .period i (.error e)) :
    ∀ r, (w'.processors i).phase ≠ .stopped r := by
  by_cases hi : processorOf l = some i
  · have hcases := step_processor h hi
    generalize w'.processors i = p' at hcases ⊢
    cases hcases with
    | periodError _ => exact absurd rfl (hl _)
    | stop _ hc => exact absurd (Token.cancelled_root.mp hc) hroot
    | periodOk _ => simp
    | validate _ _ => simp
    | judged _ => simp
    | _ => exact hs
  · rw [step_frame h hi]; exact hs

end World
end Challenger
