import Challenger.Lib.Run
import Challenger.Lib.Token
import Challenger.Event
import Mathlib.Logic.Function.Basic

/-! # The event processors

Any number of processors, each with its channel, its stored cancellation token
and the challenge tasks it has spawned, over one shutdown token. The contract
behind a processor is the trait `ScribeContract`: its calls are requests that
get arbitrary answers.

A spawned task is in a `select!` between its token and the challenge after the
delay. Whenever it is woken the two branches are polled in an arbitrary order,
and a branch that is ready is taken. -/
namespace Challenger
open Lib

def channelCapacity : Nat := 100

/-! ## State -/

inductive TaskPhase where
  | sleeping (elapsed : Bool)
  | challenging
  | cancelled
  | finished (result : Except ContractError TxHash)
  deriving DecidableEq

/-- A spawned challenge. -/
structure ChallengeTask (ι : Type) where
  childCancellationToken : Token (ι × Nat)
  schnorrData : SchnorrData
  phase : TaskPhase

/-- Where `ScribeEventsProcessor::start` stands: it awaits the challenge
period, it is in its `select!`, it awaits the validation of an event, or it
has returned. -/
inductive ProcessorPhase where
  | starting
  | idle
  | validating (log : Log OpPoked)
  | stopped (result : Except ProcessorError Unit)

structure ScribeEventsProcessor (ι : Type) where
  challengeProcessCancelationToken : Option (Token (ι × Nat))
  challengePeriod : Option UInt64
  rx : List Event
  closed : Bool
  phase : ProcessorPhase
  tasks : List (ChallengeTask ι)

/-- All processors, the tokens that were cancelled, and the calls of
`contract.challenge` made so far, each with its processor and task. -/
structure World (ι : Type) where
  processors : ι → ScribeEventsProcessor ι
  cancelled : List (Token (ι × Nat))
  challenges : List (ι × Nat × SchnorrData)

def ScribeEventsProcessor.new (ι : Type) : ScribeEventsProcessor ι where
  challengeProcessCancelationToken := none
  challengePeriod := none
  rx := []
  closed := false
  phase := .starting
  tasks := []

def World.start (ι : Type) : World ι := ⟨fun _ => .new ι, [], []⟩

variable {ι : Type} [DecidableEq ι]

namespace World

def setProcessor (w : World ι) (i : ι) (p : ScribeEventsProcessor ι) : World ι :=
  { w with processors := Function.update w.processors i p }

def cancel (w : World ι) (token : Token (ι × Nat)) : World ι :=
  { w with cancelled := token :: w.cancelled }

/-! ## Handling an event -/

def cancelChallenge (w : World ι) (i : ι) : World ι :=
  match (w.processors i).challengeProcessCancelationToken with
  | some cancel =>
    (w.cancel cancel).setProcessor i
      { w.processors i with challengeProcessCancelationToken := none }
  | none => w

/-- The token of the processor's next task, a child of the shutdown token. -/
def childToken (w : World ι) (i : ι) : Token (ι × Nat) :=
  Token.root.child (i, (w.processors i).tasks.length)

def spawnChallenge (w : World ι) (i : ι) (log : Log OpPoked) : World ι :=
  let w := w.cancelChallenge i
  w.setProcessor i { w.processors i with
    challengeProcessCancelationToken := some (w.childToken i)
    tasks := (w.processors i).tasks ++
      [⟨w.childToken i, log.data.schnorrData, .sleeping false⟩] }

/-- `handle_event` up to its request. Without a challenge period an `OpPoked`
is an error, which the loop logs. -/
def handleEvent (w : World ι) (i : ι) : Event → World ι
  | .opPoked log =>
    match (w.processors i).challengePeriod with
    | none => w
    | some _ => w.setProcessor i { w.processors i with phase := .validating log }
  | .opPokeChallengedSuccessfully _ => w.cancelChallenge i

/-- `handle_event` from the answer on. -/
def handleJudged (w : World ι) (i : ι) (log : Log OpPoked) (r : Except ContractError Bool) :
    World ι :=
  let w := w.setProcessor i { w.processors i with phase := .idle }
  match r with
  | .ok true => w.spawnChallenge i log
  | .ok false => w
  | .error _ => w

/-! ## One wake-up of a task -/

/-- Polls the challenge branch: it is pending while the delay lasts; then it
calls the contract, and it is ready as soon as the call has returned. -/
def pollWork (phase : TaskPhase) (returned : Option (Except ContractError TxHash)) :
    TaskPhase × Bool :=
  match phase with
  | .sleeping true => (returned.elim .challenging .finished, true)
  | .challenging => (returned.elim .challenging .finished, false)
  | phase => (phase, false)

/-- Polls the cancellation branch. -/
def pollCancelled (cancelled : Bool) : TaskPhase → TaskPhase
  | .finished r => .finished r
  | phase => if cancelled then .cancelled else phase

/-- Polls the two branches, in one order or the other, and says whether the
contract was called. -/
def select (cancelled cancelledFirst : Bool) (phase : TaskPhase)
    (returned : Option (Except ContractError TxHash)) : TaskPhase × Bool :=
  if cancelledFirst then
    if cancelled then (.cancelled, false) else pollWork phase returned
  else
    let polled := pollWork phase returned
    (pollCancelled cancelled polled.1, polled.2)

/-! ## Steps -/

def running : TaskPhase → Bool
  | .sleeping _ => true
  | .challenging => true
  | _ => false

def setTaskPhase (w : World ι) (i : ι) (k : Nat) (phase : TaskPhase) : World ι :=
  w.setProcessor i { w.processors i with
    tasks := (w.processors i).tasks.modify k fun task => { task with phase := phase } }

/-- Whether the channel takes an event: its sender is there, its receiver is
there, and it is not full. -/
def accepts (p : ScribeEventsProcessor ι) : Bool :=
  !p.closed && p.rx.length < channelCapacity && match p.phase with
    | .stopped _ => false
    | _ => true

end World

/-- `send` and `close` are the sender's, `elapse` is a timer's, and `wake` is
one wake-up of a task, with the polling order and the result of its call if
that has returned. -/
inductive WorldLabel (ι : Type) where
  | send (i : ι) (event : Event)
  | close (i : ι)
  | period (i : ι) (r : Except ContractError UInt16)
  | recv (i : ι) (event : Event)
  | recvNone (i : ι)
  | judged (i : ι) (log : Log OpPoked) (r : Except ContractError Bool)
  | stop (i : ι)
  | shutdown
  | elapse (i : ι) (k : Nat)
  | wake (i : ι) (k : Nat) (cancelledFirst : Bool)
      (returned : Option (Except ContractError TxHash))

namespace World

/-- What a wake-up of a task does. -/
def wakeTask (w : World ι) (i : ι) (k : Nat) (task : ChallengeTask ι) (cancelledFirst : Bool)
    (returned : Option (Except ContractError TxHash)) : World ι :=
  let selected := select (Token.Cancelled w.cancelled task.childCancellationToken) cancelledFirst
    task.phase returned
  { w.setTaskPhase i k selected.1 with
    challenges := w.challenges ++ if selected.2 then [(i, k, task.schnorrData)] else [] }

def step (w : World ι) : WorldLabel ι → Option (World ι)
  | .send i event =>
    if accepts (w.processors i) then
      some (w.setProcessor i { w.processors i with rx := (w.processors i).rx ++ [event] })
    else none
  | .close i => some (w.setProcessor i { w.processors i with closed := true })
  | .period i r =>
    match (w.processors i).phase, r with
    | .starting, .ok period => some (w.setProcessor i { w.processors i with
        challengePeriod := some period.toUInt64, phase := .idle })
    | .starting, .error e => some (w.setProcessor i { w.processors i with
        phase := .stopped (.error (.contractError e)) })
    | _, _ => none
  | .recv i event =>
    match (w.processors i).phase, (w.processors i).rx with
    | .idle, next :: rest =>
      if next = event then
        some ((w.setProcessor i { w.processors i with rx := rest }).handleEvent i event)
      else none
    | _, _ => none
  | .recvNone i =>
    match (w.processors i).phase, (w.processors i).rx, (w.processors i).closed with
    | .idle, [], true => some w
    | _, _, _ => none
  | .judged i log r =>
    match (w.processors i).phase with
    | .validating log' => if log' = log then some (w.handleJudged i log r) else none
    | _ => none
  | .stop i =>
    match (w.processors i).phase with
    | .idle =>
      if Token.Cancelled w.cancelled Token.root then
        some (w.setProcessor i { w.processors i with phase := .stopped (.ok ()) })
      else none
    | _ => none
  | .shutdown => some (w.cancel Token.root)
  | .elapse i k =>
    match ((w.processors i).tasks[k]?).map ChallengeTask.phase with
    | some (.sleeping false) => some (w.setTaskPhase i k (.sleeping true))
    | _ => none
  | .wake i k cancelledFirst returned =>
    match (w.processors i).tasks[k]? with
    | some task =>
      if running task.phase then some (w.wakeTask i k task cancelledFirst returned) else none
    | none => none

def Step : World ι → WorldLabel ι → World ι → Prop := Takes step

/-- All a step can do. -/
inductive StepCases (w : World ι) : WorldLabel ι → World ι → Prop where
  | send {i event} (h : accepts (w.processors i) = true) : StepCases w (.send i event)
      (w.setProcessor i { w.processors i with rx := (w.processors i).rx ++ [event] })
  | close {i} : StepCases w (.close i)
      (w.setProcessor i { w.processors i with closed := true })
  | periodOk {i period} (h : (w.processors i).phase = .starting) :
      StepCases w (.period i (.ok period)) (w.setProcessor i { w.processors i with
        challengePeriod := some period.toUInt64, phase := .idle })
  | periodError {i e} (h : (w.processors i).phase = .starting) :
      StepCases w (.period i (.error e)) (w.setProcessor i { w.processors i with
        phase := .stopped (.error (.contractError e)) })
  | recv {i event rest} (h : (w.processors i).phase = .idle)
      (hrx : (w.processors i).rx = event :: rest) : StepCases w (.recv i event)
        ((w.setProcessor i { w.processors i with rx := rest }).handleEvent i event)
  | recvNone {i} (h : (w.processors i).phase = .idle) (hrx : (w.processors i).rx = [])
      (hc : (w.processors i).closed = true) : StepCases w (.recvNone i) w
  | judged {i log r} (h : (w.processors i).phase = .validating log) :
      StepCases w (.judged i log r) (w.handleJudged i log r)
  | stop {i} (h : (w.processors i).phase = .idle) (hc : Token.Cancelled w.cancelled Token.root) :
      StepCases w (.stop i) (w.setProcessor i { w.processors i with phase := .stopped (.ok ()) })
  | shutdown : StepCases w .shutdown (w.cancel Token.root)
  | elapse {i k task} (ht : (w.processors i).tasks[k]? = some task)
      (hp : task.phase = .sleeping false) :
      StepCases w (.elapse i k) (w.setTaskPhase i k (.sleeping true))
  | wake {i k task cancelledFirst returned} (ht : (w.processors i).tasks[k]? = some task)
      (hp : running task.phase = true) : StepCases w (.wake i k cancelledFirst returned)
        (w.wakeTask i k task cancelledFirst returned)

theorem step_cases {w w' : World ι} {l : WorldLabel ι} (h : w.step l = some w') :
    StepCases w l w' := by
  cases l with
  | send i event =>
    simp only [step] at h
    split at h
    · rw [← Option.some.inj h]; exact .send ‹_›
    · cases h
  | close i =>
    rw [← Option.some.inj h]; exact .close
  | period i r =>
    simp only [step] at h
    split at h
    · rw [← Option.some.inj h]; exact .periodOk ‹_›
    · rw [← Option.some.inj h]; exact .periodError ‹_›
    · cases h
  | recv i event =>
    simp only [step] at h
    split at h
    · rename_i hphase hrx
      split at h
      · rename_i he
        subst he
        rw [← Option.some.inj h]; exact .recv hphase hrx
      · cases h
    · cases h
  | recvNone i =>
    simp only [step] at h
    split at h
    · rw [← Option.some.inj h]; exact .recvNone ‹_› ‹_› ‹_›
    · cases h
  | judged i log r =>
    simp only [step] at h
    split at h
    · rename_i hphase
      split at h
      · rename_i he
        subst he
        rw [← Option.some.inj h]; exact .judged hphase
      · cases h
    · cases h
  | stop i =>
    simp only [step] at h
    split at h
    · split at h
      · rw [← Option.some.inj h]; exact .stop ‹_› ‹_›
      · cases h
    · cases h
  | shutdown =>
    rw [← Option.some.inj h]; exact .shutdown
  | elapse i k =>
    simp only [step] at h
    split at h
    · rename_i ht
      obtain ⟨task, ht, hp⟩ := Option.map_eq_some_iff.mp ht
      rw [← Option.some.inj h]; exact .elapse ht hp
    · cases h
  | wake i k cancelledFirst returned =>
    simp only [step] at h
    split at h
    · split at h
      · rw [← Option.some.inj h]; exact .wake ‹_› ‹_›
      · cases h
    · cases h

end World
end Challenger
