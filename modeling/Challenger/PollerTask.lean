import Challenger.Lib.Run
import Challenger.PollerDelivery

/-! # The event loop of the poller

`Poller::start` waits for the cancellation or the next tick, and a tick runs
one poll to its end, whatever is cancelled meanwhile. A failed poll is retried
on the next tick until too many have failed in a row.

No log is lost on the way (`start_loses_no_log`): the cursor moves only when a
poll returns `Ok`, and such a poll has sent all it planned. -/
namespace Challenger
open Lib Lib.Async

/-- The poller with another cursor and another count of failures. -/
def Poller.moved (p : Poller) (cursor : UInt64) (retryCount : Nat) : Poller :=
  { p with lastProcessesBlock := cursor, retryCount := retryCount }

/-! ## The loop -/

inductive PollerPhase where
  | idle
  | polling (answered : List PollI.Event) (rest : PollM (Except PollerError Unit × Poller))
  | stopped (result : Except PollerError Unit)

/-- The task that runs `Poller::start`. During a poll `poller` is what the
poll started from. -/
structure PollerTask where
  poller : Poller
  phase : PollerPhase

inductive PollerLabel where
  | cancelled
  | tick
  | answer (e : PollI.Event)
  | polled (result : Except PollerError Unit)

namespace PollerTask

/-- What the loop does with the result of a poll. -/
def afterPoll (p : Poller) : Except PollerError Unit → PollerTask
  | .error _ =>
    if maxRetryCount ≤ p.retryCount then
      ⟨p, .stopped (.error (.maxRetryAttemptsExceeded maxRetryCount))⟩
    else ⟨{ p with retryCount := p.retryCount + 1 }, .idle⟩
  | .ok () => ⟨{ p with retryCount := 0 }, .idle⟩

variable [ScribeAbi]

def step (s : PollerTask) : PollerLabel → Option PollerTask
  | .cancelled =>
    match s.phase with
    | .idle => some { s with phase := .stopped (.ok ()) }
    | _ => none
  | .tick =>
    match s.phase with
    | .idle => some { s with phase := .polling [] s.poller.pollForNewEvents }
    | _ => none
  | .answer e =>
    match s.phase with
    | .polling t q => (q.answer e).map fun q' => { s with phase := .polling (t ++ [e]) q' }
    | _ => none
  | .polled r =>
    match s.phase with
    | .polling _ (.done (r', p)) => if r' = r then some (afterPoll p r) else none
    | _ => none

/-- All a step can do. -/
inductive StepCases (s : PollerTask) : PollerLabel → PollerTask → Prop where
  | cancelled (h : s.phase = .idle) : StepCases s .cancelled ⟨s.poller, .stopped (.ok ())⟩
  | tick (h : s.phase = .idle) :
      StepCases s .tick ⟨s.poller, .polling [] s.poller.pollForNewEvents⟩
  | answer {t : List PollI.Event} {q q' e} (h : s.phase = .polling t q) (hq : Exec q [e] q') :
      StepCases s (.answer e) ⟨s.poller, .polling (t ++ [e]) q'⟩
  | polled {t : List PollI.Event} {r p} (h : s.phase = .polling t (.done (r, p))) :
      StepCases s (.polled r) (afterPoll p r)

theorem step_cases {s s' : PollerTask} {l : PollerLabel} (h : s.step l = some s') :
    StepCases s l s' := by
  cases l with
  | cancelled =>
    simp only [step] at h
    split at h
    · rw [← Option.some.inj h]; exact .cancelled ‹_›
    · cases h
  | tick =>
    simp only [step] at h
    split at h
    · rw [← Option.some.inj h]; exact .tick ‹_›
    · cases h
  | answer e =>
    simp only [step] at h
    split at h
    · obtain ⟨q', hq', rfl⟩ := Option.map_eq_some_iff.mp h
      exact .answer ‹_› (exec_of_replay (t := [e]) (by simp [replay, hq']))
    · cases h
  | polled r =>
    simp only [step] at h
    split at h
    · split at h
      · rename_i hr
        rw [← Option.some.inj h]
        subst hr
        exact .polled ‹_›
      · cases h
    · cases h

/-- The requests answered in a run, in order. -/
def answers (ls : List PollerLabel) : List PollI.Event :=
  ls.filterMap fun
    | .answer e => some e
    | _ => none

omit [ScribeAbi] in
@[simp] theorem answers_append (ls ls' : List PollerLabel) :
    answers (ls ++ ls') = answers ls ++ answers ls' := List.filterMap_append

/-! ## Environments -/

omit [ScribeAbi] in
/-- What is assumed of an answer, given the poller a poll started from and the
answers the poll has got before. -/
abbrev PollEnv := Poller → List PollI.Event → PollI.Event → Prop

/-- Every answer of a poll met the assumption when it came. -/
def Kept (env : PollEnv) (p : Poller) (t : List PollI.Event) : Prop :=
  ∀ u e v, t = u ++ e :: v → env p u e

omit [ScribeAbi] in
theorem Kept.snoc {env : PollEnv} {p : Poller} {t : List PollI.Event} {e : PollI.Event}
    (h : Kept env p t) (he : env p t e) : Kept env p (t ++ [e]) := by
  intro u e' v hu
  rcases List.eq_nil_or_concat v with rfl | ⟨v, x, rfl⟩
  · obtain ⟨rfl, he'⟩ := List.append_inj' hu rfl
    cases he'
    exact he
  · rw [List.concat_eq_append, ← List.cons_append, ← List.append_assoc] at hu
    exact h u e' v (List.append_inj' hu rfl).1

omit [ScribeAbi] in
theorem Kept.mono {env env' : PollEnv} (henv : ∀ p t e, env p t e → env' p t e) {p : Poller}
    {t : List PollI.Event} (h : Kept env p t) : Kept env' p t :=
  fun u e v hu => henv _ _ _ (h u e v hu)

/-- A step of the loop in an environment. -/
def Step (env : PollEnv) : PollerTask → PollerLabel → PollerTask → Prop :=
  Guarded (Takes step) fun s l =>
    ∀ e t q, l = .answer e → s.phase = .polling t q → env s.poller t e

/-- A head that is to be scanned leaves room for the block after it. -/
def HeadRoom (p : Poller) : PollI.Event → Prop
  | ⟨.getBlockNumber, .ok latestBlock⟩ =>
    ¬ latestBlock ≤ p.lastProcessesBlock → latestBlock.toNat + 1 < 2 ^ 64
  | _ => True

/-- The environment answers from the chain, with heads that leave room. -/
def Environment (chain : Chain) : PollEnv := fun p _ e => Honest chain e ∧ HeadRoom p e

/-! ## What every run keeps -/

variable {env : PollEnv} {chain : Chain} {p : Poller} {ls ls' : List PollerLabel} {s s' : PollerTask}

omit [ScribeAbi] in
theorem firstRun_moved (p : Poller) (latestBlock : UInt64) :
    p.firstRun latestBlock = p.moved (p.firstRun latestBlock).lastProcessesBlock p.retryCount := by
  unfold Poller.firstRun
  split <;> rfl

/-- A poll assigns the cursor only. -/
theorem pollForNewEvents_moved {p p' : Poller} {t : List PollI.Event} {r : Except PollerError Unit}
    (h : Returns p.pollForNewEvents t (r, p')) : ∃ cursor, p' = p.moved cursor p.retryCount := by
  cases Poller.pollForNewEvents_cases h with
  | noHead e => exact ⟨p.lastProcessesBlock, rfl⟩
  | skip latestBlock _ => exact ⟨_, firstRun_moved p latestBlock⟩
  | scan latestBlock _ hscan =>
    cases hscan with
    | running _ hq => exact absurd rfl (hq _)
    | failed _ => exact ⟨_, firstRun_moved p latestBlock⟩
    | scanned _ =>
      rw [firstRun_moved p latestBlock]
      exact ⟨latestBlock + 1, rfl⟩

omit [ScribeAbi] in
/-- A poll that returns leads back to the loop, with the poller it returned. -/
theorem afterPoll_poller (p : Poller) (r : Except PollerError Unit) :
    (∃ n, (afterPoll p r).poller = p.moved p.lastProcessesBlock n) ∧
      ∀ t q, (afterPoll p r).phase ≠ .polling t q := by
  cases r with
  | ok _ => exact ⟨⟨0, rfl⟩, fun t q h => by cases h⟩
  | error e =>
    by_cases hmax : maxRetryCount ≤ p.retryCount
    · simp only [afterPoll, if_pos hmax]
      exact ⟨⟨p.retryCount, rfl⟩, fun t q h => by cases h⟩
    · simp only [afterPoll, if_neg hmax]
      exact ⟨⟨p.retryCount + 1, rfl⟩, fun t q h => by cases h⟩

/-- Whatever the answers are, the poller keeps its wiring, and a poll under way
is an execution from the poller's state with the latest answers. -/
structure TaskInv (p : Poller) (ls : List PollerLabel) (s : PollerTask) : Prop where
  wiring : ∃ cursor retryCount, s.poller = p.moved cursor retryCount
  poll : ∀ t q, s.phase = .polling t q →
    Exec s.poller.pollForNewEvents t q ∧ ∃ u, answers ls = u ++ t

theorem TaskInv.init (p : Poller) : TaskInv p [] ⟨p, .idle⟩ where
  wiring := ⟨p.lastProcessesBlock, p.retryCount, rfl⟩
  poll t q h := by cases h

theorem TaskInv.step {l : PollerLabel} (h : TaskInv p ls s) (hl : s.step l = some s') :
    TaskInv p (ls ++ [l]) s' := by
  cases step_cases hl with
  | cancelled _ => exact ⟨h.wiring, fun t q h => by cases h⟩
  | tick _ =>
    refine ⟨h.wiring, ?_⟩
    intro t q h
    cases h
    exact ⟨.nil _, _, (List.append_nil _).symm⟩
  | @answer t q q' e hp hq =>
    obtain ⟨hexec, u, hu⟩ := h.poll _ _ hp
    refine ⟨h.wiring, ?_⟩
    intro t' q'' h
    cases h
    refine ⟨hexec.append hq, u, ?_⟩
    rw [answers_append, hu]
    exact List.append_assoc ..
  | @polled t r p' hp =>
    obtain ⟨⟨n, hn⟩, hphase⟩ := afterPoll_poller p' r
    obtain ⟨c, m, hw⟩ := h.wiring
    obtain ⟨c', hmoved⟩ := pollForNewEvents_moved (h.poll _ _ hp).1
    refine ⟨⟨c', n, ?_⟩, fun t q h => absurd h (hphase t q)⟩
    rw [hn, hmoved, hw]
    rfl

theorem TaskInv.run (h : Run (Takes PollerTask.step) ⟨p, .idle⟩ ls s) : TaskInv p ls s :=
  h.invariant (.init p) fun _ ih hl => ih.step hl

/-- The poller keeps its wiring and a cursor that is set, and a poll under way
is an execution from the poller's state, with the answers promised. -/
structure LoopInv (env : PollEnv) (p : Poller) (ls : List PollerLabel) (s : PollerTask) : Prop where
  wiring : ∃ cursor retryCount, s.poller = p.moved cursor retryCount
  cursor_ne : s.poller.lastProcessesBlock ≠ 0
  poll : ∀ t q, s.phase = .polling t q → Exec s.poller.pollForNewEvents t q ∧
    Kept env s.poller t ∧ ∃ u, answers ls = u ++ t

theorem LoopInv.init (hs : p.lastProcessesBlock ≠ 0) : LoopInv env p [] ⟨p, .idle⟩ where
  wiring := ⟨p.lastProcessesBlock, p.retryCount, rfl⟩
  cursor_ne := hs
  poll t q h := by cases h

theorem LoopInv.task (h : LoopInv env p ls s) : TaskInv p ls s :=
  ⟨h.wiring, fun t q hp => ⟨(h.poll t q hp).1, (h.poll t q hp).2.2⟩⟩

omit [ScribeAbi] in
theorem Kept.honest {t : List PollI.Event} (h : Kept env p t)
    (hhon : ∀ p t e, env p t e → Honest chain e) : ∀ e ∈ t, Honest chain e := by
  intro e he
  obtain ⟨u, v, rfl⟩ := List.append_of_mem he
  exact hhon _ _ _ (h u e v rfl)

omit [ScribeAbi] in
theorem Kept.headRoom {t : List PollI.Event} (h : Kept (Environment chain) p t)
    {latestBlock : UInt64} (hh : Poller.headRead t = some latestBlock) :
    ¬ latestBlock ≤ p.lastProcessesBlock → latestBlock.toNat + 1 < 2 ^ 64 := by
  obtain ⟨u, v, rfl⟩ := List.append_of_mem (Poller.mem_of_headRead hh)
  exact (h u _ v rfl).2

/-- A poll that returned left the poller as it was, or moved its cursor by the
head it read. -/
theorem LoopInv.polled_sends (hhon : ∀ p t e, env p t e → Honest chain e) (h : LoopInv env p ls s)
    {t : List PollI.Event} {r : Except PollerError Unit} {p' : Poller}
    (hp : s.phase = .polling t (.done (r, p'))) :
    (∃ e, r = .error e ∧ p' = s.poller) ∨
      r = .ok () ∧ ∃ latestBlock, Poller.headRead t = some latestBlock ∧ p' = { s.poller with
        lastProcessesBlock := Poller.nextCursor s.poller.lastProcessesBlock latestBlock } ∧
      (¬ latestBlock ≤ s.poller.lastProcessesBlock →
        ∀ a tx, s.poller.handlerChannels.get a = some tx → ∀ event ∈
          chain.eventsOf a s.poller.lastProcessesBlock.toNat (latestBlock.toNat + 1),
          event ∈ sentOn tx t) := by
  obtain ⟨hexec, hkept, -⟩ := h.poll t _ hp
  cases r with
  | error e => exact .inl ⟨e, rfl, (Poller.pollForNewEvents_error h.cursor_ne hexec).1⟩
  | ok _ => exact .inr ⟨rfl, Poller.pollForNewEvents_sends h.cursor_ne (hkept.honest hhon) hexec⟩

/-- A step keeps the invariant, unless it sets the cursor to zero. -/
theorem LoopInv.step_of_ne {l : PollerLabel} (h : LoopInv env p ls s) (hl : Step env s l s')
    (hne : s'.poller.lastProcessesBlock ≠ 0) : LoopInv env p (ls ++ [l]) s' := by
  have htask := h.task.step hl.1
  have hkept : ∀ t q, s'.phase = .polling t q → Kept env s'.poller t := by
    intro t' q'' hp'
    cases step_cases hl.1 with
    | cancelled _ => cases hp'
    | tick _ => cases hp'; exact fun u e v hu => by simp at hu
    | @answer t q q' e hp _ =>
      cases hp'
      exact (h.poll _ _ hp).2.1.snoc (hl.2 _ _ _ rfl hp)
    | @polled t r p' _ => exact absurd hp' ((afterPoll_poller p' r).2 _ _)
  refine ⟨htask.wiring, hne, ?_⟩
  intro t q hp
  exact ⟨(htask.poll t q hp).1, hkept t q hp, (htask.poll t q hp).2⟩

/-- Only a poll that returns `Ok` moves the cursor. It moves it past the head
it read, and has sent what the chain has up to there. -/
theorem LoopInv.cursor_moves (hhon : ∀ p t e, env p t e → Honest chain e) {l : PollerLabel}
    (h : LoopInv env p ls s) (hl : Step env s l s') :
    s'.poller.lastProcessesBlock = s.poller.lastProcessesBlock ∨
      l = .polled (.ok ()) ∧ ∃ latestBlock t, (∃ q, s.phase = .polling t q) ∧
        Poller.headRead t = some latestBlock ∧ ¬ latestBlock ≤ s.poller.lastProcessesBlock ∧
        s'.poller.lastProcessesBlock = latestBlock + 1 ∧
        ∀ a tx, p.handlerChannels.get a = some tx → ∀ event ∈
          chain.eventsOf a s.poller.lastProcessesBlock.toNat (latestBlock.toNat + 1),
          event ∈ sentOn tx (answers ls) := by
  cases step_cases hl.1 with
  | cancelled _ => exact .inl rfl
  | tick _ => exact .inl rfl
  | answer _ _ => exact .inl rfl
  | @polled t r p' hp =>
    obtain ⟨⟨n, hn⟩, -⟩ := afterPoll_poller p' r
    rw [hn]
    rcases h.polled_sends hhon hp with ⟨e, -, rfl⟩ | ⟨rfl, latestBlock, hh, rfl, hsent⟩
    · exact .inl rfl
    · by_cases hle : latestBlock ≤ s.poller.lastProcessesBlock
      · exact .inl (if_pos hle)
      · refine .inr ⟨rfl, latestBlock, t, ⟨_, hp⟩, hh, hle, if_neg hle, ?_⟩
        intro a tx htx event he
        obtain ⟨-, -, u, hu⟩ := h.poll _ _ hp
        obtain ⟨c, m, hw⟩ := h.wiring
        rw [hu, sentOn_append]
        exact List.mem_append_right _ (hsent hle a tx (by rw [hw]; exact htx) event he)

/-- Where the heads leave room, the cursor moves forward past events that
were sent. -/
theorem LoopInv.cursor_step (henv : ∀ p t e, env p t e → Environment chain p t e)
    {l : PollerLabel} (h : LoopInv env p ls s) (hl : Step env s l s') :
    (s'.poller.lastProcessesBlock = s.poller.lastProcessesBlock) ∨
      l = .polled (.ok ()) ∧
        s.poller.lastProcessesBlock.toNat < s'.poller.lastProcessesBlock.toNat ∧
        ∀ a tx, p.handlerChannels.get a = some tx → ∀ event ∈ chain.eventsOf a
          s.poller.lastProcessesBlock.toNat s'.poller.lastProcessesBlock.toNat,
          event ∈ sentOn tx (answers ls) := by
  rcases h.cursor_moves (fun p t e he => (henv p t e he).1) hl with
    hc | ⟨rfl, latestBlock, t, ⟨q, hp⟩, hh, hle, hc, hsent⟩
  · exact .inl hc
  · have hroom := toNat_succ_of_lt (((h.poll t q hp).2.1.mono henv).headRoom hh hle)
    rw [hc, hroom]
    refine .inr ⟨rfl, ?_, hsent⟩
    rw [UInt64.le_iff_toNat_le] at hle
    omega

/-- There the cursor is never set to zero. -/
theorem LoopInv.step (henv : ∀ p t e, env p t e → Environment chain p t e) {l : PollerLabel}
    (h : LoopInv env p ls s) (hl : Step env s l s') : LoopInv env p (ls ++ [l]) s' := by
  refine h.step_of_ne hl ?_
  rcases h.cursor_step henv hl with hc | ⟨-, hlt, -⟩
  · rw [hc]; exact h.cursor_ne
  · intro h0
    rw [h0] at hlt
    exact Nat.not_lt_zero _ hlt

theorem LoopInv.run (henv : ∀ p t e, env p t e → Environment chain p t e)
    (hs : p.lastProcessesBlock ≠ 0) (h : Run (Step env) ⟨p, .idle⟩ ls s) : LoopInv env p ls s :=
  h.invariant (.init hs) fun _ ih hl => ih.step henv hl

/-! ## No log is lost -/

/-- Everything between the first cursor and the current one has been sent. -/
def Delivered (chain : Chain) (p : Poller) (ls : List PollerLabel) (s : PollerTask) : Prop :=
  p.lastProcessesBlock.toNat ≤ s.poller.lastProcessesBlock.toNat ∧
    ∀ a tx, p.handlerChannels.get a = some tx → ∀ event ∈ chain.eventsOf a
      p.lastProcessesBlock.toNat s.poller.lastProcessesBlock.toNat, event ∈ sentOn tx (answers ls)

omit [ScribeAbi] in
theorem sentOn_answers_mono {tx : Sender} {event : Event} (l : PollerLabel)
    (h : event ∈ sentOn tx (answers ls)) : event ∈ sentOn tx (answers (ls ++ [l])) := by
  rw [answers_append, sentOn_append]
  exact List.mem_append_left _ h

theorem Delivered.snoc (h : Delivered chain p ls s) (l : PollerLabel)
    (hc : s'.poller.lastProcessesBlock = s.poller.lastProcessesBlock) :
    Delivered chain p (ls ++ [l]) s' := by
  rw [Delivered, hc]
  exact ⟨h.1, fun a tx htx event he => sentOn_answers_mono l (h.2 a tx htx event he)⟩

/-- A scan from the cursor to just before `hi` adds to what was sent below. -/
theorem Delivered.extend (h : Delivered chain p ls s) (l : PollerLabel) {hi : Nat}
    (hle : s.poller.lastProcessesBlock.toNat ≤ hi)
    (hsent : ∀ a tx, p.handlerChannels.get a = some tx → ∀ event ∈
      chain.eventsOf a s.poller.lastProcessesBlock.toNat hi, event ∈ sentOn tx (answers ls)) :
    ∀ a tx, p.handlerChannels.get a = some tx → ∀ event ∈
      chain.eventsOf a p.lastProcessesBlock.toNat hi, event ∈ sentOn tx (answers (ls ++ [l])) := by
  intro a tx htx event he
  rw [← chain.eventsOf_append a h.1 hle, List.mem_append] at he
  refine sentOn_answers_mono l ?_
  rcases he with he | he
  · exact h.2 a tx htx event he
  · exact hsent a tx htx event he

theorem Delivered.init (chain : Chain) (p : Poller) : Delivered chain p [] ⟨p, .idle⟩ :=
  ⟨le_rfl, fun a tx _ event he => by rw [chain.eventsOf_self] at he; cases he⟩

theorem run_delivers (hs : p.lastProcessesBlock ≠ 0)
    (h : Run (Step (Environment chain)) ⟨p, .idle⟩ ls s) : Delivered chain p ls s := by
  refine h.invariant (P := Delivered chain p) (.init chain p) fun {ls s l s'} hr ih hl => ?_
  rcases (LoopInv.run (fun _ _ _ h => h) hs hr).cursor_step (fun _ _ _ h => h) hl with
    hc | ⟨-, hlt, hsent⟩
  · exact ih.snoc l hc
  · exact ⟨ih.1.trans hlt.le, ih.extend l hlt.le hsent⟩

/-- **No log is lost.** From a cursor that is not zero, whatever calls fail and
wherever in a poll: every log of a monitored address from the first cursor to
the current one that decodes has been sent to the address's channel; as long
as no poll returns `Ok` the cursor stays, and no step moves it back. -/
theorem start_loses_no_log (hs : p.lastProcessesBlock ≠ 0)
    (h : Run (Step (Environment chain)) ⟨p, .idle⟩ ls s) :
    (∀ log ∈ chain.logs, log.address ∈ p.addresses → p.lastProcessesBlock.toNat ≤ log.block →
      log.block < s.poller.lastProcessesBlock.toNat → ∀ event, Event.tryFrom log = .ok event →
        ∃ tx, p.handlerChannels.get log.address = some tx ∧ event ∈ sentOn tx (answers ls)) ∧
    (∀ {ls' s'}, Run (Step (Environment chain)) s ls' s' → .polled (.ok ()) ∉ ls' →
      s'.poller.lastProcessesBlock = s.poller.lastProcessesBlock) ∧
    (∀ {ls' s'}, Run (Step (Environment chain)) s ls' s' →
      s.poller.lastProcessesBlock.toNat ≤ s'.poller.lastProcessesBlock.toNat) := by
  refine ⟨fun log hlog ha hlo hhi event hev => ?_, fun {ls' s'} h' hno => ?_, fun {ls' s'} h' => ?_⟩
  · obtain ⟨tx, htx⟩ := Poller.mem_addresses.mp ha
    exact ⟨tx, htx, (run_delivers hs h).2 _ tx htx event (Chain.mem_eventsOf.mpr
      ⟨log, hlog, ⟨hlo, hhi⟩, by simp [accepted, hev, Except.toOption]⟩)⟩
  · refine h'.invariant (P := fun ls' s' => .polled (.ok ()) ∉ ls' →
      s'.poller.lastProcessesBlock = s.poller.lastProcessesBlock) (fun _ => rfl)
      (fun {ls₁ s₁ l s₂} hr ih hl hno => ?_) hno
    rw [List.mem_append, List.mem_singleton, not_or] at hno
    rcases (LoopInv.run (fun _ _ _ h => h) hs (h.append hr)).cursor_step (fun _ _ _ h => h) hl with
      hc | ⟨rfl, -⟩
    · rw [hc, ih hno.1]
    · exact absurd rfl hno.2
  · refine h'.invariant (P := fun _ s' => s.poller.lastProcessesBlock.toNat ≤
      s'.poller.lastProcessesBlock.toNat) le_rfl fun {ls₁ s₁ l s₂} hr ih hl => ?_
    rcases (LoopInv.run (fun _ _ _ h => h) hs (h.append hr)).cursor_step (fun _ _ _ h => h) hl with
      hc | ⟨-, hlt, -⟩
    · rw [hc]; exact ih
    · exact ih.trans hlt.le

/-- A poll of the sample chain that fails after its first sub-range, and the
retry, which goes through. -/
def sampleRetry : List PollerLabel :=
  [.tick, .answer ⟨.getBlockNumber, .ok 11⟩,
    .answer (sampleChain.answer (Poller.queryFilter [sampleAddress] 9 10)),
    .answer ⟨.send ⟨0⟩ (sampleEvent 10 1), .ok ()⟩,
    .answer ⟨.send ⟨0⟩ (sampleEvent 10 2), .ok ()⟩,
    .answer ⟨.getLogs (Poller.queryFilter [sampleAddress] 11 11), .error (.rpcError ⟨"timeout"⟩)⟩,
    .polled (.error (.providerError (.rpcError ⟨"timeout"⟩))),
    .tick] ++ Poller.sampleTrace.map .answer ++ [.polled (.ok ())]

omit [ScribeAbi] in
theorem environment_sampleTrace (p : Poller) (t : List PollI.Event) :
    ∀ e ∈ Poller.sampleTrace, Environment sampleChain p t e := by
  have hroom : ∀ e ∈ Poller.sampleTrace, HeadRoom p e := by
    simp only [Poller.sampleTrace, List.forall_mem_cons]
    exact ⟨(fun _ => by decide), trivial, trivial, trivial, trivial, trivial, trivial,
      fun _ h => absurd h List.not_mem_nil⟩
  exact fun e he => ⟨Poller.honest_sampleTrace e he, hroom e he⟩

omit [ScribeAbi] in
theorem environment_sampleRetry (p : Poller) (t : List PollI.Event) :
    ∀ e ∈ answers sampleRetry, Environment sampleChain p t e := by
  have htrace := environment_sampleTrace p t
  simp only [Poller.sampleTrace, List.forall_mem_cons] at htrace
  obtain ⟨hhead, hlogs, hsend₁, hsend₂, -⟩ := htrace
  have hanswers : answers sampleRetry =
      [⟨.getBlockNumber, .ok 11⟩, sampleChain.answer (Poller.queryFilter [sampleAddress] 9 10),
        ⟨.send ⟨0⟩ (sampleEvent 10 1), .ok ()⟩, ⟨.send ⟨0⟩ (sampleEvent 10 2), .ok ()⟩,
        ⟨.getLogs (Poller.queryFilter [sampleAddress] 11 11), .error (.rpcError ⟨"timeout"⟩)⟩] ++
      Poller.sampleTrace := rfl
  rw [hanswers]
  simp only [List.mem_append, or_imp, forall_and, List.forall_mem_cons]
  exact ⟨⟨hhead, hlogs, hsend₁, hsend₂, ⟨honest_error sampleChain _ _, trivial⟩,
    fun _ h => absurd h List.not_mem_nil⟩, environment_sampleTrace p t⟩

omit [ScribeAbi] in
/-- The sample run ends with the cursor at block 12. -/
theorem run_sampleRetry : ∃ s, Run (@Step sampleAbi (Environment sampleChain))
    ⟨samplePoller 9 (some 2), .idle⟩ sampleRetry s ∧ s.poller.lastProcessesBlock = 12 := by
  obtain ⟨s, hrun, htest⟩ : ∃ s, Run (Takes (@step sampleAbi)) ⟨samplePoller 9 (some 2), .idle⟩
      sampleRetry s ∧ (s.poller.lastProcessesBlock == 12) = true :=
    exists_run_of_runSteps (fun s : PollerTask => s.poller.lastProcessesBlock == 12)
      (by decide +kernel)
  refine ⟨s, hrun.guarded ?_, eq_of_beq htest⟩
  intro l hl s e t q he _
  exact environment_sampleRetry _ _ e (List.mem_filterMap.mpr ⟨l, hl, by rw [he]⟩)

omit [ScribeAbi] in
theorem start_loses_no_log_sample : ∃ s, Run (@Step sampleAbi (Environment sampleChain))
    ⟨samplePoller 9 (some 2), .idle⟩ sampleRetry s ∧ s.poller.lastProcessesBlock = 12 ∧
      ∃ tx, (samplePoller 9 (some 2)).handlerChannels.get sampleAddress = some tx ∧
        sampleEvent 11 0 ∈ sentOn tx (answers sampleRetry) := by
  obtain ⟨s, hrun, hcur⟩ := run_sampleRetry
  refine ⟨s, hrun, hcur, ?_⟩
  refine (@start_loses_no_log sampleAbi _ _ _ _ (by decide) hrun).1 (sampleLog 11 0) ?_ ?_ ?_ ?_ _
    (tryFrom_sampleLog 11 0)
  · exact List.mem_cons_of_mem _ (List.mem_cons_of_mem _ List.mem_cons_self)
  · exact List.mem_cons_self
  · decide
  · rw [hcur]; decide

end PollerTask
end Challenger
