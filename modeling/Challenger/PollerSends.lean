import Challenger.PollerRanges

/-! # What a poll sends

The node's chain is a list of mined logs in chain order, and `getLogs` selects
from it. Against an environment that answers queries from the chain, or fails
them, and keeps the channels open (`Honest`), every execution of a poll sends
a prefix of `plannedSends`, and a poll that returns `Ok` sends all of it. -/
namespace Challenger
open Lib Lib.Async

/-! ## The chain and the node -/

/-- The block of a log as a natural. -/
def Log.block {T : Type} (log : Log T) : Nat := (log.blockNumber.getD 0).toNat

/-- The index of a log in its block as a natural. -/
def Log.index {T : Type} (log : Log T) : Nat := (log.logIndex.getD 0).toNat

/-- The mined logs in chain order: by block, and by index within a block. -/
structure Chain where
  logs : List (Log LogData)
  mined : ∀ log ∈ logs, log.blockNumber ≠ none ∧ log.logIndex ≠ none
  ordered : logs.Pairwise fun x y => x.block < y.block ∨ x.block = y.block ∧ x.index < y.index

/-- Address set, topic set and inclusive block range of a filter. -/
def Filter.matches (f : Filter) (log : Log LogData) : Bool :=
  decide (log.address ∈ f.address) &&
  (match log.topic0 with
    | none => false
    | some topic => decide (topic ∈ f.eventSignature)) &&
  decide (f.fromBlock.toNat ≤ log.block ∧ log.block ≤ f.toBlock.toNat)

theorem Filter.matches_iff {f : Filter} {log : Log LogData} :
    f.matches log = true ↔ log.address ∈ f.address ∧
      (∃ topic, log.topic0 = some topic ∧ topic ∈ f.eventSignature) ∧
      f.fromBlock.toNat ≤ log.block ∧ log.block ≤ f.toBlock.toNat := by
  unfold Filter.matches
  cases log.topic0 <;> simp [and_assoc]

/-- The filter asks for the logs of an address in a block. -/
def Filter.covers (a : Address) (b : Nat) (f : Filter) : Bool :=
  a ∈ f.address ∧ f.fromBlock.toNat ≤ b ∧ b ≤ f.toBlock.toNat

def Chain.getLogs (chain : Chain) (f : Filter) : List (Log LogData) :=
  chain.logs.filter f.matches

theorem Chain.sorted (chain : Chain) : chain.logs.Pairwise fun x y => x.block ≤ y.block :=
  chain.ordered.imp fun h => by omega

/-- Three sample logs in two blocks. -/
def sampleChain : Chain where
  logs := [sampleLog 10 1, sampleLog 10 2, sampleLog 11 0]
  mined := by decide
  ordered := by decide

/-- The node's answer to a query. -/
def Chain.answer (chain : Chain) (f : Filter) : PollI.Event := ⟨.getLogs f, .ok (chain.getLogs f)⟩

/-- What is assumed of an answer: a query that succeeds returns exactly the
matching logs, and no channel is closed. -/
def Honest (chain : Chain) : PollI.Event → Prop
  | ⟨.getLogs f, r⟩ => ∀ logs, r = .ok logs → logs = chain.getLogs f
  | ⟨.send _ _, r⟩ => r = .ok ()
  | ⟨.getBlockNumber, _⟩ => True
  | ⟨.setLastScannedBlock _ _, _⟩ => True
  | ⟨.spin, _⟩ => True

theorem honest_answer (chain : Chain) (f : Filter) : Honest chain (chain.answer f) :=
  fun _ h => (Except.ok.inj h).symm

theorem honest_error (chain : Chain) (f : Filter) (e : PollProviderError) :
    Honest chain ⟨.getLogs f, .error e⟩ := fun _ h => by cases h

/-- The events an answered request puts on a channel. -/
def sent : PollI.Event → List (Sender × Event)
  | ⟨.send tx event, .ok _⟩ => [(tx, event)]
  | _ => []

/-- The events a trace puts on one channel, in order. -/
def sentOn (tx : Sender) (t : List PollI.Event) : List Event :=
  (t.flatMap sent).filterMap fun s => if s.1 = tx then some s.2 else none

@[simp] theorem sentOn_append (tx : Sender) (t u : List PollI.Event) :
    sentOn tx (t ++ u) = sentOn tx t ++ sentOn tx u := by
  simp [sentOn]

namespace Poller
variable [ScribeAbi] {chain : Chain}

/-! ## Sends of one log, of one query, of one poll -/

/-- The send a log leads to, none when it does not decode or has no channel. -/
def sendsOf (p : Poller) (log : Log LogData) : List (Sender × Event) :=
  match Event.tryFrom log with
  | .error _ => []
  | .ok event =>
    match p.handlerChannels.get event.address with
    | none => []
    | some tx => [(tx, event)]

theorem sendLogForProcessing_exec {p : Poller} {log : Log LogData} {t q}
    (ht : ∀ e ∈ t, Honest chain e) (h : Exec (p.sendLogForProcessing log) t q) :
    t.flatMap sent <+: p.sendsOf log ∧ ((∃ a, q = .done a) → t.flatMap sent = p.sendsOf log) := by
  unfold sendLogForProcessing at h
  unfold sendsOf
  cases hev : Event.tryFrom log with
  | error e =>
    rw [hev] at h
    obtain ⟨rfl, rfl⟩ := Exec.done_inv h
    simp
  | ok event =>
    cases hch : p.handlerChannels.get event.address with
    | none =>
      simp only [hev, hch] at h ⊢
      obtain ⟨rfl, rfl⟩ := Exec.done_inv h
      simp
    | some tx =>
      simp only [hev, hch] at h ⊢
      rcases Exec.await_inv h with ⟨rfl, rfl⟩ | ⟨r, u, rfl, hu⟩
      · simp
      · obtain rfl : r = .ok () := ht _ List.mem_cons_self
        obtain ⟨rfl, -⟩ := Exec.done_inv hu
        simp [sent]

/-- The body of the loop over the logs of a query. -/
theorem sendBody_exec {p : Poller} {log : Log LogData} {t q}
    (ht : ∀ e ∈ t, Honest chain e)
    (h : Exec (do let _ ← p.sendLogForProcessing log; pure (.ok ()) : PollM (Except PollerError Unit))
      t q) :
    t.flatMap sent <+: p.sendsOf log ∧ (q = .done (.ok ()) → t.flatMap sent = p.sendsOf log) := by
  rcases Exec.bind_inv h with ⟨op, k, hq, rfl⟩ | ⟨u, v, a, rfl, hu, hv⟩
  · exact ⟨(sendLogForProcessing_exec ht hq).1, fun h => absurd h await_ne_done⟩
  · obtain ⟨rfl, rfl⟩ := Exec.done_inv hv
    rw [List.append_nil] at ht ⊢
    obtain ⟨hp, hd⟩ := sendLogForProcessing_exec ht hu
    exact ⟨hp, fun _ => hd ⟨a, rfl⟩⟩

/-- The sends one query leads to. -/
def rangeSends (p : Poller) (chain : Chain) (chunk : List Address) (range : UInt64 × UInt64) :
    List (Sender × Event) :=
  (chain.getLogs (queryFilter chunk range.1 range.2)).flatMap p.sendsOf

theorem pollRange_exec {p : Poller} {chunk : List Address} {range : UInt64 × UInt64} {t q}
    (ht : ∀ e ∈ t, Honest chain e) (h : Exec (p.pollRange chunk range) t q) :
    t.flatMap sent <+: p.rangeSends chain chunk range ∧
      (q = .done (.ok ()) → t.flatMap sent = p.rangeSends chain chunk range) := by
  rcases Exec.await_inv h with ⟨rfl, rfl⟩ | ⟨r, u, rfl, hu⟩
  · exact ⟨List.nil_prefix, fun he => by cases he⟩
  · rw [List.flatMap_cons, show sent ⟨.getLogs _, r⟩ = [] from rfl, List.nil_append]
    have hr := ht _ List.mem_cons_self
    have hu' : ∀ e ∈ u, Honest chain e := fun e he => ht e (List.mem_cons_of_mem _ he)
    cases r with
    | error e =>
      obtain ⟨rfl, rfl⟩ := Exec.done_inv hu
      exact ⟨List.nil_prefix, fun he => by cases he⟩
    | ok logs =>
      obtain rfl := hr logs rfl
      refine ⟨emitsPrefix_forEach (fun log _ v hv hr => (sendBody_exec hv hr).2 rfl)
        (fun log _ v q hv hr => (sendBody_exec hv hr).1) u q hu' hu, ?_⟩
      intro hq
      exact emits_forEach (fun log _ v hv hr => (sendBody_exec hv hr).2 rfl) u hu'
        (by rw [Returns, ← hq]; exact hu)

/-- What a scan emits, when it is known what each of its queries does. -/
theorem chunkAndPollLogs_emits {β : Type} {env : PollI.Event → Prop} {out : PollI.Event → List β}
    {p : Poller} {g : List Address → UInt64 × UInt64 → List β}
    (hok : ∀ chunk range, Emits env out (p.pollRange chunk range) (.ok ()) (g chunk range))
    (hpre : ∀ chunk range, EmitsPrefix env out (p.pollRange chunk range) (g chunk range))
    {latestBlock : UInt64} {t q} (ht : ∀ e ∈ t, env e)
    (h : Exec (p.chunkAndPollLogs latestBlock) t q) :
    (t = [] ∧ q = PollM.spin ∧ p.ranges latestBlock = none) ∨
      ∃ rs, p.ranges latestBlock = some rs ∧
        t.flatMap out <+: (chunks maxAddressPerRequest p.addresses).flatMap
          (fun chunk => rs.flatMap (g chunk)) ∧
        (q = .done (.ok ()) → t.flatMap out = (chunks maxAddressPerRequest p.addresses).flatMap
          fun chunk => rs.flatMap (g chunk)) := by
  unfold chunkAndPollLogs at h
  split at h
  · rename_i hn
    rcases Exec.await_inv h with ⟨rfl, rfl⟩ | ⟨r, -⟩
    · exact .inl ⟨rfl, rfl, hn⟩
    · exact r.elim
  · rename_i rs hs
    have hchunk : ∀ chunk, Emits env out (Async.forEach (p.pollRange chunk) rs) (.ok ())
        (rs.flatMap (g chunk)) := fun chunk => emits_forEach fun range _ => hok chunk range
    have hchunk' : ∀ chunk, EmitsPrefix env out (Async.forEach (p.pollRange chunk) rs)
        (rs.flatMap (g chunk)) := fun chunk =>
      emitsPrefix_forEach (fun range _ => hok chunk range) fun range _ => hpre chunk range
    refine .inr ⟨rs, hs, emitsPrefix_forEach (fun c _ => hchunk c) (fun c _ => hchunk' c) t q ht h, ?_⟩
    intro hq
    exact emits_forEach (fun c _ => hchunk c) t ht (by rw [Returns, ← hq]; exact h)

/-- Everything a poll over these sub-ranges sends when no query fails. -/
def plannedSends (p : Poller) (chain : Chain) (ranges : List (UInt64 × UInt64)) :
    List (Sender × Event) :=
  (chunks maxAddressPerRequest p.addresses).flatMap fun chunk =>
    ranges.flatMap fun range => p.rangeSends chain chunk range

theorem chunkAndPollLogs_exec {p : Poller} {latestBlock : UInt64} {t q}
    (ht : ∀ e ∈ t, Honest chain e) (h : Exec (p.chunkAndPollLogs latestBlock) t q) :
    (t = [] ∧ q = PollM.spin ∧ p.ranges latestBlock = none) ∨
      ∃ rs, p.ranges latestBlock = some rs ∧ t.flatMap sent <+: p.plannedSends chain rs ∧
        (q = .done (.ok ()) → t.flatMap sent = p.plannedSends chain rs) :=
  chunkAndPollLogs_emits (g := fun chunk range => p.rangeSends chain chunk range)
    (fun _ _ _ hv hr => (pollRange_exec hv hr).2 rfl)
    (fun _ _ _ _ hv hr => (pollRange_exec hv hr).1) ht h

/-! ## A whole poll -/

omit [ScribeAbi] in
theorem firstRun_of_ne {p : Poller} (h : p.lastProcessesBlock ≠ 0) (latestBlock : UInt64) :
    p.firstRun latestBlock = p := if_neg h

/-- All a scan can do: it is under way, it failed on a query, or it went
through every query and moved the cursor past the head. -/
inductive ScanCases (p : Poller) (latestBlock : UInt64) :
    List PollI.Event → PollM (Except PollerError Unit × Poller) → Prop where
  | running {t : List PollI.Event} {q q'} (ht : Exec (p.chunkAndPollLogs latestBlock) t q)
      (hq : ∀ a, q' ≠ .done a) : ScanCases p latestBlock t q'
  | failed {t : List PollI.Event} {e : PollerError}
      (ht : Returns (p.chunkAndPollLogs latestBlock) t (.error e)) :
      ScanCases p latestBlock t (.done (.error e, p))
  | scanned {t : List PollI.Event} (ht : Returns (p.chunkAndPollLogs latestBlock) t (.ok ())) :
      ScanCases p latestBlock
        (t ++ [⟨.setLastScannedBlock p.fromAddress latestBlock.toInt64, ()⟩])
        (.done (.ok (), { p with lastProcessesBlock := latestBlock + 1 }))

theorem scan_cases {p : Poller} {latestBlock : UInt64} {t q}
    (h : Exec (p.scan latestBlock) t q) : ScanCases p latestBlock t q := by
  rcases Exec.bind_inv h with ⟨op, k, hq, rfl⟩ | ⟨u, v, a, rfl, hu, hv⟩
  · exact .running hq fun _ => await_ne_done
  · cases a with
    | error e =>
      obtain ⟨rfl, rfl⟩ := Exec.done_inv hv
      rw [List.append_nil]
      exact .failed hu
    | ok _ =>
      rcases Exec.await_inv hv with ⟨rfl, rfl⟩ | ⟨_, w, rfl, hw⟩
      · rw [List.append_nil]
        exact .running hu fun _ => await_ne_done
      · obtain ⟨rfl, rfl⟩ := Exec.done_inv hw
        exact .scanned hu

/-- All a poll can do: it waits for the head, fails on it, finds nothing to
scan, or scans up to the head. -/
inductive PollCases (p : Poller) :
    List PollI.Event → PollM (Except PollerError Unit × Poller) → Prop where
  | start : PollCases p [] p.pollForNewEvents
  | noHead (e : PollProviderError) :
      PollCases p [⟨.getBlockNumber, .error e⟩] (.done (.error (.providerError e), p))
  | skip (latestBlock : UInt64) (h : latestBlock ≤ (p.firstRun latestBlock).lastProcessesBlock) :
      PollCases p [⟨.getBlockNumber, .ok latestBlock⟩] (.done (.ok (), p.firstRun latestBlock))
  | scan (latestBlock : UInt64) {t : List PollI.Event} {q}
      (h : ¬ latestBlock ≤ (p.firstRun latestBlock).lastProcessesBlock)
      (ht : ScanCases (p.firstRun latestBlock) latestBlock t q) :
      PollCases p (⟨.getBlockNumber, .ok latestBlock⟩ :: t) q

theorem pollForNewEvents_cases {p : Poller} {t q} (h : Exec p.pollForNewEvents t q) :
    PollCases p t q := by
  rcases Exec.await_inv h with ⟨rfl, rfl⟩ | ⟨r, u, rfl, hu⟩
  · exact .start
  · cases r with
    | error e =>
      obtain ⟨rfl, rfl⟩ := Exec.done_inv hu
      exact .noHead e
    | ok latestBlock =>
      change Exec (if latestBlock ≤ (p.firstRun latestBlock).lastProcessesBlock then
        pure (.ok (), p.firstRun latestBlock) else (p.firstRun latestBlock).scan latestBlock) u q at hu
      split at hu
      · obtain ⟨rfl, rfl⟩ := Exec.done_inv hu
        exact .skip latestBlock ‹_›
      · exact .scan latestBlock ‹_› (scan_cases hu)

/-! ## Successful, failed and unfinished polls -/

omit [ScribeAbi] in
/-- An RPC call that failed. -/
def QueryFailed : PollI.Event → Prop
  | ⟨.getLogs _, .error _⟩ => True
  | ⟨.getBlockNumber, .error _⟩ => True
  | _ => False

/-- The head a poll read, when it got one. -/
def headRead (t : List PollI.Event) : Option UInt64 :=
  match t.head? with
  | some ⟨.getBlockNumber, .ok latestBlock⟩ => some latestBlock
  | _ => none

omit [ScribeAbi] in
theorem mem_of_headRead {t : List PollI.Event} {latestBlock : UInt64}
    (h : headRead t = some latestBlock) : ⟨.getBlockNumber, .ok latestBlock⟩ ∈ t := by
  unfold headRead at h
  split at h
  · rename_i b hb
    rw [← Option.some.inj h]
    exact List.mem_of_mem_head? hb
  · cases h

/-- The cursor after a successful poll that read the head `latestBlock`. -/
def nextCursor (cursor latestBlock : UInt64) : UInt64 :=
  if latestBlock ≤ cursor then cursor else latestBlock + 1

theorem pollRange_failsAt (p : Poller) (chunk : List Address) (range : UInt64 × UInt64) :
    FailsAt QueryFailed (p.pollRange chunk range) := by
  intro t e h
  obtain ⟨r, u, rfl, hu⟩ := returns_await.mp h
  cases r with
  | error e' =>
    obtain ⟨rfl, -⟩ := returns_done.mp hu
    exact ⟨[], _, rfl, trivial⟩
  | ok logs =>
    -- the loop over the logs swallows every error
    obtain ⟨ys, log, zs, v, w, -, -, -, hw⟩ := returns_forEach_error hu
    obtain ⟨w₁, w₂, a, -, -, hd⟩ := returns_bind.mp hw
    cases (returns_done.mp hd).2

theorem chunkAndPollLogs_failsAt (p : Poller) (latestBlock : UInt64) :
    FailsAt QueryFailed (p.chunkAndPollLogs latestBlock) := by
  unfold chunkAndPollLogs
  split
  · intro t e h
    obtain ⟨r, -⟩ := returns_await.mp h
    exact r.elim
  · exact failsAt_forEach fun chunk _ => failsAt_forEach fun range _ =>
      p.pollRange_failsAt chunk range

/-- A failed poll ends at the call that failed and keeps a cursor that was
set. -/
theorem pollForNewEvents_error {p p' : Poller} {t : List PollI.Event} {e : PollerError}
    (hs : p.lastProcessesBlock ≠ 0) (h : Returns p.pollForNewEvents t (.error e, p')) :
    p' = p ∧ ∃ u x, t = u ++ [x] ∧ QueryFailed x := by
  cases pollForNewEvents_cases h with
  | noHead e => exact ⟨rfl, [], _, rfl, trivial⟩
  | @scan latestBlock t _ hlt hscan =>
    rw [firstRun_of_ne hs] at hscan
    cases hscan with
    | running _ hq => exact absurd rfl (hq _)
    | failed hu =>
      obtain ⟨u, x, rfl, hx⟩ := p.chunkAndPollLogs_failsAt latestBlock _ _ hu
      exact ⟨rfl, _ :: u, x, rfl, hx⟩

/-- A scan that completes has sent everything it planned over sub-ranges that
were built. -/
theorem chunkAndPollLogs_ok {p : Poller} {latestBlock : UInt64} {t : List PollI.Event}
    (ht : ∀ e ∈ t, Honest chain e) (h : Returns (p.chunkAndPollLogs latestBlock) t (.ok ())) :
    ∃ rs, p.ranges latestBlock = some rs ∧ t.flatMap sent = p.plannedSends chain rs := by
  rcases chunkAndPollLogs_exec ht h with ⟨-, hq, -⟩ | ⟨rs, hrs, -, hok⟩
  · cases hq
  · exact ⟨rs, hrs, hok rfl⟩

/-- A successful poll moves the cursor by the head it read. It sent nothing,
or everything it planned. -/
theorem pollForNewEvents_ok {p p' : Poller} {t : List PollI.Event} (hs : p.lastProcessesBlock ≠ 0)
    (ht : ∀ e ∈ t, Honest chain e) (h : Returns p.pollForNewEvents t (.ok (), p')) :
    ∃ latestBlock, headRead t = some latestBlock ∧
      p' = { p with lastProcessesBlock := nextCursor p.lastProcessesBlock latestBlock } ∧
      (latestBlock ≤ p.lastProcessesBlock ∧ t.flatMap sent = [] ∨
        ¬ latestBlock ≤ p.lastProcessesBlock ∧ ∃ rs, p.ranges latestBlock = some rs ∧
          t.flatMap sent = p.plannedSends chain rs) := by
  cases pollForNewEvents_cases h with
  | skip latestBlock hle =>
    rw [firstRun_of_ne hs] at hle ⊢
    exact ⟨latestBlock, rfl, by rw [nextCursor, if_pos hle], .inl ⟨hle, rfl⟩⟩
  | scan latestBlock hlt hscan =>
    rw [firstRun_of_ne hs] at hlt hscan
    cases hscan with
    | running _ hq => exact absurd rfl (hq _)
    | scanned hu =>
      obtain ⟨rs, hrs, hsent⟩ := chunkAndPollLogs_ok (fun e he => ht e (by simp [he])) hu
      refine ⟨latestBlock, rfl, by rw [nextCursor, if_neg hlt], .inr ⟨hlt, rs, hrs, ?_⟩⟩
      rw [← hsent]
      simp [sent]

/-- A poll at any point has sent nothing, or a prefix of what it planned. -/
theorem pollForNewEvents_exec {p : Poller} {t : List PollI.Event} {q}
    (hs : p.lastProcessesBlock ≠ 0) (ht : ∀ e ∈ t, Honest chain e)
    (h : Exec p.pollForNewEvents t q) :
    t.flatMap sent = [] ∨ ∃ latestBlock rs, headRead t = some latestBlock ∧
      ¬ latestBlock ≤ p.lastProcessesBlock ∧ p.ranges latestBlock = some rs ∧
      t.flatMap sent <+: p.plannedSends chain rs := by
  cases pollForNewEvents_cases h with
  | start => exact .inl rfl
  | noHead e => exact .inl rfl
  | skip latestBlock _ => exact .inl rfl
  | @scan latestBlock t _ hlt hscan =>
    rw [firstRun_of_ne hs] at hlt hscan
    have hscan : ∃ u q', Exec (p.chunkAndPollLogs latestBlock) u q' ∧
        t.flatMap sent = u.flatMap sent ∧ ∀ e ∈ u, e ∈ t := by
      cases hscan with
      | running hu _ => exact ⟨_, _, hu, rfl, fun _ he => he⟩
      | failed hu => exact ⟨_, _, hu, rfl, fun _ he => he⟩
      | scanned hu => exact ⟨_, _, hu, by simp [sent], fun _ he => List.mem_append_left _ he⟩
    obtain ⟨u, q', hu, hsent, hmem⟩ := hscan
    rw [List.flatMap_cons, show sent ⟨.getBlockNumber, .ok latestBlock⟩ = [] from rfl,
      List.nil_append, hsent]
    rcases chunkAndPollLogs_exec (fun e he => ht e (List.mem_cons_of_mem _ (hmem e he))) hu with
      ⟨rfl, -, -⟩ | ⟨rs, hrs, hpre, -⟩
    · exact .inl rfl
    · exact .inr ⟨latestBlock, rs, rfl, hlt, hrs, hpre⟩

end Poller
end Challenger
