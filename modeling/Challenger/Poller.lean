import Challenger.Event
import Challenger.Lib.Async
import Challenger.Lib.Slices
import Challenger.Lib.While
import Mathlib.Data.List.AList

/-! # The events poller

The functions of the poller as programs over the requests they await: the two
RPC calls, the sends to the processors' channels and the metric. Blocks are
`u64`, with the wrapping arithmetic of a release build. A loop that never ends
makes no further request; it awaits `spin`, which has no answer. -/
namespace Challenger
open Lib

def maxAddressPerRequest : Nat := 10
def maxRetryCount : Nat := 5
def maxHistoryBlocks : UInt64 := 5

/-! ## What the poller awaits -/

structure Filter where
  address : List Address
  fromBlock : UInt64
  toBlock : UInt64
  eventSignature : List B256
  deriving DecidableEq

/-- The sending half of a processor's channel. -/
structure Sender where
  channel : Nat
  deriving DecidableEq

inductive PollOp where
  | getBlockNumber
  | getLogs (filter : Filter)
  | send (tx : Sender) (event : Event)
  | setLastScannedBlock (signer : Address) (block : Int64)
  | spin
  deriving DecidableEq

/-- A send fails on a closed channel, and gives the event back. -/
def PollOp.Ans : PollOp → Type
  | .getBlockNumber => Except PollProviderError UInt64
  | .getLogs _ => Except PollProviderError (List (Log LogData))
  | .send _ _ => Except Event Unit
  | .setLastScannedBlock _ _ => Unit
  | .spin => Empty

abbrev PollI : Interface := ⟨PollOp, PollOp.Ans⟩

instance : DecidableEq PollI.Op := inferInstanceAs (DecidableEq PollOp)

abbrev PollM (α : Type) := Async PollI α

namespace PollM

def getBlockNumber : PollM (Except PollProviderError UInt64) :=
  Async.request (I := PollI) .getBlockNumber

def getLogs (filter : Filter) : PollM (Except PollProviderError (List (Log LogData))) :=
  Async.request (I := PollI) (.getLogs filter)

def send (tx : Sender) (event : Event) : PollM (Except Event Unit) :=
  Async.request (I := PollI) (.send tx event)

def setLastScannedBlock (signer : Address) (block : Int64) : PollM Unit :=
  Async.request (I := PollI) (.setLastScannedBlock signer block)

def spin {α : Type} : PollM α := .await (I := PollI) .spin nofun

end PollM

/-! ## State -/

/-- The senders by contract address. Every processor reads from a channel of
its own, so no two addresses share one. -/
structure HandlerChannels where
  map : AList fun _ : Address => Sender
  injective : ∀ {a b tx}, map.lookup a = some tx → map.lookup b = some tx → a = b

def HandlerChannels.get (channels : HandlerChannels) (address : Address) : Option Sender :=
  channels.map.lookup address

namespace HandlerChannels

def empty : HandlerChannels where
  map := ∅
  injective h := by rw [AList.lookup_empty] at h; cases h

/-- Stores the sender of a channel no address uses yet. -/
def insert (channels : HandlerChannels) (address : Address) (tx : Sender)
    (fresh : ∀ a, channels.get a ≠ some tx) : HandlerChannels where
  map := channels.map.insert address tx
  injective {a b tx'} ha hb := by
    by_cases hab : a = address
    · by_cases hbb : b = address
      · rw [hab, hbb]
      · rw [hab, AList.lookup_insert] at ha
        rw [AList.lookup_insert_ne hbb, ← Option.some.inj ha] at hb
        exact absurd hb (fresh b)
    · rw [AList.lookup_insert_ne hab] at ha
      by_cases hbb : b = address
      · rw [hbb, AList.lookup_insert] at hb
        rw [← Option.some.inj hb] at ha
        exact absurd ha (fresh a)
      · rw [AList.lookup_insert_ne hbb] at hb
        exact channels.injective ha hb

@[simp] theorem get_empty (a : Address) : empty.get a = none := AList.lookup_empty a

theorem get_insert_self (channels : HandlerChannels) (address : Address) (tx : Sender)
    (fresh : ∀ a, channels.get a ≠ some tx) :
    (channels.insert address tx fresh).get address = some tx := AList.lookup_insert _

theorem get_insert_of_ne (channels : HandlerChannels) {address a : Address} (tx : Sender)
    (fresh : ∀ a, channels.get a ≠ some tx) (h : a ≠ address) :
    (channels.insert address tx fresh).get a = channels.get a := AList.lookup_insert_ne h

end HandlerChannels

/-- The poller; `fromAddress` is the signer it reports its metric for. The
addresses are the keys of the channel map in an arbitrary order. -/
structure Poller where
  fromAddress : Address
  addresses : List Address
  handlerChannels : HandlerChannels
  lastProcessesBlock : UInt64
  retryCount : Nat
  maxBlockRange : Option UInt64
  addresses_perm : addresses.Perm handlerChannels.map.keys

namespace Poller

def new (fromAddress : Address) (handlerChannels : HandlerChannels) (fromBlock : Option UInt64)
    (maxBlockRange : Option UInt64) (keys : List Address)
    (h : keys.Perm handlerChannels.map.keys) : Poller where
  fromAddress := fromAddress
  addresses := keys
  handlerChannels := handlerChannels
  lastProcessesBlock := fromBlock.getD 0
  retryCount := 0
  maxBlockRange := maxBlockRange
  addresses_perm := h

/-! ## One poll -/

def queryFilter (chunk : List Address) (fromBlock toBlock : UInt64) : Filter where
  address := chunk
  fromBlock := fromBlock
  toBlock := toBlock
  eventSignature := [OpPoked.signatureHash, OpPokeChallengedSuccessfully.signatureHash]

def queryLogs (chunk : List Address) (fromBlock toBlock : UInt64) :
    PollM (Except PollerError (List (Log LogData))) := do
  match ← PollM.getLogs (queryFilter chunk fromBlock toBlock) with
  | .error e => pure (.error (.providerError e))
  | .ok logs => pure (.ok logs)

/-- Sends the event to the channel of its address. -/
def sendLogForProcessing [ScribeAbi] (p : Poller) (log : Log LogData) :
    PollM (Except PollerError Unit) :=
  match Event.tryFrom log with
  | .error e => pure (.error (.contractError e))
  | .ok event =>
    match p.handlerChannels.get event.address with
    | none => pure (.error (.channelNotFound event.address))
    | some tx => do
      match ← PollM.send tx event with
      | .error event => pure (.error (.eventSendError event))
      | .ok () => pure (.ok ())

/-- The state of the loop that builds the sub-ranges. -/
structure RangeLoop where
  current : UInt64
  ranges : List (UInt64 × UInt64)

/-- `(current + max_blocks - 1).min(latest_block)` -/
def rangeEnd (maxBlocks latestBlock current : UInt64) : UInt64 :=
  min (current + maxBlocks - 1) latestBlock

def rangeBody (maxBlocks latestBlock : UInt64) (s : RangeLoop) : RangeLoop :=
  let last := rangeEnd maxBlocks latestBlock s.current
  { current := last + 1, ranges := s.ranges ++ [(s.current, last)] }

def rangeCond (latestBlock : UInt64) (s : RangeLoop) : Bool := s.current ≤ latestBlock

/-- Only `current` controls the loop, so one that does not end within as many
iterations as there are `u64` values never does. -/
def rangeLoopBound : Nat := UInt64.size

/-- The sub-ranges of one poll, `none` when the loop that builds them does not
end. -/
def ranges (p : Poller) (latestBlock : UInt64) : Option (List (UInt64 × UInt64)) :=
  match p.maxBlockRange with
  | none => some [(p.lastProcessesBlock, latestBlock)]
  | some maxBlocks =>
    (whileLoop (rangeCond latestBlock) (rangeBody maxBlocks latestBlock) rangeLoopBound
      ⟨p.lastProcessesBlock, []⟩).map RangeLoop.ranges

variable [ScribeAbi]

/-- One query and the sends it leads to. A log that cannot be sent is skipped,
a failed query ends the poll. -/
def pollRange (p : Poller) (chunk : List Address) (range : UInt64 × UInt64) :
    PollM (Except PollerError Unit) := do
  match ← queryLogs chunk range.1 range.2 with
  | .error e => pure (.error e)
  | .ok logs =>
    Async.forEach (fun log => do
      let _ ← p.sendLogForProcessing log
      pure (.ok ())) logs

def chunkAndPollLogs (p : Poller) (latestBlock : UInt64) : PollM (Except PollerError Unit) :=
  match p.ranges latestBlock with
  | none => PollM.spin
  | some ranges =>
    Async.forEach (fun chunk => Async.forEach (p.pollRange chunk) ranges)
      (chunks maxAddressPerRequest p.addresses)

/-- The first run starts a few blocks behind the head. -/
def firstRun (p : Poller) (latestBlock : UInt64) : Poller :=
  if p.lastProcessesBlock = 0 then { p with lastProcessesBlock := latestBlock - maxHistoryBlocks }
  else p

/-- The poll from the scan on. -/
def scan (p : Poller) (latestBlock : UInt64) : PollM (Except PollerError Unit × Poller) := do
  match ← p.chunkAndPollLogs latestBlock with
  | .error e => pure (.error e, p)
  | .ok () =>
    PollM.setLastScannedBlock p.fromAddress latestBlock.toInt64
    pure (.ok (), { p with lastProcessesBlock := latestBlock + 1 })

/-- The poller is returned with the result, because a failed poll keeps what
it has assigned. -/
def pollForNewEvents (p : Poller) : PollM (Except PollerError Unit × Poller) := do
  match ← PollM.getBlockNumber with
  | .error e => pure (.error (.providerError e), p)
  | .ok latestBlock =>
    let p := p.firstRun latestBlock
    if latestBlock ≤ p.lastProcessesBlock then pure (.ok (), p) else p.scan latestBlock

end Poller

/-- A poller of one address, whose channel is channel 0. -/
def samplePoller (fromBlock : UInt64) (maxBlockRange : Option UInt64) : Poller :=
  Poller.new 0 (HandlerChannels.empty.insert sampleAddress ⟨0⟩ (by intro a; nofun)) (some fromBlock)
    maxBlockRange [sampleAddress] (.refl _)

end Challenger
