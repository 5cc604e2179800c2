import Challenger.Lib.Async
import Challenger.Types

/-! # The contract instance

The functions of `ScribeContractInstance` as programs over the calls they
await: the two providers, the contract's view functions, the clock and the
challenge counter. A challenge is submitted through the private relay first;
only when that did not succeed is it submitted to the public mempool, with a
nonce fetched for it. -/
namespace Challenger
open Lib Lib.Async

/-! ## What the contract instance awaits -/

/-- A call of `opChallenge` on a contract. -/
structure OpChallenge where
  contract : Address
  schnorrData : SchnorrData
  deriving DecidableEq

/-- A transaction of the signer's account. -/
structure Transaction where
  nonce : Nat
  call : OpChallenge
  deriving DecidableEq

inductive ExecutionStatus where
  | success
  | reverted
  deriving DecidableEq

structure Receipt where
  status : ExecutionStatus
  deriving DecidableEq

/-- `fill` and `sendRawTransaction` go to the private provider, `send` to the
public one. -/
inductive ContractOp where
  | fill (call : OpChallenge)
  | sendRawTransaction (tx : Transaction)
  | watch (txHash : TxHash)
  | getTransactionReceipt (txHash : TxHash)
  | getTransactionCount (signer : Address)
  | send (tx : Transaction)
  | getBlock (number : UInt64)
  | now
  | constructPokeMessage (contract : Address) (pokeData : PokeData)
  | isAcceptableSchnorrSignatureNow (contract : Address) (message : B256) (schnorrData : SchnorrData)
  | opChallengePeriod (contract : Address)
  | incChallengeCounter (contract : Address)
  deriving DecidableEq

/-- A filled request is an envelope, or a builder that still lacks something
(`none`). A block is its timestamp. -/
def ContractOp.Ans : ContractOp → Type
  | .fill _ => Except RpcError (Option Transaction)
  | .sendRawTransaction _ => Except RpcError TxHash
  | .watch _ => Except AlloyPendingTransactionError TxHash
  | .getTransactionReceipt _ => Except RpcError (Option Receipt)
  | .getTransactionCount _ => Except RpcError Nat
  | .send _ => Except AlloyContractError TxHash
  | .getBlock _ => Except RpcError (Option UInt64)
  | .now => UInt64
  | .constructPokeMessage _ _ => Except AlloyContractError B256
  | .isAcceptableSchnorrSignatureNow _ _ _ => Except AlloyContractError Bool
  | .opChallengePeriod _ => Except AlloyContractError UInt16
  | .incChallengeCounter _ => Unit

abbrev ContractI : Interface := ⟨ContractOp, ContractOp.Ans⟩

instance : DecidableEq ContractI.Op := inferInstanceAs (DecidableEq ContractOp)

abbrev ContractResult (α : Type) := Except ContractError α

abbrev ContractM (α : Type) := Async ContractI α

namespace ContractM

def fill (call : OpChallenge) : ContractM (Except RpcError (Option Transaction)) :=
  request (I := ContractI) (.fill call)

def sendRawTransaction (tx : Transaction) : ContractM (Except RpcError TxHash) :=
  request (I := ContractI) (.sendRawTransaction tx)

def watch (txHash : TxHash) : ContractM (Except AlloyPendingTransactionError TxHash) :=
  request (I := ContractI) (.watch txHash)

def getTransactionReceipt (txHash : TxHash) : ContractM (Except RpcError (Option Receipt)) :=
  request (I := ContractI) (.getTransactionReceipt txHash)

/-- The count at the pending block. -/
def getTransactionCount (signer : Address) : ContractM (Except RpcError Nat) :=
  request (I := ContractI) (.getTransactionCount signer)

def send (tx : Transaction) : ContractM (Except AlloyContractError TxHash) :=
  request (I := ContractI) (.send tx)

def getBlock (number : UInt64) : ContractM (Except RpcError (Option UInt64)) :=
  request (I := ContractI) (.getBlock number)

def now : ContractM UInt64 := request (I := ContractI) .now

def constructPokeMessage (contract : Address) (pokeData : PokeData) :
    ContractM (Except AlloyContractError B256) :=
  request (I := ContractI) (.constructPokeMessage contract pokeData)

def isAcceptableSchnorrSignatureNow (contract : Address) (message : B256)
    (schnorrData : SchnorrData) : ContractM (Except AlloyContractError Bool) :=
  request (I := ContractI) (.isAcceptableSchnorrSignatureNow contract message schnorrData)

def opChallengePeriod (contract : Address) : ContractM (Except AlloyContractError UInt16) :=
  request (I := ContractI) (.opChallengePeriod contract)

def incChallengeCounter (contract : Address) : ContractM Unit :=
  request (I := ContractI) (.incChallengeCounter contract)

end ContractM

/-- Of the private provider it only matters whether there is one. -/
structure ScribeContractInstance where
  address : Address
  privateProvider : Bool
  signerAddress : Address

namespace ScribeContractInstance
variable (c : ScribeContractInstance)

def wrapContractError {α : Type} : Except AlloyContractError α → ContractResult α
  | .error e => .error (.alloyContractError c.address e)
  | .ok a => .ok a

/-! ## Validation -/

def getTimestampFromBlock (blockNumber : UInt64) : ContractM (ContractResult UInt64) := do
  match ← ContractM.getBlock blockNumber with
  | .error e => pure (.error (.rpcError e))
  | .ok none => pure (.error (.failedToFetchBlock blockNumber))
  | .ok (some timestamp) => pure (.ok timestamp)

/-- The timestamp of the log, or else of its block. -/
def eventTimestamp (log : Log OpPoked) : ContractM (ContractResult UInt64) :=
  match log.blockTimestamp with
  | some timestamp => pure (.ok timestamp)
  | none =>
    match log.blockNumber with
    | none => pure (.error (.noBlockNumberInLog log.transactionHash))
    | some blockNumber => getTimestampFromBlock blockNumber

def isLogStale (log : Log OpPoked) (challengePeriod : UInt64) : ContractM (ContractResult Bool) := do
  match ← eventTimestamp log with
  | .error e => pure (.error e)
  | .ok eventTimestamp =>
    let currentTimestamp ← ContractM.now
    pure (.ok (decide (currentTimestamp - eventTimestamp > challengePeriod)))

def isSignatureValid (opPoked : OpPoked) : ContractM (ContractResult Bool) := do
  match c.wrapContractError (← ContractM.constructPokeMessage c.address opPoked.pokeData) with
  | .error e => pure (.error e)
  | .ok message =>
    let acceptable ←
      ContractM.isAcceptableSchnorrSignatureNow c.address message opPoked.schnorrData
    pure (c.wrapContractError acceptable)

def isOpPokeChallengeable (opPokedLog : Log OpPoked) (challengePeriod : UInt64) :
    ContractM (ContractResult Bool) := do
  match ← isLogStale opPokedLog challengePeriod with
  | .error e => pure (.error e)
  | .ok true => pure (.ok false)
  | .ok false =>
    match ← c.isSignatureValid opPokedLog.data with
    | .error e => pure (.error e)
    | .ok valid => pure (.ok !valid)

def getChallengePeriod : ContractM (ContractResult UInt16) := do
  let period ← ContractM.opChallengePeriod c.address
  pure (c.wrapContractError period)

/-! ## Challenging -/

def challengeWithPublic (schnorrData : SchnorrData) : ContractM (ContractResult TxHash) := do
  match ← ContractM.getTransactionCount c.signerAddress with
  | .error e => pure (.error (.rpcError e))
  | .ok nonce =>
    match c.wrapContractError (← ContractM.send ⟨nonce, ⟨c.address, schnorrData⟩⟩) with
    | .error e => pure (.error e)
    | .ok pendingTx =>
      match ← ContractM.watch pendingTx with
      | .error e => pure (.error (.pendingTransactionError c.address e))
      | .ok txHash => pure (.ok txHash)

/-- A failed watch does not mean that the transaction was dropped, so its
receipt is looked up before the caller falls back. -/
def challengeWithFlashbots (schnorrData : SchnorrData) : ContractM (ContractResult TxHash) :=
  if c.privateProvider then do
    match ← ContractM.fill ⟨c.address, schnorrData⟩ with
    | .error e => pure (.error (.rpcError e))
    | .ok none => pure (.error (.privateTransactionBuildError c.address))
    | .ok (some envelope) =>
      match ← ContractM.sendRawTransaction envelope with
      | .error e => pure (.error (.rpcError e))
      | .ok privateTxHash =>
        match ← ContractM.watch privateTxHash with
        | .ok txHash => pure (.ok txHash)
        | .error e =>
          match ← ContractM.getTransactionReceipt privateTxHash with
          | .ok (some _) => pure (.ok privateTxHash)
          | _ => pure (.error (.pendingTransactionError c.address e))
  else pure (.error (.missingPrivateProvider c.address))

def challenge (schnorrData : SchnorrData) : ContractM (ContractResult TxHash) := do
  match ← c.challengeWithFlashbots schnorrData with
  | .ok txHash => pure (.ok txHash)
  | .error _ => c.challengeWithPublic schnorrData

/-- What a spawned task does with the result of its challenge. -/
def reportChallenge : ContractResult TxHash → ContractM Unit
  | .ok _ => ContractM.incChallengeCounter c.address
  | .error _ => pure ()

end ScribeContractInstance
end Challenger
