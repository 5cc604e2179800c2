/-! # Logs, events and errors

The data the challenger passes around: RPC logs as alloy represents them, the
two `ScribeOptimistic` events it decodes, and the errors its functions return.
Errors of foreign crates are opaque messages. -/
namespace Challenger

abbrev Address := BitVec 160
abbrev B256 := BitVec 256
abbrev TxHash := B256
abbrev Bytes := List UInt8

/-! ## Logs -/

structure LogData where
  topics : List B256
  data : Bytes
  deriving DecidableEq

/-- An RPC log with its payload: `LogData` before decoding, an event after. -/
structure Log (T : Type) where
  address : Address
  data : T
  blockNumber : Option UInt64
  blockTimestamp : Option UInt64
  transactionHash : Option TxHash
  logIndex : Option UInt64
  deriving DecidableEq

def Log.topic0 (log : Log LogData) : Option B256 := log.data.topics.head?

/-- Where in the chain a log sits. -/
def Log.position {T : Type} (log : Log T) : Option UInt64 × Option UInt64 :=
  (log.blockNumber, log.logIndex)

/-! ## Events of the contract -/

structure SchnorrData where
  signature : B256
  commitment : Address
  signersBlob : Bytes
  deriving DecidableEq

structure PokeData where
  val : BitVec 128
  age : UInt32
  deriving DecidableEq

structure OpPoked where
  caller : Address
  opFeed : Address
  schnorrData : SchnorrData
  pokeData : PokeData
  deriving DecidableEq

structure OpPokeChallengedSuccessfully where
  caller : Address
  schnorrErr : Bytes
  deriving DecidableEq

inductive Event where
  | opPoked (log : Log OpPoked)
  | opPokeChallengedSuccessfully (log : Log OpPokeChallengedSuccessfully)
  deriving DecidableEq

/-! ## Errors -/

structure SolTypesError where
  message : String
  deriving DecidableEq

structure RpcError where
  message : String
  deriving DecidableEq

structure AlloyContractError where
  message : String
  deriving DecidableEq

structure AlloyPendingTransactionError where
  message : String
  deriving DecidableEq

inductive ContractError where
  | topic0MissingForLog (txHash : Option TxHash) (address : Address)
  | unknownTopic0 (topic : String) (txHash : Option TxHash) (address : Address)
  | alloySolTypesError (source : SolTypesError)
  | alloyContractError (address : Address) (source : AlloyContractError)
  | pendingTransactionError (address : Address) (source : AlloyPendingTransactionError)
  | privateTransactionBuildError (address : Address)
  | rpcError (source : RpcError)
  | missingPrivateProvider (address : Address)
  | noBlockNumberInLog (txHash : Option TxHash)
  | failedToFetchBlock (blockNumber : UInt64)
  deriving DecidableEq

inductive ProcessorError where
  | contractError (source : ContractError)
  | challengePeriodNotInitialized (address : Address)
  deriving DecidableEq

inductive PollProviderError where
  | rpcError (source : RpcError)
  deriving DecidableEq

inductive PollerError where
  | eventSendError (event : Event)
  | maxRetryAttemptsExceeded (attempts : Nat)
  | providerError (source : PollProviderError)
  | contractError (source : ContractError)
  | channelNotFound (address : Address)
  deriving DecidableEq

end Challenger
