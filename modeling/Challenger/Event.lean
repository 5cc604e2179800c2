import Challenger.Types
import Mathlib.Algebra.Group.Nat.Defs

/-! # Decoding logs into events

`Event.tryFrom` accepts a log by its first topic and decodes the payload with
the decoder the contract bindings generate. The decoders are outside the
repository: they are the class `ScribeAbi`. Decoding changes the payload only,
so an event keeps its log's address and place in the chain. -/
namespace Challenger

/-- The event decoders generated from the contract's ABI. -/
class ScribeAbi where
  decodeOpPoked : LogData → Except SolTypesError OpPoked
  decodeOpPokeChallengedSuccessfully : LogData → Except SolTypesError OpPokeChallengedSuccessfully

def OpPoked.signatureHash : B256 :=
  0xb9dc937c5e394d0c8f76e0e324500b88251b4c909ddc56232df10e2ea42b3c63

def OpPokeChallengedSuccessfully.signatureHash : B256 :=
  0xac50cef58b3aef7f7c30349f5e4a342a29d2325a02eafc8dacfdba391e6d5db3

/-- A hash as the errors print it. -/
def B256.toString (b : B256) : String :=
  "0x" ++ String.ofList ((List.range 64).map fun i => Nat.digitChar (b.toNat / 16 ^ (63 - i) % 16))

/-- Decodes the payload and keeps everything else. -/
def Log.logDecode {T : Type} (decode : LogData → Except SolTypesError T) (log : Log LogData) :
    Except SolTypesError (Log T) :=
  match decode log.data with
  | .error e => .error e
  | .ok data => .ok { log with data := data }

namespace Event

/-- The address of the contract that emitted the event. -/
def address : Event → Address
  | .opPoked log => log.address
  | .opPokeChallengedSuccessfully log => log.address

/-- Where in the chain the event's log sits. -/
def position : Event → Option UInt64 × Option UInt64
  | .opPoked log => log.position
  | .opPokeChallengedSuccessfully log => log.position

variable [ScribeAbi]

def tryFrom (log : Log LogData) : Except ContractError Event :=
  match log.topic0 with
  | none => .error (.topic0MissingForLog log.transactionHash log.address)
  | some topic =>
    if topic = OpPoked.signatureHash then
      match log.logDecode ScribeAbi.decodeOpPoked with
      | .error e => .error (.alloySolTypesError e)
      | .ok log => .ok (.opPoked log)
    else if topic = OpPokeChallengedSuccessfully.signatureHash then
      match log.logDecode ScribeAbi.decodeOpPokeChallengedSuccessfully with
      | .error e => .error (.alloySolTypesError e)
      | .ok log => .ok (.opPokeChallengedSuccessfully log)
    else .error (.unknownTopic0 topic.toString log.transactionHash log.address)

end Event

theorem Log.logDecode_ok {T : Type} {decode : LogData → Except SolTypesError T}
    {log : Log LogData} {log' : Log T} (h : log.logDecode decode = .ok log') :
    log'.address = log.address ∧ log'.position = log.position := by
  unfold Log.logDecode at h
  split at h
  · cases h
  · rw [← Except.ok.inj h]; exact ⟨rfl, rfl⟩

variable [ScribeAbi]

/-- An accepted log carries one of the two topics, and its event is at the
log's address and place in the chain. -/
theorem Event.tryFrom_ok {log : Log LogData} {ev : Event} (h : Event.tryFrom log = .ok ev) :
    (log.topic0 = some OpPoked.signatureHash ∨
      log.topic0 = some OpPokeChallengedSuccessfully.signatureHash) ∧
    ev.address = log.address ∧ ev.position = log.position := by
  unfold Event.tryFrom at h
  split at h
  · cases h
  · rename_i topic ht
    split at h
    · rename_i hp
      split at h
      · cases h
      · rename_i hd
        rw [← Except.ok.inj h]
        exact ⟨.inl (ht.trans (congrArg some hp)), Log.logDecode_ok hd⟩
    · split at h
      · rename_i hp
        split at h
        · cases h
        · rename_i hd
          rw [← Except.ok.inj h]
          exact ⟨.inr (ht.trans (congrArg some hp)), Log.logDecode_ok hd⟩
      · cases h

theorem Event.tryFrom_address {log : Log LogData} {ev : Event} (h : Event.tryFrom log = .ok ev) :
    ev.address = log.address := (Event.tryFrom_ok h).2.1

theorem Event.tryFrom_position {log : Log LogData} {ev : Event} (h : Event.tryFrom log = .ok ev) :
    ev.position = log.position := (Event.tryFrom_ok h).2.2

/-! ## The log of the repository's tests

Its payload as the node returns it, with the event it decodes to. -/

/-- A 32-byte word of ABI-encoded data. -/
def abiWord (n : Nat) : Bytes := (List.range 32).map fun i => UInt8.ofNat (n / 256 ^ (31 - i))

def sampleOpPoked : OpPoked where
  caller := 0x1f7acda376ef37ec371235a094113df9cb4efee1
  opFeed := 0x2b5ad5c4795c026514f8317c7a215e218dccd6cf
  schnorrData :=
    { signature := 0x5014fdeb8945691eced7992164c71f58912483580b6991637d3f37adf248e910
      commitment := 0xe1fdc6d86826238f87bb29e5f7d2731bb2a83641
      signersBlob := [0x2b, 0x68] }
  pokeData := { val := 0x42, age := 0x679c9c5c }

def sampleLogData : LogData where
  topics := [OpPoked.signatureHash, 0x1f7acda376ef37ec371235a094113df9cb4efee1,
    0x2b5ad5c4795c026514f8317c7a215e218dccd6cf]
  data := [0x60, 0x42, 0x679c9c5c,
    0x5014fdeb8945691eced7992164c71f58912483580b6991637d3f37adf248e910,
    0xe1fdc6d86826238f87bb29e5f7d2731bb2a83641, 0x60, 2, 0x2b68 * 256 ^ 30].flatMap abiWord

def sampleAddress : Address := 0x891e368fe81cba2ac6f6cc4b98e684c106e2ef4f

def sampleHash : TxHash := 0x53b5497d11e7682526cd996f33d6f20c81cfe3d24d0f459bfe07b6b3661d8a47

def sampleLog (block index : UInt64) : Log LogData where
  address := sampleAddress
  data := sampleLogData
  blockNumber := some block
  blockTimestamp := none
  transactionHash := some sampleHash
  logIndex := some index

/-- The decoders on the sample payload; any other payload is refused. -/
@[reducible] def sampleAbi : ScribeAbi where
  decodeOpPoked d := if d = sampleLogData then .ok sampleOpPoked else .error ⟨"invalid log"⟩
  decodeOpPokeChallengedSuccessfully _ := .error ⟨"invalid log"⟩

def sampleEvent (block index : UInt64) : Event :=
  .opPoked { sampleLog block index with data := sampleOpPoked }

omit [ScribeAbi] in
theorem tryFrom_sampleLog (block index : UInt64) :
    @Event.tryFrom sampleAbi (sampleLog block index) = .ok (sampleEvent block index) := by
  have htopic : (sampleLog block index).topic0 = some OpPoked.signatureHash := rfl
  have hdata : sampleAbi.decodeOpPoked (sampleLog block index).data = .ok sampleOpPoked :=
    if_pos rfl
  simp only [Event.tryFrom, htopic, if_true, Log.logDecode, hdata]
  rfl

end Challenger
