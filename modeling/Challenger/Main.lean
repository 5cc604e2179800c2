import Challenger.Challenge
import Challenger.Lib.Dedup
import Challenger.PollerDelivery
import Mathlib.Data.String.Basic

/-! # Start-up

`main` removes repetitions from the address arguments, parses them, and spawns
a processor for each with a channel whose sender it keeps by address. The
repetitions are looked for among the strings. So the processors are one for
each contract, and all connected, exactly when no two different arguments are
the same address (`main_wired_iff`). -/
namespace Challenger
open Lib
open ScribeContractInstance (sampleSigner)

/-- The arguments that start-up reads. -/
structure Cli where
  addresses : List String
  flashbotRpcUrl : Option String
  fromBlock : Option UInt64
  maxBlockRange : Option UInt64

/-- The processors spawned so far with the senders of their channels, and the
senders kept by address. -/
structure Spawned where
  set : List (ScribeContractInstance × Sender)
  processors : HandlerChannels
  opened : ∀ {a tx}, processors.get a = some tx → tx.channel < set.length

namespace Spawned

def empty : Spawned where
  set := []
  processors := .empty
  opened h := by rw [HandlerChannels.get_empty] at h; cases h

/-- The next channel is new. -/
theorem fresh (s : Spawned) (a : Address) : s.processors.get a ≠ some ⟨s.set.length⟩ :=
  fun h => (s.opened h).false

end Spawned

/-- The order in which a map lists its keys, which is arbitrary. -/
abbrev KeyOrder :=
  (channels : HandlerChannels) → { keys : List Address // keys.Perm channels.map.keys }

namespace Main

/-! ## The addresses -/

section
variable (parse : String → Except String Address)

def parseAddress (a : String) : Except String Address :=
  match parse a with
  | .error e => .error s!"Invalid address '{a}': {e}"
  | .ok address => .ok address

/-- `addresses.sort()`, `addresses.dedup()` -/
def dedup (addresses : List String) : List String :=
  (addresses.insertionSort (· ≤ ·)).destutter (· ≠ ·)

def addresses (args : Cli) : Except String (List Address) :=
  (dedup args.addresses).mapM (parseAddress parse)

end

/-! ## The spawning loop -/

/-- One turn of the loop: a processor over a new channel, whose sender
replaces the one kept for the address, if any. -/
def spawn (privateProvider : Bool) (signer : Address) (s : Spawned) (address : Address) : Spawned where
  set := s.set ++ [(⟨address, privateProvider, signer⟩, ⟨s.set.length⟩)]
  processors := s.processors.insert address ⟨s.set.length⟩ s.fresh
  opened {a tx} h := by
    rw [List.length_append, List.length_singleton]
    by_cases ha : a = address
    · rw [ha, HandlerChannels.get_insert_self] at h
      rw [← Option.some.inj h]
      exact Nat.lt_succ_self _
    · rw [HandlerChannels.get_insert_of_ne _ _ _ ha] at h
      exact (s.opened h).trans (Nat.lt_succ_self _)

def spawnAll (privateProvider : Bool) (signer : Address) (addresses : List Address) : Spawned :=
  addresses.foldl (spawn privateProvider signer) .empty

end Main

/-- The processors and the poller, as `main` lets them run. -/
structure Wiring where
  set : List (ScribeContractInstance × Sender)
  poller : Poller

def main (parse : String → Except String Address) (keyOrder : KeyOrder) (signer : Address)
    (args : Cli) : Except String Wiring := do
  let addresses ← Main.addresses parse args
  let spawned := Main.spawnAll args.flashbotRpcUrl.isSome signer addresses
  let keys := keyOrder spawned.processors
  pure ⟨spawned.set, .new signer spawned.processors args.fromBlock args.maxBlockRange keys.1 keys.2⟩

/-- One connected processor for each of the contracts: as many as there are
different addresses, each with the sender that is kept for its address, and
the poller asks for each address once. -/
structure Wiring.Wired (addresses : List Address) (m : Wiring) : Prop where
  count : m.set.length = addresses.dedup.length
  connected : ∀ contract tx, (contract, tx) ∈ m.set →
    m.poller.handlerChannels.get contract.address = some tx
  nodup : m.poller.addresses.Nodup
  mem : ∀ a, a ∈ m.poller.addresses ↔ a ∈ addresses

namespace Main

/-! ## What the loop leaves -/

section
variable {privateProvider : Bool} {signer : Address}

theorem spawnAll_snoc (l : List Address) (a : Address) :
    spawnAll privateProvider signer (l ++ [a]) =
      spawn privateProvider signer (spawnAll privateProvider signer l) a := List.foldl_append ..

theorem spawnAll_addresses (l : List Address) :
    (spawnAll privateProvider signer l).set.map (fun s => s.1.address) = l := by
  induction l using List.reverseRecOn with
  | nil => rfl
  | append_singleton l a ih => rw [spawnAll_snoc, spawn, List.map_append, ih]; rfl

theorem length_spawnAll (l : List Address) :
    (spawnAll privateProvider signer l).set.length = l.length := by
  have h := congrArg List.length (spawnAll_addresses l : (spawnAll privateProvider signer l).set.map _ = l)
  rwa [List.length_map] at h

/-- A sender is kept for an address exactly when a processor was spawned for
it. -/
theorem spawnAll_kept (l : List Address) (a : Address) :
    (∃ tx, (spawnAll privateProvider signer l).processors.get a = some tx) ↔ a ∈ l := by
  induction l using List.reverseRecOn with
  | nil =>
    refine ⟨?_, fun h => absurd h List.not_mem_nil⟩
    rintro ⟨tx, h⟩
    rw [spawnAll, List.foldl_nil, Spawned.empty, HandlerChannels.get_empty] at h
    cases h
  | append_singleton l b ih =>
    rw [spawnAll_snoc, spawn, List.mem_append, List.mem_singleton]
    by_cases hab : a = b
    · subst hab
      exact ⟨fun _ => .inr rfl, fun _ => ⟨_, HandlerChannels.get_insert_self _ _ _ (Spawned.fresh _)⟩⟩
    · rw [HandlerChannels.get_insert_of_ne _ _ _ hab, ih]
      exact (or_iff_left hab).symm

/-- Over different addresses no sender is replaced. -/
theorem spawnAll_connected {l : List Address} (h : l.Nodup) :
    ∀ contract tx, (contract, tx) ∈ (spawnAll privateProvider signer l).set →
      (spawnAll privateProvider signer l).processors.get contract.address = some tx := by
  induction l using List.reverseRecOn with
  | nil => exact fun _ _ hm => absurd hm List.not_mem_nil
  | append_singleton l b ih =>
    intro contract tx hm
    obtain ⟨hl, -, hdisj⟩ := List.nodup_append.mp h
    rw [spawnAll_snoc, spawn] at hm ⊢
    rcases List.mem_append.mp hm with hm | hm
    · have ha := List.mem_map_of_mem (f := fun s => s.1.address) hm
      rw [spawnAll_addresses] at ha
      have hne : contract.address ≠ b := hdisj _ ha _ (List.mem_singleton_self b)
      rw [HandlerChannels.get_insert_of_ne _ _ _ hne]
      exact ih hl contract tx hm
    · cases List.mem_singleton.mp hm
      exact HandlerChannels.get_insert_self _ _ _ (Spawned.fresh _)

end

/-! ## Different strings, same address -/

theorem mapM_ok {ε α β : Type} {f : α → Except ε β} {g : α → β} {l : List α}
    (h : ∀ a ∈ l, f a = .ok (g a)) : l.mapM f = .ok (l.map g) := by
  induction l with
  | nil => rfl
  | cons a l ih =>
    rw [List.mapM_cons, h a List.mem_cons_self, ih fun b hb => h b (List.mem_cons_of_mem a hb)]
    rfl

theorem parseAddress_ok {parse : String → Except String Address} {arg : String} {address : Address}
    (h : parse arg = .ok address) : parseAddress parse arg = .ok address := by
  rw [parseAddress, h]

/-- The addresses that the processors are spawned for: those of the different
strings. -/
theorem addresses_ok {parse : String → Except String Address} {address : String → Address}
    {args : Cli} (h : ∀ arg ∈ args.addresses, parse arg = .ok (address arg)) :
    addresses parse args = .ok ((dedup args.addresses).map address) :=
  mapM_ok fun arg harg =>
    parseAddress_ok (h arg (((nodup_destutter_insertionSort _).2 arg).mp harg))

/-- They differ when no two strings are the same address, and only then. -/
theorem nodup_addresses_iff {address : String → Address} (args : List String) :
    ((dedup args).map address).Nodup ↔
      ∀ x ∈ args, ∀ y ∈ args, address x = address y → x = y := by
  obtain ⟨hnodup, hmem⟩ := nodup_destutter_insertionSort args
  constructor
  · intro hmap x hx y hy hxy
    exact List.inj_on_of_nodup_map hmap ((hmem x).mpr hx) ((hmem y).mpr hy) hxy
  · intro hinj
    exact hnodup.map_on fun x hx y hy => hinj x ((hmem x).mp hx) y ((hmem y).mp hy)

theorem mem_addresses_iff {address : String → Address} (args : List String) (a : Address) :
    a ∈ (dedup args).map address ↔ a ∈ args.map address := by
  obtain ⟨-, hmem⟩ := nodup_destutter_insertionSort args
  simp only [List.mem_map]
  exact exists_congr fun x => and_congr_left fun _ => hmem x

/-! ## The wiring -/

/-- What the loop leaves over some addresses is wired for them, if they are
different. -/
theorem wired_spawnAll_iff {privateProvider : Bool} {signer : Address} {l parsed : List Address}
    (h : ∀ a, a ∈ l ↔ a ∈ parsed) (keyOrder : KeyOrder) (fromBlock maxBlockRange : Option UInt64) :
    let spawned := spawnAll privateProvider signer l
    let keys := keyOrder spawned.processors
    Wiring.Wired parsed ⟨spawned.set,
      .new signer spawned.processors fromBlock maxBlockRange keys.1 keys.2⟩ ↔ l.Nodup := by
  intro spawned keys
  have hcount : spawned.set.length = l.length := length_spawnAll l
  rw [nodup_iff_length_dedup h]
  constructor
  · intro hw
    rw [← hcount]
    exact hw.count
  · intro hlen
    refine ⟨hcount.trans hlen, spawnAll_connected ((nodup_iff_length_dedup h).mpr hlen),
      Poller.nodup_addresses _, ?_⟩
    intro a
    rw [Poller.mem_addresses, ← h]
    exact spawnAll_kept l a

end Main

/-- **Start-up wires one connected processor for each contract** exactly when
no two different arguments are the same address. -/
theorem main_wired_iff (parse : String → Except String Address) (keyOrder : KeyOrder)
    (signer : Address) {args : Cli} {address : String → Address}
    (h : ∀ arg ∈ args.addresses, parse arg = .ok (address arg)) :
    ∃ m, main parse keyOrder signer args = .ok m ∧
      (m.Wired (args.addresses.map address) ↔
        ∀ x ∈ args.addresses, ∀ y ∈ args.addresses, address x = address y → x = y) := by
  refine ⟨_, by rw [main, Main.addresses_ok h]; rfl, ?_⟩
  rw [← Main.nodup_addresses_iff]
  exact Main.wired_spawnAll_iff (Main.mem_addresses_iff _) keyOrder _ _

/-! ## Arguments in hex -/

def hexDigit (c : Char) : Option Nat :=
  if c.isDigit then some (c.toNat - '0'.toNat)
  else if 'a' ≤ c.toLower ∧ c.toLower ≤ 'f' then some (c.toLower.toNat - 'a'.toNat + 10)
  else none

/-- Forty hex digits in any case, with or without the prefix. -/
def hexAddress (s : String) : Except String Address :=
  let digits := if s.toList.take 2 = ['0', 'x'] then s.toList.drop 2 else s.toList
  match digits.mapM hexDigit with
  | none => .error "invalid character"
  | some values =>
    if values.length = 40 then .ok (values.foldl (fun n v => 16 * n + BitVec.ofNat 160 v) 0)
    else .error "invalid string length"

def sampleKeyOrder : KeyOrder := fun channels => ⟨channels.map.keys, .refl _⟩

def sampleCli (addresses : List String) : Cli := ⟨addresses, none, some 9, none⟩

/-- The address of the sample log, as it is displayed and in lower case. -/
def sampleSpellings : List String :=
  ["0x891E368fE81cBa2aC6F6cc4b98e684c106e2EF4f", "0x891e368fe81cba2ac6f6cc4b98e684c106e2ef4f"]

theorem hexAddress_sampleSpellings : ∀ arg ∈ sampleSpellings, hexAddress arg = .ok sampleAddress := by
  decide +kernel

/-- Two processors are spawned for one contract. -/
theorem main_not_wired : ∃ m, main hexAddress sampleKeyOrder sampleSigner
    (sampleCli sampleSpellings) = .ok m ∧ m.set.length = 2 ∧
      ¬ m.Wired (sampleSpellings.map fun _ => sampleAddress) := by
  have haddresses : Main.addresses hexAddress (sampleCli sampleSpellings) = .ok
      ((Main.dedup sampleSpellings).map fun _ => sampleAddress) :=
    Main.addresses_ok hexAddress_sampleSpellings
  have hlength : ((Main.dedup sampleSpellings).map fun _ => sampleAddress).length = 2 := by
    decide +kernel
  refine ⟨_, by rw [main, haddresses]; rfl, (Main.length_spawnAll _).trans hlength, ?_⟩
  intro hw
  have hcount := (Main.length_spawnAll _).symm.trans hw.count
  rw [hlength] at hcount
  exact absurd hcount (by decide)

/-- The address of an argument that parses. -/
def hexAddressOf (arg : String) : Address := (hexAddress arg).toOption.getD 0

/-- Two contracts, one of them given twice in one spelling. -/
def sampleArguments : List String :=
  ["0x891E368fE81cBa2aC6F6cc4b98e684c106e2EF4f", "1F7acda376ef37ec371235a094113df9cb4efee1",
    "0x891E368fE81cBa2aC6F6cc4b98e684c106e2EF4f"]

theorem main_wired_iff_sample : ∃ m, main hexAddress sampleKeyOrder sampleSigner
    (sampleCli sampleArguments) = .ok m ∧ m.Wired [sampleAddress, sampleSigner, sampleAddress] := by
  have hparse : ∀ arg ∈ (sampleCli sampleArguments).addresses,
      hexAddress arg = .ok (hexAddressOf arg) := by decide +kernel
  have hmap : (sampleCli sampleArguments).addresses.map hexAddressOf =
      [sampleAddress, sampleSigner, sampleAddress] := by decide +kernel
  obtain ⟨m, hm, hiff⟩ := main_wired_iff hexAddress sampleKeyOrder sampleSigner hparse
  rw [hmap] at hiff
  exact ⟨m, hm, hiff.mpr (by decide +kernel)⟩

end Challenger
