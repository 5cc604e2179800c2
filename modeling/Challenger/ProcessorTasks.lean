import Challenger.Processor

/-! # At most one live challenge

What a processor should be doing is a function of the events that had an
effect: an `OpPoked` judged challengeable starts a challenge, and this or an
`OpPokeChallengedSuccessfully` ends the one before. The tasks, the stored
token and the cancelled tokens of every reachable state are as these events
say (`TasksInv`). So the stored task is the only one that can be live, it is
the one for the last effective event, and only tasks spawned for challengeable
events call the contract (`at_most_one_live`). -/
namespace Challenger
open Lib

namespace World
variable {ι : Type} [DecidableEq ι]

/-! ## The effect of a history -/

/-- The challenge a label leaves processor `i` with, when it has an effect. -/
def effective (i : ι) : WorldLabel ι → Option (Option SchnorrData)
  | .judged j log (.ok true) => if j = i then some (some log.data.schnorrData) else none
  | .recv j (.opPokeChallengedSuccessfully _) => if j = i then some none else none
  | _ => none

/-- The challenge of the last effective event, if that is a challengeable
`OpPoked`. -/
def lastEffective (i : ι) (ls : List (WorldLabel ι)) : Option SchnorrData :=
  (ls.filterMap (effective i)).getLast?.join

/-- The challenges of all challengeable `OpPoked` events, in order. -/
def challengeable (i : ι) (ls : List (WorldLabel ι)) : List SchnorrData :=
  (ls.filterMap (effective i)).filterMap id

theorem lastEffective_snoc (i : ι) (ls : List (WorldLabel ι)) (l : WorldLabel ι) :
    lastEffective i (ls ++ [l]) = (effective i l).getD (lastEffective i ls) := by
  unfold lastEffective
  cases h : effective i l <;> simp [h]

theorem challengeable_snoc (i : ι) (ls : List (WorldLabel ι)) (l : WorldLabel ι) :
    challengeable i (ls ++ [l]) = challengeable i ls ++ (effective i l).join.toList := by
  unfold challengeable
  cases h : effective i l with
  | none => simp [h]
  | some e => cases e <;> simp [h]

theorem challengeable_getLast {i : ι} {ls : List (WorldLabel ι)} {data : SchnorrData}
    (h : lastEffective i ls = some data) : (challengeable i ls).getLast? = some data := by
  unfold lastEffective at h
  cases he : (ls.filterMap (effective i)).getLast? with
  | none => rw [he] at h; cases h
  | some e =>
    rw [he] at h
    obtain rfl : e = some data := h
    obtain ⟨es, hes⟩ := List.getLast?_eq_some_iff.mp he
    simp [challengeable, hes]

/-! ## What the operations change -/

variable {w w' : World ι} {i j : ι}

@[simp] theorem setProcessor_self (p : ScribeEventsProcessor ι) :
    (w.setProcessor i p).processors i = p := Function.update_self ..

theorem setProcessor_of_ne (p : ScribeEventsProcessor ι) (h : j ≠ i) :
    (w.setProcessor i p).processors j = w.processors j := Function.update_of_ne h ..

/-- What the new processor has in common with the old one, every processor
has in common with itself before. -/
theorem setProcessor_congr {β : Type} (f : ScribeEventsProcessor ι → β) {p : ScribeEventsProcessor ι}
    (h : f p = f (w.processors i)) (j : ι) :
    f ((w.setProcessor i p).processors j) = f (w.processors j) := by
  by_cases hji : j = i
  · rw [hji, setProcessor_self, h]
  · rw [setProcessor_of_ne p hji]

theorem setTaskPhase_processor (w : World ι) (i : ι) (k : Nat) (phase : TaskPhase) :
    (w.setTaskPhase i k phase).processors i = { w.processors i with
      tasks := (w.processors i).tasks.modify k fun task => { task with phase := phase } } :=
  setProcessor_self _

theorem wakeTask_processor (w : World ι) (i : ι) (k : Nat) (task : ChallengeTask ι)
    (cancelledFirst : Bool) (returned : Option (Except ContractError TxHash)) :
    (w.wakeTask i k task cancelledFirst returned).processors i = { w.processors i with
      tasks := (w.processors i).tasks.modify k fun t => { t with phase :=
        (select (Token.Cancelled w.cancelled task.childCancellationToken) cancelledFirst
          task.phase returned).1 } } :=
  setProcessor_self _

theorem cancelChallenge_processor (w : World ι) (i : ι) : (w.cancelChallenge i).processors i =
    { w.processors i with challengeProcessCancelationToken := none } := by
  unfold cancelChallenge
  split
  · exact setProcessor_self _
  · rename_i h
    rw [← h]

theorem cancelChallenge_of_ne (h : j ≠ i) :
    (w.cancelChallenge i).processors j = w.processors j := by
  unfold cancelChallenge
  split
  · exact setProcessor_of_ne _ h
  · rfl

theorem cancelChallenge_cancelled (w : World ι) (i : ι) : (w.cancelChallenge i).cancelled =
    (w.processors i).challengeProcessCancelationToken.toList ++ w.cancelled := by
  unfold cancelChallenge
  split
  · rename_i h
    rw [h]; rfl
  · rename_i h
    rw [h]; rfl

@[simp] theorem cancelChallenge_challenges (w : World ι) (i : ι) :
    (w.cancelChallenge i).challenges = w.challenges := by
  unfold cancelChallenge
  split <;> rfl

/-- The processor after a spawn. -/
theorem spawnChallenge_processor (w : World ι) (i : ι) (log : Log OpPoked) :
    (w.spawnChallenge i log).processors i = { w.processors i with
      challengeProcessCancelationToken := some (w.childToken i)
      tasks := (w.processors i).tasks ++
        [⟨w.childToken i, log.data.schnorrData, .sleeping false⟩] } := by
  simp only [spawnChallenge, setProcessor_self, childToken, cancelChallenge_processor]

theorem spawnChallenge_of_ne (log : Log OpPoked) (h : j ≠ i) :
    (w.spawnChallenge i log).processors j = w.processors j := by
  simp only [spawnChallenge, setProcessor_of_ne _ h, cancelChallenge_of_ne h]

theorem spawnChallenge_challenges (w : World ι) (i : ι) (log : Log OpPoked) :
    (w.spawnChallenge i log).challenges = w.challenges := cancelChallenge_challenges w i

theorem handleEvent_opPoked (w : World ι) (i : ι) (log : Log OpPoked) :
    w.handleEvent i (.opPoked log) = w ∨ w.handleEvent i (.opPoked log) =
      w.setProcessor i { w.processors i with phase := .validating log } := by
  unfold handleEvent
  cases (w.processors i).challengePeriod with
  | none => exact .inl rfl
  | some _ => exact .inr rfl

/-- The part of a task that no step changes. -/
def spawned (task : ChallengeTask ι) : Token (ι × Nat) × SchnorrData :=
  (task.childCancellationToken, task.schnorrData)

/-! ## The invariant -/

variable {ls : List (WorldLabel ι)} {l : WorldLabel ι}

/-- The tasks, the stored token, the cancelled tokens and the calls are what
the history says. -/
structure TasksInv (ls : List (WorldLabel ι)) (w : World ι) : Prop where
  tasks : ∀ i, (w.processors i).tasks.map spawned =
    (challengeable i ls).mapIdx fun k data => (Token.root.child (i, k), data)
  stored : ∀ i, (w.processors i).challengeProcessCancelationToken =
    (lastEffective i ls).map fun _ => Token.root.child (i, (challengeable i ls).length - 1)
  cancelled : ∀ i k, Token.root.child (i, k) ∈ w.cancelled ↔ k < (challengeable i ls).length ∧
    (w.processors i).challengeProcessCancelationToken ≠ some (Token.root.child (i, k))
  shutdown : Token.root ∈ w.cancelled ↔ .shutdown ∈ ls
  calls : ∀ i k data, (i, k, data) ∈ w.challenges → (challengeable i ls)[k]? = some data

omit [DecidableEq ι] in
/-- What no event with an effect changes. -/
structure Quiet (w w' : World ι) : Prop where
  stored : ∀ i, (w'.processors i).challengeProcessCancelationToken =
    (w.processors i).challengeProcessCancelationToken
  tasks : ∀ i, (w'.processors i).tasks.map spawned = (w.processors i).tasks.map spawned
  cancelled : w'.cancelled = w.cancelled

theorem quiet_setProcessor {p : ScribeEventsProcessor ι}
    (hs : p.challengeProcessCancelationToken =
      (w.processors i).challengeProcessCancelationToken)
    (ht : p.tasks.map spawned = (w.processors i).tasks.map spawned) :
    Quiet w (w.setProcessor i p) where
  stored := setProcessor_congr (fun p => p.challengeProcessCancelationToken) hs
  tasks := setProcessor_congr (fun p => p.tasks.map spawned) ht
  cancelled := rfl

omit [DecidableEq ι] in
theorem map_spawned_modify (tasks : List (ChallengeTask ι)) (k : Nat) (phase : TaskPhase) :
    (tasks.modify k fun task => { task with phase := phase }).map spawned = tasks.map spawned := by
  induction tasks generalizing k with
  | nil => rw [List.modify_nil]
  | cons task tasks ih =>
    cases k with
    | zero => rfl
    | succ k => rw [List.modify_succ_cons, List.map_cons, ih, List.map_cons]

theorem quiet_setTaskPhase (w : World ι) (i : ι) (k : Nat) (phase : TaskPhase) :
    Quiet w (w.setTaskPhase i k phase) :=
  quiet_setProcessor rfl (map_spawned_modify _ k phase)

theorem TasksInv.init : TasksInv [] (start ι) where
  tasks _ := rfl
  stored _ := rfl
  cancelled _ k := ⟨fun h => absurd h List.not_mem_nil, fun h => absurd h.1 (Nat.not_lt_zero k)⟩
  shutdown := ⟨fun h => absurd h List.not_mem_nil, fun h => absurd h List.not_mem_nil⟩
  calls _ _ _ h := absurd h List.not_mem_nil

theorem TasksInv.task (h : TasksInv ls w) {k : Nat} {task : ChallengeTask ι}
    (ht : (w.processors i).tasks[k]? = some task) :
    task.childCancellationToken = Token.root.child (i, k) ∧
      (challengeable i ls)[k]? = some task.schnorrData := by
  have hk : ((w.processors i).tasks.map spawned)[k]? = some (spawned task) := by
    rw [List.getElem?_map, ht]; rfl
  rw [h.tasks, List.getElem?_mapIdx, Option.map_eq_some_iff] at hk
  obtain ⟨data, hdata, he⟩ := hk
  rw [hdata]
  exact ⟨(congrArg Prod.fst he).symm, congrArg (fun x => some x.2) he⟩

theorem TasksInv.length (h : TasksInv ls w) (i : ι) :
    (w.processors i).tasks.length = (challengeable i ls).length := by
  have := congrArg List.length (h.tasks i)
  rwa [List.length_map, List.length_mapIdx] at this

/-- Every challengeable event has its task. -/
theorem TasksInv.exists_task (h : TasksInv ls w) {k : Nat} {data : SchnorrData}
    (hk : (challengeable i ls)[k]? = some data) :
    ∃ task : ChallengeTask ι, (w.processors i).tasks[k]? = some task ∧ task.schnorrData = data := by
  have hlen := (List.getElem?_eq_some_iff.mp hk).1
  rw [← h.length] at hlen
  refine ⟨_, List.getElem?_eq_getElem hlen, ?_⟩
  have hdata := (h.task (List.getElem?_eq_getElem hlen)).2
  rw [hk] at hdata
  exact (Option.some.inj hdata).symm

/-- Quiet changes keep the invariant. -/
theorem TasksInv.of_quiet (h : TasksInv ls w) (hq : Quiet w w')
    (hcalls : ∀ i k data, (i, k, data) ∈ w'.challenges → (i, k, data) ∈ w.challenges ∨
      ∃ task, (w.processors i).tasks[k]? = some task ∧ task.schnorrData = data) :
    TasksInv ls w' where
  tasks i := by rw [hq.tasks, h.tasks]
  stored i := by rw [hq.stored, h.stored]
  cancelled i k := by rw [hq.cancelled, hq.stored, h.cancelled]
  shutdown := by rw [hq.cancelled, h.shutdown]
  calls i k data hc := by
    rcases hcalls i k data hc with hc | ⟨task, ht, rfl⟩
    · exact h.calls i k data hc
    · exact (h.task ht).2

/-- A label without effect can be added to the history. -/
theorem TasksInv.snoc (h : TasksInv ls w) (heff : ∀ i, effective i l = none)
    (hl : l ≠ .shutdown) : TasksInv (ls ++ [l]) w := by
  have hlast : ∀ i, lastEffective i (ls ++ [l]) = lastEffective i ls := fun i => by
    rw [lastEffective_snoc, heff]; rfl
  have hall : ∀ i, challengeable i (ls ++ [l]) = challengeable i ls := fun i => by
    rw [challengeable_snoc, heff]; exact List.append_nil _
  constructor
  case tasks =>
    intro i
    rw [hall, h.tasks]
  case stored =>
    intro i
    rw [hall, hlast, h.stored]
  case cancelled =>
    intro i k
    rw [hall, h.cancelled]
  case shutdown =>
    rw [h.shutdown, List.mem_append, List.mem_singleton]
    exact ⟨.inl, fun h => h.resolve_right (Ne.symm hl)⟩
  case calls =>
    intro i k data hc
    rw [hall]; exact h.calls i k data hc

theorem TasksInv.shutdown_snoc (h : TasksInv ls w) :
    TasksInv (ls ++ [.shutdown]) (w.cancel Token.root) := by
  have hlast : ∀ i, lastEffective i (ls ++ [.shutdown]) = lastEffective i ls := fun i =>
    lastEffective_snoc i ls _
  have hall : ∀ i, challengeable i (ls ++ [.shutdown]) = challengeable i ls := fun i => by
    rw [challengeable_snoc]; exact List.append_nil _
  constructor
  case tasks =>
    intro i
    rw [hall]; exact h.tasks i
  case stored =>
    intro i
    rw [hall, hlast]; exact h.stored i
  case cancelled =>
    intro i k
    rw [hall]
    refine Iff.trans ?_ (h.cancelled i k)
    exact ⟨fun hc => (List.mem_cons.mp hc).resolve_left Token.child_ne_root,
      List.mem_cons_of_mem _⟩
  case shutdown =>
    exact ⟨fun _ => List.mem_append_right _ (List.mem_singleton_self _),
      fun _ => List.mem_cons_self⟩
  case calls =>
    intro i k data hc
    rw [hall]; exact h.calls i k data hc

/-- The stored token is that of the last task. -/
theorem TasksInv.stored_child (h : TasksInv ls w) {t : Token (ι × Nat)}
    (ht : (w.processors i).challengeProcessCancelationToken = some t) :
    t = Token.root.child (i, (challengeable i ls).length - 1) ∧ 0 < (challengeable i ls).length := by
  rw [h.stored] at ht
  obtain ⟨data, hlast, rfl⟩ := Option.map_eq_some_iff.mp ht
  refine ⟨rfl, List.length_pos_iff.mpr ?_⟩
  intro hnil
  have := challengeable_getLast hlast
  rw [hnil] at this
  cases this

/-- After its stored token is cancelled, all tasks of a processor are. -/
theorem TasksInv.mem_cancelChallenge (h : TasksInv ls w) (i j : ι) (k : Nat) :
    Token.root.child (j, k) ∈ (w.cancelChallenge i).cancelled ↔
      if j = i then k < (challengeable i ls).length else Token.root.child (j, k) ∈ w.cancelled := by
  rw [cancelChallenge_cancelled, List.mem_append, Option.mem_toList]
  split
  · rename_i hij
    subst hij
    rw [h.cancelled]
    constructor
    · rintro (hs | ⟨hk, -⟩)
      · obtain ⟨hk, hpos⟩ := h.stored_child hs
        have := (Prod.mk.inj (Token.child_injective hk)).2
        omega
      · exact hk
    · intro hk
      by_cases hs : (w.processors j).challengeProcessCancelationToken =
          some (Token.root.child (j, k))
      · exact .inl hs
      · exact .inr ⟨hk, hs⟩
  · rename_i hij
    refine ⟨fun hc => hc.resolve_left ?_, .inr⟩
    intro hs
    exact hij (Prod.mk.inj (Token.child_injective (h.stored_child hs).1)).1

theorem TasksInv.root_mem_cancelChallenge (h : TasksInv ls w) (i : ι) :
    Token.root ∈ (w.cancelChallenge i).cancelled ↔ Token.root ∈ w.cancelled := by
  rw [cancelChallenge_cancelled, List.mem_append, Option.mem_toList]
  exact ⟨fun hc => hc.resolve_left fun hs => Token.child_ne_root (h.stored_child hs).1.symm, .inr⟩

omit [DecidableEq ι] in
theorem shutdown_mem_snoc (hl : l ≠ .shutdown) : .shutdown ∈ ls ++ [l] ↔ .shutdown ∈ ls := by
  rw [List.mem_append, List.mem_singleton]
  exact ⟨fun h => h.resolve_right (Ne.symm hl), .inl⟩

theorem TasksInv.cancel_snoc (h : TasksInv ls w) (hi : effective i l = some none)
    (hj : ∀ j, j ≠ i → effective j l = none) (hl : l ≠ .shutdown) :
    TasksInv (ls ++ [l]) (w.cancelChallenge i) := by
  have hall : ∀ j, challengeable j (ls ++ [l]) = challengeable j ls := fun j => by
    rw [challengeable_snoc]
    by_cases hji : j = i
    · rw [hji, hi]; exact List.append_nil _
    · rw [hj j hji]; exact List.append_nil _
  constructor
  case tasks =>
    intro j
    rw [hall, ← h.tasks]
    by_cases hji : j = i
    · rw [hji, cancelChallenge_processor]
    · rw [cancelChallenge_of_ne hji]
  case stored =>
    intro j
    by_cases hji : j = i
    · rw [hji, cancelChallenge_processor, lastEffective_snoc, hi]; rfl
    · rw [cancelChallenge_of_ne hji, lastEffective_snoc, hj j hji, hall, h.stored]; rfl
  case cancelled =>
    intro j k
    rw [h.mem_cancelChallenge, hall]
    by_cases hji : j = i
    · rw [if_pos hji, hji, cancelChallenge_processor]
      exact (and_iff_left (by nofun)).symm
    · rw [if_neg hji, cancelChallenge_of_ne hji, h.cancelled]
  case shutdown =>
    rw [h.root_mem_cancelChallenge, h.shutdown, shutdown_mem_snoc hl]
  case calls =>
    intro j k data hc
    rw [hall]
    rw [cancelChallenge_challenges] at hc
    exact h.calls j k data hc

theorem TasksInv.spawn_snoc (h : TasksInv ls w) {log : Log OpPoked}
    (hi : effective i l = some (some log.data.schnorrData))
    (hj : ∀ j, j ≠ i → effective j l = none) (hl : l ≠ .shutdown) :
    TasksInv (ls ++ [l]) (w.spawnChallenge i log) := by
  have hown : challengeable i (ls ++ [l]) = challengeable i ls ++ [log.data.schnorrData] := by
    rw [challengeable_snoc, hi]; rfl
  have hother : ∀ j, j ≠ i → challengeable j (ls ++ [l]) = challengeable j ls := fun j hji => by
    rw [challengeable_snoc, hj j hji]; exact List.append_nil _
  have hcancelled : (w.spawnChallenge i log).cancelled = (w.cancelChallenge i).cancelled := rfl
  constructor
  case tasks =>
    intro j
    by_cases hji : j = i
    · rw [hji, spawnChallenge_processor, hown, List.map_append, h.tasks, List.mapIdx_append]
      simp [spawned, childToken, h.length]
    · rw [spawnChallenge_of_ne log hji, hother j hji, h.tasks]
  case stored =>
    intro j
    by_cases hji : j = i
    · rw [hji, spawnChallenge_processor, lastEffective_snoc, hi, hown, List.length_append]
      simp [childToken, h.length]
    · rw [spawnChallenge_of_ne log hji, lastEffective_snoc, hj j hji, hother j hji, h.stored]; rfl
  case cancelled =>
    intro j k
    rw [hcancelled, h.mem_cancelChallenge]
    by_cases hji : j = i
    · rw [if_pos hji, hji, spawnChallenge_processor, hown, List.length_append]
      -- every earlier task, not the new one
      have hne : some (w.childToken i) ≠ some (Token.root.child (i, k)) ↔
          (challengeable i ls).length ≠ k := by
        rw [← h.length i, childToken]
        refine not_congr ⟨fun he => (Prod.mk.inj (Token.child_injective (Option.some.inj he))).2,
          fun he => by rw [he]⟩
      rw [hne, List.length_singleton]
      omega
    · rw [if_neg hji, spawnChallenge_of_ne log hji, hother j hji, h.cancelled]
  case shutdown =>
    rw [hcancelled, h.root_mem_cancelChallenge, h.shutdown, shutdown_mem_snoc hl]
  case calls =>
    intro j k data hc
    rw [spawnChallenge_challenges] at hc
    have hc := h.calls j k data hc
    by_cases hji : j = i
    · subst hji
      rw [hown]
      rw [List.getElem?_append_left (List.getElem?_eq_some_iff.mp hc).1]
      exact hc
    · rw [hother j hji]; exact hc

theorem TasksInv.setProcessor (h : TasksInv ls w) {p : ScribeEventsProcessor ι}
    (hs : p.challengeProcessCancelationToken =
      (w.processors i).challengeProcessCancelationToken)
    (ht : p.tasks.map spawned = (w.processors i).tasks.map spawned) :
    TasksInv ls (w.setProcessor i p) :=
  h.of_quiet (quiet_setProcessor hs ht) fun _ _ _ hc => .inl hc

theorem TasksInv.step (h : TasksInv ls w) (hl : w.step l = some w') :
    TasksInv (ls ++ [l]) w' := by
  cases step_cases hl with
  | send _ => exact TasksInv.snoc (h.setProcessor rfl rfl) (fun _ => rfl) (by nofun)
  | close => exact TasksInv.snoc (h.setProcessor rfl rfl) (fun _ => rfl) (by nofun)
  | periodOk _ => exact TasksInv.snoc (h.setProcessor rfl rfl) (fun _ => rfl) (by nofun)
  | periodError _ => exact TasksInv.snoc (h.setProcessor rfl rfl) (fun _ => rfl) (by nofun)
  | @recv i event rest _ _ =>
    have hrx := h.setProcessor (i := i) (p := { w.processors i with rx := rest }) rfl rfl
    cases event with
    | opPoked log =>
      refine TasksInv.snoc ?_ (fun _ => rfl) (by nofun)
      rcases handleEvent_opPoked (w.setProcessor i { w.processors i with rx := rest }) i log with
        hw | hw <;> rw [hw]
      · exact hrx
      · exact hrx.setProcessor rfl rfl
    | opPokeChallengedSuccessfully log =>
      exact hrx.cancel_snoc (if_pos rfl) (fun j hji => if_neg (Ne.symm hji)) (by nofun)
  | recvNone _ _ _ => exact h.snoc (fun _ => rfl) (by nofun)
  | @judged i log r _ =>
    have hidle := h.setProcessor (i := i) (p := { w.processors i with phase := .idle }) rfl rfl
    match r with
    | .ok true =>
      exact hidle.spawn_snoc (if_pos rfl) (fun j hji => if_neg (Ne.symm hji)) (by nofun)
    | .ok false => exact hidle.snoc (fun _ => rfl) (by nofun)
    | .error _ => exact hidle.snoc (fun _ => rfl) (by nofun)
  | stop _ _ => exact TasksInv.snoc (h.setProcessor rfl rfl) (fun _ => rfl) (by nofun)
  | shutdown => exact h.shutdown_snoc
  | elapse _ _ =>
    exact (h.of_quiet (quiet_setTaskPhase ..) fun _ _ _ hc => .inl hc).snoc (fun _ => rfl)
      (by nofun)
  | @wake i k task cancelledFirst returned ht _ =>
    refine TasksInv.snoc (h.of_quiet ⟨(quiet_setTaskPhase ..).stored,
      (quiet_setTaskPhase ..).tasks, rfl⟩ ?_) (fun _ => rfl) (by nofun)
    intro j k' data hc
    -- only this task's call can be new
    rcases List.mem_append.mp hc with hc | hc
    · exact .inl hc
    · split at hc
      · cases List.mem_singleton.mp hc
        exact .inr ⟨task, ht, rfl⟩
      · cases hc

theorem TasksInv.run (h : Run Step (start ι) ls w) : TasksInv ls w :=
  h.invariant .init fun _ ih hl => ih.step hl

/-! ## The live task -/

/-- A task that can still run: its token is not cancelled. -/
def Live (w : World ι) (task : ChallengeTask ι) : Prop :=
  ¬ Token.Cancelled w.cancelled task.childCancellationToken

theorem TasksInv.live_iff (h : TasksInv ls w) {k : Nat} {task : ChallengeTask ι}
    (ht : (w.processors i).tasks[k]? = some task) :
    w.Live task ↔ .shutdown ∉ ls ∧
      (w.processors i).challengeProcessCancelationToken = some task.childCancellationToken := by
  obtain ⟨htoken, hdata⟩ := h.task ht
  have hk := (List.getElem?_eq_some_iff.mp hdata).1
  rw [Live, htoken, Token.cancelled_child, Token.cancelled_root, h.cancelled, h.shutdown, not_or,
    not_and_not_right]
  exact ⟨fun hl => ⟨hl.2, hl.1 hk⟩, fun hl => ⟨fun _ => hl.2, hl.1⟩⟩

/-- Same stored tokens, same tasks, same cancelled tokens. -/
def SameChallenges (w w' : World ι) : Prop := w'.cancelled = w.cancelled ∧
  ∀ j, (w'.processors j).challengeProcessCancelationToken =
    (w.processors j).challengeProcessCancelationToken ∧
    (w'.processors j).tasks = (w.processors j).tasks

theorem sameChallenges_setProcessor {p : ScribeEventsProcessor ι}
    (hs : p.challengeProcessCancelationToken =
      (w.processors i).challengeProcessCancelationToken)
    (ht : p.tasks = (w.processors i).tasks) : SameChallenges w (w.setProcessor i p) := by
  refine ⟨rfl, ?_⟩
  intro j
  exact ⟨setProcessor_congr (fun p => p.challengeProcessCancelationToken) hs j,
    setProcessor_congr (fun p => p.tasks) ht j⟩

/-- Taking an `OpPoked` from the channel starts its validation and no more. -/
theorem recv_sameChallenges {log : Log OpPoked} (h : w.step (.recv i (.opPoked log)) = some w') :
    SameChallenges w w' := by
  cases step_cases h with
  | @recv _ _ rest _ _ =>
    have hrx : SameChallenges w (w.setProcessor i { w.processors i with rx := rest }) :=
      sameChallenges_setProcessor rfl rfl
    rcases handleEvent_opPoked (w.setProcessor i { w.processors i with rx := rest }) i log with
      hw | hw <;> rw [hw]
    · exact hrx
    · have hphase : SameChallenges (w.setProcessor i { w.processors i with rx := rest }) _ :=
        sameChallenges_setProcessor (i := i) (p := { (w.setProcessor i
          { w.processors i with rx := rest }).processors i with phase := .validating log }) rfl rfl
      exact ⟨hphase.1.trans hrx.1, fun j => ⟨(hphase.2 j).1.trans (hrx.2 j).1,
        (hphase.2 j).2.trans (hrx.2 j).2⟩⟩

/-- So does an event judged not challengeable, or not validated. -/
theorem judged_sameChallenges {log : Log OpPoked} {r : Except ContractError Bool}
    (hr : r ≠ .ok true) (h : w.step (.judged i log r) = some w') : SameChallenges w w' := by
  cases step_cases h with
  | judged _ =>
    match r with
    | .ok true => exact absurd rfl hr
    | .ok false => exact sameChallenges_setProcessor rfl rfl
    | .error _ => exact sameChallenges_setProcessor rfl rfl

theorem mem_challengeable {data : SchnorrData} (h : data ∈ challengeable i ls) :
    ∃ log : Log OpPoked, .judged i log (.ok true) ∈ ls ∧ log.data.schnorrData = data := by
  obtain ⟨e, he, hd⟩ := List.mem_filterMap.mp h
  obtain rfl : e = some data := hd
  obtain ⟨l, hl, heff⟩ := List.mem_filterMap.mp he
  unfold effective at heff
  split at heff
  · rename_i j log
    split at heff
    · rename_i hji
      subst hji
      exact ⟨log, hl, Option.some.inj (Option.some.inj heff)⟩
    · cases heff
  · split at heff <;> cases heff
  · cases heff

theorem challengeable_of_judged {log : Log OpPoked} (h : .judged i log (.ok true) ∈ ls) :
    log.data.schnorrData ∈ challengeable i ls :=
  List.mem_filterMap.mpr ⟨_, List.mem_filterMap.mpr ⟨_, h, if_pos rfl⟩, rfl⟩

/-- What holds of processor `i` after the history `ls`. -/
structure OneLive (i : ι) (ls : List (WorldLabel ι)) (w : World ι) : Prop where
  live_stored : ∀ {k : Nat} {task : ChallengeTask ι}, (w.processors i).tasks[k]? = some task →
    w.Live task →
    (w.processors i).challengeProcessCancelationToken = some task.childCancellationToken
  live_unique : ∀ {k k' : Nat} {task task' : ChallengeTask ι},
    (w.processors i).tasks[k]? = some task →
    (w.processors i).tasks[k']? = some task' → w.Live task → w.Live task' → k = k'
  stored_none : lastEffective i ls = none →
    (w.processors i).challengeProcessCancelationToken = none
  stored_some : ∀ {data}, lastEffective i ls = some data → ∃ (k : Nat) (task : ChallengeTask ι),
    (w.processors i).tasks[k]? = some task ∧ task.schnorrData = data ∧
    (w.processors i).challengeProcessCancelationToken = some task.childCancellationToken
  stored_not_cancelled : .shutdown ∉ ls → ∀ {token},
    (w.processors i).challengeProcessCancelationToken = some token →
    ¬ Token.Cancelled w.cancelled token
  recv_quiet : ∀ {log w'}, Step w (.recv i (.opPoked log)) w' → SameChallenges w w'
  judged_quiet : ∀ {log r w'}, r ≠ .ok true → Step w (.judged i log r) w' → SameChallenges w w'
  calls : ∀ {k : Nat} {data}, (i, k, data) ∈ w.challenges →
    ∃ (task : ChallengeTask ι) (log : Log OpPoked), (w.processors i).tasks[k]? = some task ∧
    task.schnorrData = data ∧ .judged i log (.ok true) ∈ ls ∧ log.data.schnorrData = data

/-- **At most one live challenge per processor, and the right one.** In every
reachable state: a task whose token is not cancelled is the stored one; the
stored token is there exactly when the last effective event is a challengeable
`OpPoked`, and its task carries that event's data; until shutdown it is not
cancelled; events judged not challengeable or not validated change nothing;
and every call of the contract is made by a task spawned for a challengeable
`OpPoked`, with its data. -/
theorem at_most_one_live (h : Run Step (start ι) ls w) (i : ι) : OneLive i ls w := by
  have hinv := TasksInv.run h
  constructor
  case live_stored =>
    intro k task ht hl
    exact ((hinv.live_iff ht).mp hl).2
  case live_unique =>
    intro k k' task task' ht ht' hl hl'
    have hs := ((hinv.live_iff ht).mp hl).2
    rw [((hinv.live_iff ht').mp hl').2, (hinv.task ht).1, (hinv.task ht').1] at hs
    exact (Prod.mk.inj (Token.child_injective (Option.some.inj hs))).2.symm
  case stored_none =>
    intro hnone
    rw [hinv.stored, hnone]; rfl
  case stored_some =>
    intro data hsome
    have hlast := challengeable_getLast hsome
    rw [List.getLast?_eq_getElem?] at hlast
    obtain ⟨task, ht, hd⟩ := hinv.exists_task hlast
    refine ⟨_, task, ht, hd, ?_⟩
    rw [hinv.stored, hsome, (hinv.task ht).1]
    rfl
  case stored_not_cancelled =>
    intro hno token htoken hc
    have hroot : Token.root ∉ w.cancelled := fun hr => hno (hinv.shutdown.mp hr)
    rw [(hinv.stored_child htoken).1, Token.cancelled_child, Token.cancelled_root,
      hinv.cancelled, ← (hinv.stored_child htoken).1] at hc
    rcases hc with ⟨-, hne⟩ | hr
    · exact hne htoken
    · exact hroot hr
  case recv_quiet =>
    intro log w' hw
    exact recv_sameChallenges hw
  case judged_quiet =>
    intro log r w' hr hw
    exact judged_sameChallenges hr hw
  case calls =>
    intro k data hc
    have hk := hinv.calls i k data hc
    obtain ⟨task, ht, hd⟩ := hinv.exists_task hk
    obtain ⟨log, hjudged, hlog⟩ := mem_challengeable (List.mem_of_getElem? hk)
    exact ⟨task, log, ht, hd, hjudged, hlog⟩

def samplePoked : Log OpPoked := { sampleLog 10 1 with data := sampleOpPoked }

/-- A processor takes an `OpPoked` that is challengeable, and its task calls
the contract when the delay is over. -/
def sampleChallenge : List (WorldLabel Unit) :=
  [.period () (.ok 600), .send () (.opPoked samplePoked), .recv () (.opPoked samplePoked),
    .judged () samplePoked (.ok true), .elapse () 0, .wake () 0 false none]

theorem at_most_one_live_sample : ∃ w, Run Step (start Unit) sampleChallenge w ∧
    w.challenges = [((), 0, sampleOpPoked.schnorrData)] ∧ OneLive () sampleChallenge w := by
  obtain ⟨w, hrun, htest⟩ : ∃ w, Run Step (start Unit) sampleChallenge w ∧
      (w.challenges == [((), 0, sampleOpPoked.schnorrData)]) = true :=
    exists_run_of_runSteps
      (fun w : World Unit => w.challenges == [((), 0, sampleOpPoked.schnorrData)])
      (by decide +kernel)
  exact ⟨w, hrun, eq_of_beq htest, at_most_one_live hrun ()⟩

end World
end Challenger
