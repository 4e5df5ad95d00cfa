import AsciiTerra.Lib.Machine
import Mathlib.Logic.Function.Basic
import Mathlib.Data.List.Nodup

/-!
# The queue with its two locks

All members of `THSQueue`, called by any number of threads. Each operation on a mutex, on the
condition variable or on the deque is a step of its own, so that a push takes both locks one
after the other and a pop reads the item before it removes it.
-/

set_option autoImplicit false

namespace AsciiTerra

/-- The members of `THSQueue`; `wait` calls `empty` in a loop. -/
inductive QueueCall (T : Type)
  | front
  | back
  | popFront
  | popBack
  | pushBack (item : T)
  | pushFront (item : T)
  | empty
  | count
  | clear
  | wait
deriving DecidableEq

inductive QueueAnswer (T : Type)
  | nothing
  | item (t : T)
  | flag (b : Bool)
  | number (n : Nat)
deriving DecidableEq

/-- What a call does to a deque that nobody else uses; the ends of an empty one are undefined. -/
def QueueCall.apply {T : Type} (l : List T) : QueueCall T → Option (List T × QueueAnswer T)
  | .front => l.head?.map fun t => (l, .item t)
  | .back => l.getLast?.map fun t => (l, .item t)
  | .popFront => l.head?.map fun t => (l.tail, .item t)
  | .popBack => l.getLast?.map fun t => (l.dropLast, .item t)
  | .pushBack item => some (l ++ [item], .nothing)
  | .pushFront item => some (item :: l, .nothing)
  | .empty | .wait => some (l, .flag l.isEmpty)
  | .count => some (l, .number l.length)
  | .clear => some ([], .nothing)

/-- Where a thread is. -/
inductive ThreadAt (T : Type)
  | idle
  /-- before it locks `muxQueue` -/
  | entering (call : QueueCall T)
  | inside (call : QueueCall T)
  /-- a pop has moved the item out and not yet removed its place -/
  | moved (call : QueueCall T) (t : T)
  /-- a push has inserted its item, before it locks `muxBlocking` -/
  | inserted (call : QueueCall T)
  | notifying (call : QueueCall T)
  /-- before `muxBlocking` is unlocked -/
  | notified (call : QueueCall T)
  /-- before `muxQueue` is unlocked -/
  | leaving (call : QueueCall T) (answer : QueueAnswer T)
  /-- in `wait`, `empty` has returned `true` -/
  | foundEmpty
  /-- in `wait` with `muxBlocking` locked -/
  | locked
  | asleep
  /-- before `cvBlocking.wait` has `muxBlocking` again -/
  | woken
  | relocked
  /-- the end of an empty deque was used -/
  | broken (call : QueueCall T)
deriving DecidableEq

namespace ThreadAt
variable {T : Type}

def holdsQueue : ThreadAt T → Bool
  | inside _ | moved _ _ | inserted _ | notifying _ | notified _ | leaving _ _ | broken _ => true
  | _ => false

def holdsBlocking : ThreadAt T → Bool
  | notifying _ | notified _ | locked | relocked => true
  | _ => false

/-- The statement on the deque, by the thread that holds `muxQueue`. -/
def touch (l : List T) : QueueCall T → List T × ThreadAt T
  | .front => (l, l.head?.elim (.broken .front) fun t => .leaving .front (.item t))
  | .back => (l, l.getLast?.elim (.broken .back) fun t => .leaving .back (.item t))
  | .popFront => (l, l.head?.elim (.broken .popFront) (.moved .popFront))
  | .popBack => (l, l.getLast?.elim (.broken .popBack) (.moved .popBack))
  | .pushBack item => (l ++ [item], .inserted (.pushBack item))
  | .pushFront item => (item :: l, .inserted (.pushFront item))
  | .empty => (l, .leaving .empty (.flag l.isEmpty))
  | .count => (l, .leaving .count (.number l.length))
  | .clear => ([], .leaving .clear .nothing)
  | .wait => (l, .leaving .wait (.flag l.isEmpty))

/-- The second statement of a pop. -/
def remove (l : List T) : QueueCall T → List T
  | .popBack => l.dropLast
  | _ => l.tail

/-- A call returns, but for `wait` on an empty queue. -/
def left : QueueCall T → QueueAnswer T → ThreadAt T
  | .wait, .flag true => .foundEmpty
  | _, _ => .idle

end ThreadAt

/-- `THSQueue` with its threads, the threads that sleep on `cvBlocking` and, for the proofs, the
calls of the sections that `muxQueue` protects, as they were left. -/
structure SharedQueue (Thread T : Type) where
  deqQueue : List T
  muxQueue : Option Thread
  muxBlocking : Option Thread
  cvBlocking : List Thread
  threads : Thread → ThreadAt T
  history : List (Thread × QueueCall T × QueueAnswer T)

/-- A thread calls a member, does its next step (a notification wakes one of the sleepers), or
wakes up for no reason. -/
inductive SharedEvent (Thread T : Type)
  | call (th : Thread) (call : QueueCall T)
  | go (th : Thread) (choice : Nat)
  | wake (th : Thread)

namespace SharedQueue
variable {Thread T : Type} [DecidableEq Thread]

def initial : SharedQueue Thread T := ⟨[], none, none, [], fun _ => .idle, []⟩

def put (th : Thread) (place : ThreadAt T) (q : SharedQueue Thread T) : SharedQueue Thread T :=
  { q with threads := Function.update q.threads th place }

/-- `notify_one`. -/
def notifyOne (choice : Nat) (q : SharedQueue Thread T) : SharedQueue Thread T :=
  q.cvBlocking[choice % q.cvBlocking.length]?.elim q fun th =>
    { q with cvBlocking := q.cvBlocking.erase th }.put th .woken

/-- The next step of a thread, unless it waits for a lock or to be woken. -/
def go (th : Thread) (choice : Nat) (q : SharedQueue Thread T) : Option (SharedQueue Thread T) :=
  match q.threads th with
  | .idle | .asleep | .broken _ => none
  | .entering call =>
    if q.muxQueue = none then some ({ q with muxQueue := some th }.put th (.inside call)) else none
  | .inside call =>
    let r := ThreadAt.touch q.deqQueue call
    some ({ q with deqQueue := r.1 }.put th r.2)
  | .moved call t =>
    some ({ q with deqQueue := ThreadAt.remove q.deqQueue call }.put th (.leaving call (.item t)))
  | .inserted call =>
    if q.muxBlocking = none then some ({ q with muxBlocking := some th }.put th (.notifying call))
    else none
  | .notifying call => some ((q.notifyOne choice).put th (.notified call))
  | .notified call => some ({ q with muxBlocking := none }.put th (.leaving call .nothing))
  | .leaving call answer =>
    some ({ q with muxQueue := none, history := q.history ++ [(th, call, answer)] }.put th
      (ThreadAt.left call answer))
  | .foundEmpty =>
    if q.muxBlocking = none then some ({ q with muxBlocking := some th }.put th .locked) else none
  | .locked =>
    some ({ q with muxBlocking := none, cvBlocking := q.cvBlocking ++ [th] }.put th .asleep)
  | .woken =>
    if q.muxBlocking = none then some ({ q with muxBlocking := some th }.put th .relocked) else none
  | .relocked => some ({ q with muxBlocking := none }.put th (.entering .wait))

def step (q : SharedQueue Thread T) : SharedEvent Thread T → Option (SharedQueue Thread T)
  | .call th call =>
    match q.threads th with
    | .idle => some (q.put th (.entering call))
    | _ => none
  | .go th choice => q.go th choice
  | .wake th =>
    if th ∈ q.cvBlocking then some ({ q with cvBlocking := q.cvBlocking.erase th }.put th .woken)
    else none

variable {q q' : SharedQueue Thread T} {th o : Thread} {place : ThreadAt T}

@[simp] theorem put_deqQueue : (q.put th place).deqQueue = q.deqQueue := rfl
@[simp] theorem put_muxQueue : (q.put th place).muxQueue = q.muxQueue := rfl
@[simp] theorem put_muxBlocking : (q.put th place).muxBlocking = q.muxBlocking := rfl
@[simp] theorem put_cvBlocking : (q.put th place).cvBlocking = q.cvBlocking := rfl
@[simp] theorem put_history : (q.put th place).history = q.history := rfl

@[simp] theorem put_self : (q.put th place).threads th = place := Function.update_self ..

@[simp] theorem put_ne (h : o ≠ th) : (q.put th place).threads o = q.threads o :=
  Function.update_of_ne h ..

/-- The locks belong to the threads that have them, and who sleeps is on the list. -/
structure Owned (q : SharedQueue Thread T) : Prop where
  queue : ∀ th, (q.threads th).holdsQueue = true ↔ q.muxQueue = some th
  blocking : ∀ th, (q.threads th).holdsBlocking = true ↔ q.muxBlocking = some th
  sleeping : ∀ th ∈ q.cvBlocking, q.threads th = .asleep
  distinct : q.cvBlocking.Nodup

/-- What a lock may do in a step of `th`: it stays, `th` gets it or `th` gives it up. -/
def Handed (th : Thread) (before after : Option Thread) : Prop :=
  after = before ∨ (before = none ∧ after = some th) ∨ (before = some th ∧ after = none)

omit [DecidableEq Thread] in
theorem Handed.of_ne {before after : Option Thread} (h : Handed th before after) (hne : o ≠ th) :
    after = some o ↔ before = some o := by
  rcases h with rfl | ⟨rfl, rfl⟩ | ⟨rfl, rfl⟩
  · rfl
  · simp [hne.symm]
  · simp [hne.symm]

/-- A step of one thread. -/
theorem Owned.moved (h : Owned q) (hq : q'.threads = Function.update q.threads th place)
    (hqueue : Handed th q.muxQueue q'.muxQueue)
    (hhas : place.holdsQueue = true ↔ q'.muxQueue = some th)
    (hblocking : Handed th q.muxBlocking q'.muxBlocking)
    (hhas' : place.holdsBlocking = true ↔ q'.muxBlocking = some th)
    (hsleep : ∀ o ∈ q'.cvBlocking, o ≠ th → o ∈ q.cvBlocking)
    (hself : th ∈ q'.cvBlocking → place = .asleep) (hnodup : q'.cvBlocking.Nodup) : Owned q' := by
  refine ⟨fun o => ?_, fun o => ?_, fun o ho => ?_, hnodup⟩
  all_goals rw [hq]; by_cases hne : o = th
  · subst hne
    rwa [Function.update_self]
  · rw [Function.update_of_ne hne, hqueue.of_ne hne]
    exact h.queue o
  · subst hne
    rwa [Function.update_self]
  · rw [Function.update_of_ne hne, hblocking.of_ne hne]
    exact h.blocking o
  · subst hne
    rw [Function.update_self]
    exact hself ho
  · rw [Function.update_of_ne hne]
    exact h.sleeping o (hsleep o ho hne)

omit [DecidableEq Thread] in
theorem Owned.not_mem (h : Owned q) (hawake : q.threads th ≠ .asleep) : th ∉ q.cvBlocking :=
  fun hmem => hawake (h.sleeping th hmem)

/-- A step that keeps the sleepers. -/
theorem Owned.relocked (h : Owned q) (hq : q'.threads = Function.update q.threads th place)
    (hcv : q'.cvBlocking = q.cvBlocking) (hawake : q.threads th ≠ .asleep)
    (hqueue : Handed th q.muxQueue q'.muxQueue)
    (hhas : place.holdsQueue = true ↔ q'.muxQueue = some th)
    (hblocking : Handed th q.muxBlocking q'.muxBlocking)
    (hhas' : place.holdsBlocking = true ↔ q'.muxBlocking = some th) : Owned q' := by
  refine h.moved hq hqueue hhas hblocking hhas' (fun o ho _ => hcv ▸ ho) ?_ (hcv ▸ h.distinct)
  exact fun hmem => absurd (hcv ▸ hmem) (h.not_mem hawake)

/-- A step that keeps the locks and the sleepers. -/
theorem Owned.keep (h : Owned q) (hq : q'.threads = Function.update q.threads th place)
    (hqueue : q'.muxQueue = q.muxQueue) (hblocking : q'.muxBlocking = q.muxBlocking)
    (hcv : q'.cvBlocking = q.cvBlocking) (hold : place.holdsQueue = (q.threads th).holdsQueue)
    (hold' : place.holdsBlocking = (q.threads th).holdsBlocking)
    (hawake : q.threads th ≠ .asleep) : Owned q' := by
  refine h.relocked hq hcv hawake (.inl hqueue) ?_ (.inl hblocking) ?_
  · rw [hold, hqueue]
    exact h.queue th
  · rw [hold', hblocking]
    exact h.blocking th

/-- A sleeper wakes up. -/
theorem Owned.woken (h : Owned q) (hmem : th ∈ q.cvBlocking) :
    Owned ({ q with cvBlocking := q.cvBlocking.erase th }.put th .woken) := by
  have hasleep := h.sleeping th hmem
  have hqueue := h.queue th
  have hblocking := h.blocking th
  rw [hasleep] at hqueue hblocking
  refine h.moved rfl (.inl rfl) hqueue (.inl rfl) hblocking (fun o ho _ => List.mem_of_mem_erase ho) ?_
    (h.distinct.erase th)
  exact fun hin => absurd hin h.distinct.not_mem_erase

theorem Owned.notifyOne (h : Owned q) (choice : Nat) : Owned (q.notifyOne choice) := by
  unfold SharedQueue.notifyOne
  cases hw : q.cvBlocking[choice % q.cvBlocking.length]? with
  | none => exact h
  | some w => exact h.woken (List.mem_of_getElem? hw)

theorem touch_holds (l : List T) (call : QueueCall T) :
    (ThreadAt.touch l call).2.holdsQueue = true ∧ (ThreadAt.touch l call).2.holdsBlocking = false := by
  cases call with
  | front | popFront => cases h : l.head? <;> simp [ThreadAt.touch, h, ThreadAt.holdsQueue, ThreadAt.holdsBlocking]
  | back | popBack => cases h : l.getLast? <;> simp [ThreadAt.touch, h, ThreadAt.holdsQueue, ThreadAt.holdsBlocking]
  | pushBack item | pushFront item | empty | count | clear | wait => exact ⟨rfl, rfl⟩

theorem left_holds (call : QueueCall T) (answer : QueueAnswer T) :
    (ThreadAt.left call answer).holdsQueue = false ∧ (ThreadAt.left call answer).holdsBlocking = false := by
  unfold ThreadAt.left
  split
  · exact ⟨rfl, rfl⟩
  · exact ⟨rfl, rfl⟩

theorem go_awake {choice : Nat} (hgo : q.go th choice = some q') : q.threads th ≠ .asleep := by
  intro hat
  simp [SharedQueue.go, hat] at hgo

theorem Owned.go (h : Owned q) {choice : Nat} (hgo : q.go th choice = some q') : Owned q' := by
  have hawake := go_awake hgo
  have hqueue := h.queue th
  have hblocking := h.blocking th
  unfold SharedQueue.go at hgo
  split at hgo
  all_goals rename_i hat; rw [hat] at hqueue hblocking
  · exact nomatch hgo
  · exact nomatch hgo
  · exact nomatch hgo
  · -- `muxQueue` is locked
    obtain ⟨hfree, hgo⟩ := Option.ite_none_right_eq_some.mp hgo
    cases hgo
    exact h.relocked rfl rfl hawake (.inr (.inl ⟨hfree, rfl⟩)) (by simp [ThreadAt.holdsQueue]) (.inl rfl)
      hblocking
  · cases hgo
    obtain ⟨hholds, hfree⟩ := touch_holds q.deqQueue _
    exact h.keep rfl rfl rfl rfl (by rw [hat, hholds]; rfl) (by rw [hat, hfree]; rfl) hawake
  · cases hgo
    exact h.keep rfl rfl rfl rfl (by rw [hat]; rfl) (by rw [hat]; rfl) hawake
  · -- `muxBlocking` is locked by a push
    obtain ⟨hfree, hgo⟩ := Option.ite_none_right_eq_some.mp hgo
    cases hgo
    exact h.relocked rfl rfl hawake (.inl rfl) hqueue (.inr (.inl ⟨hfree, rfl⟩))
      (by simp [ThreadAt.holdsBlocking])
  · cases hgo
    have hnotified := h.notifyOne choice
    have hsame : (q.notifyOne choice).threads th = q.threads th := by
      unfold SharedQueue.notifyOne
      cases hw : q.cvBlocking[choice % q.cvBlocking.length]? with
      | none => rfl
      | some w =>
        have hne : th ≠ w := by
          rintro rfl
          exact h.not_mem hawake (List.mem_of_getElem? hw)
        exact put_ne hne
    exact hnotified.keep rfl rfl rfl rfl (by rw [hsame, hat]; rfl) (by rw [hsame, hat]; rfl)
      (by rwa [hsame])
  · -- `muxBlocking` is given back by a push
    cases hgo
    have hheld := hblocking.mp rfl
    exact h.relocked rfl rfl hawake (.inl rfl) hqueue (.inr (.inr ⟨hheld, rfl⟩))
      (by simp [ThreadAt.holdsBlocking])
  · -- `muxQueue` is given back
    cases hgo
    obtain ⟨hnot, hnot'⟩ := left_holds (T := T) _ _
    have hheld := hqueue.mp rfl
    exact h.relocked rfl rfl hawake (.inr (.inr ⟨hheld, rfl⟩)) (by rw [hnot]; simp) (.inl rfl)
      (by rw [hnot']; exact hblocking)
  · -- `muxBlocking` is locked by `wait`
    obtain ⟨hfree, hgo⟩ := Option.ite_none_right_eq_some.mp hgo
    cases hgo
    exact h.relocked rfl rfl hawake (.inl rfl) hqueue (.inr (.inl ⟨hfree, rfl⟩))
      (by simp [ThreadAt.holdsBlocking])
  · -- the thread goes to sleep
    cases hgo
    have hheld := hblocking.mp rfl
    refine h.moved rfl (.inl rfl) hqueue (.inr (.inr ⟨hheld, rfl⟩)) (by simp [ThreadAt.holdsBlocking])
      (fun o ho hne => ?_) (fun _ => rfl) ?_
    · rcases List.mem_append.mp ho with ho | ho
      · exact ho
      · exact absurd (List.mem_singleton.mp ho) hne
    · refine List.nodup_append.mpr ⟨h.distinct, List.nodup_singleton th, fun a ha b hb => ?_⟩
      rw [List.mem_singleton.mp hb]
      rintro rfl
      exact h.not_mem hawake ha
  · -- a thread that was woken has `muxBlocking` again
    obtain ⟨hfree, hgo⟩ := Option.ite_none_right_eq_some.mp hgo
    cases hgo
    exact h.relocked rfl rfl hawake (.inl rfl) hqueue (.inr (.inl ⟨hfree, rfl⟩))
      (by simp [ThreadAt.holdsBlocking])
  · cases hgo
    have hheld := hblocking.mp rfl
    exact h.relocked rfl rfl hawake (.inl rfl) hqueue (.inr (.inr ⟨hheld, rfl⟩))
      (by simp [ThreadAt.holdsBlocking])

theorem Owned.step (h : Owned q) {e : SharedEvent Thread T} (he : q.step e = some q') : Owned q' := by
  cases e with
  | call th call =>
    simp only [SharedQueue.step] at he
    split at he
    · rename_i hat
      cases he
      exact h.keep rfl rfl rfl rfl (by rw [hat]; rfl) (by rw [hat]; rfl) (by rw [hat]; exact nofun)
    · exact nomatch he
  | go th choice => exact h.go he
  | wake th =>
    obtain ⟨hmem, he⟩ := Option.ite_none_right_eq_some.mp he
    cases he
    exact h.woken hmem

omit [DecidableEq Thread] in
theorem initial_owned : Owned (initial : SharedQueue Thread T) := by
  refine ⟨fun th => ?_, fun th => ?_, fun th hmem => (nomatch hmem), .nil⟩
  · exact ⟨fun h => (nomatch h), fun h => (nomatch h)⟩
  · exact ⟨fun h => (nomatch h), fun h => (nomatch h)⟩

theorem owned {es : List (SharedEvent Thread T)} (hrun : Machine.run step initial es = some q) :
    Owned q :=
  Machine.invariant (fun _ _ _ h he => h.step he) initial_owned hrun

/-- The thread is in a call and does not sleep. -/
def Busy (q : SharedQueue Thread T) (th : Thread) : Prop :=
  q.threads th ≠ .idle ∧ q.threads th ≠ .asleep

/-- Whoever holds `muxBlocking` goes on. -/
theorem go_of_holdsBlocking (h : (q.threads th).holdsBlocking = true) : (q.go th 0).isSome := by
  unfold SharedQueue.go
  cases hat : q.threads th with
  | notifying _ | notified _ | locked | relocked => rfl
  | idle | entering _ | inside _ | moved _ _ | inserted _ | leaving _ _ | foundEmpty | asleep | woken
    | broken _ =>
    rw [hat] at h
    exact nomatch h

/-- Whoever holds `muxQueue` goes on while `muxBlocking` is free. -/
theorem go_of_holdsQueue (h : (q.threads th).holdsQueue = true) (hsound : ∀ call, q.threads th ≠ .broken call)
    (hfree : q.muxBlocking = none) : (q.go th 0).isSome := by
  unfold SharedQueue.go
  cases hat : q.threads th with
  | inside _ | moved _ _ | notifying _ | notified _ | leaving _ _ => rfl
  | inserted _ => simp [hfree]
  | broken call => exact absurd hat (hsound call)
  | idle | entering _ | locked | relocked | foundEmpty | asleep | woken =>
    rw [hat] at h
    exact nomatch h

theorem go_of_free (hbusy : Busy q th) (hqueue : (q.threads th).holdsQueue = false)
    (hblocking : (q.threads th).holdsBlocking = false) (hfree : q.muxQueue = none)
    (hfree' : q.muxBlocking = none) : (q.go th 0).isSome := by
  unfold SharedQueue.go
  cases hat : q.threads th with
  | idle => exact absurd hat hbusy.1
  | asleep => exact absurd hat hbusy.2
  | entering _ => simp [hfree]
  | foundEmpty | woken => simp [hfree']
  | inside _ | moved _ _ | inserted _ | notifying _ | notified _ | leaving _ _ | broken _ =>
    rw [hat] at hqueue
    exact nomatch hqueue
  | locked | relocked =>
    rw [hat] at hblocking
    exact nomatch hblocking

/-- In every interleaving of any number of threads: as long as a thread is in a call and does
not sleep, some thread that is in a call can go on, unless the end of an empty deque was used. -/
theorem deadlock_free {es : List (SharedEvent Thread T)} (hrun : Machine.run step initial es = some q)
    (hsound : ∀ th call, q.threads th ≠ .broken call) (hbusy : Busy q th) :
    ∃ o, Busy q o ∧ (q.step (.go o 0)).isSome := by
  have howned := owned hrun
  have hbusy_of : ∀ o, (q.go o 0).isSome → Busy q o := by
    intro o ho
    refine ⟨fun hat => ?_, fun hat => ?_⟩
    · simp [SharedQueue.go, hat] at ho
    · simp [SharedQueue.go, hat] at ho
  suffices hgo : ∃ o, (q.go o 0).isSome from hgo.imp fun o ho => ⟨hbusy_of o ho, ho⟩
  cases hblocking : q.muxBlocking with
  | some o => exact ⟨o, go_of_holdsBlocking ((howned.blocking o).mpr hblocking)⟩
  | none =>
    cases hqueue : q.muxQueue with
    | some o => exact ⟨o, go_of_holdsQueue ((howned.queue o).mpr hqueue) (hsound o) hblocking⟩
    | none =>
      refine ⟨th, go_of_free hbusy ?_ ?_ hqueue hblocking⟩
      · exact Bool.eq_false_iff.mpr fun h => Option.some_ne_none th (((howned.queue th).mp h).symm.trans hqueue)
      · exact Bool.eq_false_iff.mpr fun h =>
          Option.some_ne_none th (((howned.blocking th).mp h).symm.trans hblocking)

/-- A push waits for `muxBlocking` while the consumer is about to sleep. -/
def pushBeforeSleep : List (SharedEvent Bool Nat) :=
  [.call false .wait, .go false 0, .go false 0, .go false 0, .call true (.pushBack 5), .go true 0,
    .go true 0, .go false 0]

theorem deadlock_free_push : ∃ q : SharedQueue Bool Nat,
    Machine.run step initial pushBeforeSleep = some q ∧ (q.go true 0).isNone ∧
    ∃ o, Busy q o ∧ (q.step (.go o 0)).isSome := by
  have hrun : (Machine.run step (initial : SharedQueue Bool Nat) pushBeforeSleep).map
      (fun q => (q.threads true, q.threads false, (q.go true 0).isNone)) =
      some (.inserted (.pushBack 5), .locked, true) := by decide
  obtain ⟨q, hq, h⟩ := Option.map_eq_some_iff.mp hrun
  obtain ⟨hpush, h⟩ := Prod.mk.inj h
  obtain ⟨hwait, hnone⟩ := Prod.mk.inj h
  have hsound : ∀ th call, q.threads th ≠ .broken call := by
    intro th call
    cases th with
    | true => rw [hpush]; exact nofun
    | false => rw [hwait]; exact nofun
  have hbusy : Busy q true := by
    unfold Busy
    rw [hpush]
    exact ⟨nofun, nofun⟩
  exact ⟨q, hq, hnone, deadlock_free hq hsound hbusy⟩

/-- The calls, made one after the other on a deque that is empty at first, give these answers and
leave this deque. -/
inductive Sequential : List (Thread × QueueCall T × QueueAnswer T) → List T → Prop
  | start : Sequential [] []
  | next {h : List (Thread × QueueCall T × QueueAnswer T)} {l l' : List T} {call : QueueCall T}
      {answer : QueueAnswer T} (th : Thread) : Sequential h l → call.apply l = some (l', answer) →
      Sequential (h ++ [(th, call, answer)]) l'

/-- What the thread that holds `muxQueue` has made of the deque `l`. -/
def Pending (l deq : List T) : ThreadAt T → Prop
  | .moved call t => deq = l ∧ call.apply l = some (ThreadAt.remove l call, .item t)
  | .inserted call | .notifying call | .notified call => call.apply l = some (deq, .nothing)
  | .leaving call answer => call.apply l = some (deq, answer)
  | _ => deq = l

/-- The deque is that of the calls so far, apart from what the holder of `muxQueue` has done. -/
structure Linear (q : SharedQueue Thread T) (l : List T) : Prop where
  sequential : Sequential q.history l
  free : q.muxQueue = none → q.deqQueue = l
  held : ∀ th, q.muxQueue = some th → Pending l q.deqQueue (q.threads th)

theorem touch_pending (l : List T) (call : QueueCall T) :
    Pending l (ThreadAt.touch l call).1 (ThreadAt.touch l call).2 := by
  cases call with
  | front => cases h : l.head? <;> simp [ThreadAt.touch, h, Pending, QueueCall.apply]
  | back => cases h : l.getLast? <;> simp [ThreadAt.touch, h, Pending, QueueCall.apply]
  | popFront =>
    cases h : l.head? <;> simp [ThreadAt.touch, h, Pending, QueueCall.apply, ThreadAt.remove]
  | popBack =>
    cases h : l.getLast? <;> simp [ThreadAt.touch, h, Pending, QueueCall.apply, ThreadAt.remove]
  | pushBack item | pushFront item | empty | count | clear | wait => rfl

variable {l : List T}

/-- A step that touches neither the deque nor `muxQueue`. -/
theorem Linear.keep (h : Linear q l) (hq : q'.threads = Function.update q.threads th place)
    (hdeq : q'.deqQueue = q.deqQueue) (hmux : q'.muxQueue = q.muxQueue)
    (hhistory : q'.history = q.history)
    (hpending : q.muxQueue = some th → Pending l q.deqQueue place) : Linear q' l := by
  refine ⟨hhistory ▸ h.sequential, fun hfree => hdeq.trans (h.free (hmux.symm.trans hfree)),
    fun o ho => ?_⟩
  rw [hmux] at ho
  rw [hq, hdeq]
  by_cases hne : o = th
  · subst hne
    rw [Function.update_self]
    exact hpending ho
  · rw [Function.update_of_ne hne]
    exact h.held o ho

theorem Linear.notifyOne (h : Linear q l) (howned : Owned q) (choice : Nat) :
    Linear (q.notifyOne choice) l := by
  unfold SharedQueue.notifyOne
  cases hw : q.cvBlocking[choice % q.cvBlocking.length]? with
  | none => exact h
  | some w =>
    have hthreads : (({ q with cvBlocking := q.cvBlocking.erase w } : SharedQueue Thread T).put w
        .woken).threads = Function.update q.threads w .woken := rfl
    refine h.keep hthreads rfl rfl rfl fun hheld => ?_
    have hholds := (howned.queue w).mpr hheld
    rw [howned.sleeping w (List.mem_of_getElem? hw)] at hholds
    exact nomatch hholds

theorem Linear.go (h : Linear q l) (howned : Owned q) {choice : Nat} (hgo : q.go th choice = some q') :
    ∃ l', Linear q' l' := by
  have hnot : (q.threads th).holdsQueue = false → q.muxQueue ≠ some th := fun hfalse hheld => by
    rw [(howned.queue th).mpr hheld] at hfalse
    exact nomatch hfalse
  have hheld : (q.threads th).holdsQueue = true → q.muxQueue = some th := (howned.queue th).mp
  have hpending := h.held th
  unfold SharedQueue.go at hgo
  split at hgo
  all_goals rename_i hat; rw [hat] at hnot hheld hpending
  · exact nomatch hgo
  · exact nomatch hgo
  · exact nomatch hgo
  · obtain ⟨hfree, hgo⟩ := Option.ite_none_right_eq_some.mp hgo
    cases hgo
    refine ⟨l, h.sequential, nofun, fun o ho => ?_⟩
    cases Option.some.inj ho
    rw [put_self]
    exact h.free hfree
  · -- the deque is that of the calls so far
    cases hgo
    have hmux := hheld rfl
    refine ⟨l, h.sequential, fun hfree => absurd (hmux.symm.trans hfree) (Option.some_ne_none th),
      fun o ho => ?_⟩
    cases Option.some.inj (hmux.symm.trans ho)
    rw [put_self, show q.deqQueue = l from hpending hmux]
    exact touch_pending l _
  · cases hgo
    have hmux := hheld rfl
    refine ⟨l, h.sequential, fun hfree => absurd (hmux.symm.trans hfree) (Option.some_ne_none th),
      fun o ho => ?_⟩
    cases Option.some.inj (hmux.symm.trans ho)
    rw [put_self]
    obtain ⟨hdeq, happly⟩ := hpending hmux
    change QueueCall.apply l _ = some (ThreadAt.remove q.deqQueue _, _)
    rw [hdeq]
    exact happly
  · obtain ⟨-, hgo⟩ := Option.ite_none_right_eq_some.mp hgo
    cases hgo
    exact ⟨l, h.keep rfl rfl rfl rfl hpending⟩
  · cases hgo
    refine ⟨l, (h.notifyOne howned choice).keep rfl rfl rfl rfl fun hmux => ?_⟩
    have hsame : (q.notifyOne choice).muxQueue = q.muxQueue ∧
        (q.notifyOne choice).deqQueue = q.deqQueue := by
      unfold SharedQueue.notifyOne
      cases q.cvBlocking[choice % q.cvBlocking.length]? <;> exact ⟨rfl, rfl⟩
    rw [hsame.1] at hmux
    rw [hsame.2]
    exact hpending hmux
  · cases hgo
    exact ⟨l, h.keep rfl rfl rfl rfl hpending⟩
  · -- the call is over
    cases hgo
    exact ⟨q.deqQueue, .next th h.sequential (hpending (hheld rfl)), fun _ => rfl, nofun⟩
  · obtain ⟨-, hgo⟩ := Option.ite_none_right_eq_some.mp hgo
    cases hgo
    exact ⟨l, h.keep rfl rfl rfl rfl fun hmux => absurd hmux (hnot rfl)⟩
  · cases hgo
    exact ⟨l, h.keep rfl rfl rfl rfl fun hmux => absurd hmux (hnot rfl)⟩
  · obtain ⟨-, hgo⟩ := Option.ite_none_right_eq_some.mp hgo
    cases hgo
    exact ⟨l, h.keep rfl rfl rfl rfl fun hmux => absurd hmux (hnot rfl)⟩
  · cases hgo
    exact ⟨l, h.keep rfl rfl rfl rfl fun hmux => absurd hmux (hnot rfl)⟩

theorem Linear.step (h : Linear q l) (howned : Owned q) {e : SharedEvent Thread T}
    (he : q.step e = some q') : ∃ l', Linear q' l' := by
  have hnot : ∀ th, (q.threads th).holdsQueue = false → q.muxQueue ≠ some th := fun th hfalse hheld => by
    rw [(howned.queue th).mpr hheld] at hfalse
    exact nomatch hfalse
  cases e with
  | call th call =>
    simp only [SharedQueue.step] at he
    split at he
    · rename_i hat
      cases he
      exact ⟨l, h.keep rfl rfl rfl rfl fun hmux => absurd hmux (hnot th (by rw [hat]; rfl))⟩
    · exact nomatch he
  | go th choice => exact h.go howned he
  | wake th =>
    obtain ⟨hmem, he⟩ := Option.ite_none_right_eq_some.mp he
    cases he
    have hasleep := howned.sleeping th hmem
    exact ⟨l, h.keep rfl rfl rfl rfl fun hmux => absurd hmux (hnot th (by rw [hasleep]; rfl))⟩

theorem linearizable_run {es : List (SharedEvent Thread T)} (hrun : Machine.run step initial es = some q) :
    ∃ l, Sequential q.history l ∧ (q.muxQueue = none → q.deqQueue = l) := by
  have hinv := Machine.invariant (I := fun q : SharedQueue Thread T => Owned q ∧ ∃ l, Linear q l)
    (fun q e q' ⟨howned, l, hl⟩ he => ⟨howned.step he, hl.step howned he⟩)
    ⟨initial_owned, [], .start, fun _ => rfl, nofun⟩ hrun
  obtain ⟨-, l, hl⟩ := hinv
  exact ⟨l, hl.sequential, hl.free⟩

/-- In every interleaving of any number of threads the sections that `muxQueue` protects are
like calls made one after the other, in the order in which they are left, on a deque that
nobody else uses; while `muxQueue` is free the deque is the one that these calls leave. -/
theorem linearizable {es : List (SharedEvent Thread T)} (hrun : Machine.run step initial es = some q) :
    ∃ l, Sequential q.history l ∧ (q.muxQueue = none → q.deqQueue = l) :=
  linearizable_run hrun

/-- A pop while a push holds `muxQueue`. -/
def popDuringPush : List (SharedEvent Bool Nat) :=
  [.call true (.pushBack 5), .go true 0, .call false .popFront, .go true 0, .go true 0, .go true 0,
    .go true 0, .go true 0, .go false 0, .go false 0, .go false 0, .go false 0]

theorem linearizable_pop : ∃ q : SharedQueue Bool Nat,
    Machine.run step initial popDuringPush = some q ∧
    q.history = [(true, .pushBack 5, .nothing), (false, .popFront, .item 5)] ∧
    ∃ l, Sequential q.history l ∧ (q.muxQueue = none → q.deqQueue = l) := by
  have hrun : (Machine.run step (initial : SharedQueue Bool Nat) popDuringPush).map
      SharedQueue.history = some [(true, .pushBack 5, .nothing), (false, .popFront, .item 5)] := by
    decide
  obtain ⟨q, hq, hhistory⟩ := Option.map_eq_some_iff.mp hrun
  exact ⟨q, hq, hhistory, linearizable hq⟩

/-- The items of the calls of `push_back`. -/
def pushed (h : List (Thread × QueueCall T × QueueAnswer T)) : List T :=
  h.filterMap fun e => match e.2.1 with
    | .pushBack item => some item
    | _ => none

/-- The answers to the calls of `pop_front`. -/
def popped (h : List (Thread × QueueCall T × QueueAnswer T)) : List T :=
  h.filterMap fun e => match e.2 with
    | (.popFront, .item t) => some t
    | _ => none

/-- The other end of the deque is not written to, and nothing is thrown away. -/
def OneWay (h : List (Thread × QueueCall T × QueueAnswer T)) : Prop :=
  ∀ e ∈ h, e.2.1 ≠ .popBack ∧ e.2.1 ≠ .clear ∧ ∀ item, e.2.1 ≠ .pushFront item

omit [DecidableEq Thread] in
theorem Sequential.fifo {h : List (Thread × QueueCall T × QueueAnswer T)} (hs : Sequential h l)
    (hway : OneWay h) : popped h ++ l = pushed h := by
  induction hs with
  | start => rfl
  | @next h l l' call answer th hs happly ih =>
    have hbefore := ih fun e he => hway e (List.mem_append_left _ he)
    obtain ⟨hback, hclear, hfront⟩ := hway (th, call, answer) (by simp)
    unfold popped pushed at hbefore ⊢
    rw [List.filterMap_append, List.filterMap_append, ← hbefore]
    cases call with
    | popBack => exact absurd rfl hback
    | clear => exact absurd rfl hclear
    | pushFront item => exact absurd rfl (hfront item)
    | pushBack item =>
      cases happly
      simp
    | popFront =>
      obtain ⟨t, ht, hrest⟩ := Option.map_eq_some_iff.mp happly
      cases hrest
      cases l with
      | nil => exact nomatch ht
      | cons a l =>
        cases ht
        simp
    | front | back =>
      obtain ⟨t, -, hrest⟩ := Option.map_eq_some_iff.mp happly
      cases hrest
      simp
    | empty | count | wait =>
      cases happly
      simp

/-- Whatever the threads do, as long as nobody calls `push_front`, `pop_back` or `clear`: what was
popped, in the order of the pops, and then what is in the queue are what was pushed, in the
order of the pushes. -/
theorem first_in_first_out {es : List (SharedEvent Thread T)}
    (hrun : Machine.run step initial es = some q) (hway : OneWay q.history)
    (hfree : q.muxQueue = none) : popped q.history ++ q.deqQueue = pushed q.history := by
  obtain ⟨l, hl, hdeq⟩ := linearizable_run hrun
  rw [hdeq hfree]
  exact hl.fifo hway

/-- All steps of a thread in a call that does not sleep. -/
def steps (th : Bool) (n : Nat) : List (SharedEvent Bool Nat) := List.replicate n (.go th 0)

/-- One thread pushes two items and the other one pops the first of them. -/
def twoPushes : List (SharedEvent Bool Nat) :=
  .call true (.pushBack 5) :: steps true 6 ++ .call true (.pushBack 7) :: steps true 6 ++
    .call false .popFront :: steps false 4

theorem first_in_first_out_two : ∃ q : SharedQueue Bool Nat, Machine.run step initial twoPushes = some q ∧
    popped q.history = [5] ∧ popped q.history ++ q.deqQueue = pushed q.history := by
  have hrun : (Machine.run step (initial : SharedQueue Bool Nat) twoPushes).map
      (fun q => (q.muxQueue, q.history)) = some (none, [(true, .pushBack 5, .nothing),
        (true, .pushBack 7, .nothing), (false, .popFront, .item 5)]) := by decide
  obtain ⟨q, hq, h⟩ := Option.map_eq_some_iff.mp hrun
  obtain ⟨hfree, hhistory⟩ := Prod.mk.inj h
  have hway : OneWay q.history := by
    rw [hhistory]
    intro e he
    simp only [List.mem_cons, List.not_mem_nil, or_false] at he
    rcases he with rfl | rfl | rfl
    · exact ⟨nofun, nofun, nofun⟩
    · exact ⟨nofun, nofun, nofun⟩
    · exact ⟨nofun, nofun, nofun⟩
  exact ⟨q, hq, by rw [hhistory]; rfl, first_in_first_out hq hway hfree⟩

end SharedQueue

end AsciiTerra
