import AsciiTerra.Lib.Machine

/-!
# The queue between threads

`THSQueue` with any number of producers and one consumer. A push holds `muxQueue` from the
insertion to the end of its notification, for which it also takes `muxBlocking`. `wait`
tests for emptiness under `muxQueue` alone, gives it back, and only then takes
`muxBlocking` to sleep.
-/

set_option autoImplicit false

namespace AsciiTerra

/-- Where the consumer is. -/
inductive ConsumerAt
  /-- not in `wait` -/
  | outside
  /-- before the call of `empty` in `wait` -/
  | testing
  /-- `empty` returned `true` -/
  | foundEmpty
  /-- `muxBlocking` is locked -/
  | locked
  /-- in `cvBlocking.wait` -/
  | asleep
  /-- woken up, before it has `muxBlocking` again -/
  | woken
deriving DecidableEq, Repr

/-- The queue, the producer that has inserted an item and not yet notified, and the consumer. That
producer holds `muxQueue`; the consumer holds `muxBlocking` where it is `locked`. -/
structure THSQueue (Producer T : Type) where
  deqQueue : List T
  notifying : Option Producer
  consumer : ConsumerAt
deriving DecidableEq

/-- The steps: each locked section and each operation on `cvBlocking` is one. -/
inductive QueueEvent (Producer T : Type)
  | pushBack (p : Producer) (item : T)
  | pushFront (p : Producer) (item : T)
  | notifyOne (p : Producer)
  | callWait
  | empty
  | lockBlocking
  | sleep
  | wakeSpuriously
  | relock
  | popFront

/-- `notify_one` wakes the consumer if it sleeps. -/
def ConsumerAt.notified : ConsumerAt → ConsumerAt
  | .asleep => .woken
  | c => c

/-- The consumer is between its test and the end of its sleep. -/
def ConsumerAt.Committed (c : ConsumerAt) : Prop := c = .foundEmpty ∨ c = .locked ∨ c = .asleep

def QueueEvent.isNotification {Producer T : Type} : QueueEvent Producer T → Bool
  | .notifyOne _ => true
  | _ => false

namespace THSQueue
variable {Producer T : Type} [DecidableEq Producer]

def initial : THSQueue Producer T := ⟨[], none, .outside⟩

def step (q : THSQueue Producer T) : QueueEvent Producer T → Option (THSQueue Producer T)
  | .pushBack p item =>
    if q.notifying = none then
      some { q with deqQueue := q.deqQueue ++ [item], notifying := some p }
    else none
  | .pushFront p item =>
    if q.notifying = none then
      some { q with deqQueue := item :: q.deqQueue, notifying := some p }
    else none
  | .notifyOne p =>
    if q.notifying = some p ∧ q.consumer ≠ .locked then
      some { q with notifying := none, consumer := q.consumer.notified }
    else none
  | .callWait => if q.consumer = .outside then some { q with consumer := .testing } else none
  | .empty =>
    if q.consumer = .testing ∧ q.notifying = none then
      some { q with consumer := if q.deqQueue.isEmpty then .foundEmpty else .outside }
    else none
  | .lockBlocking => if q.consumer = .foundEmpty then some { q with consumer := .locked } else none
  | .sleep => if q.consumer = .locked then some { q with consumer := .asleep } else none
  | .wakeSpuriously => if q.consumer = .asleep then some { q with consumer := .woken } else none
  | .relock => if q.consumer = .woken then some { q with consumer := .testing } else none
  | .popFront =>
    if q.consumer = .outside ∧ q.notifying = none ∧ q.deqQueue ≠ [] then
      some { q with deqQueue := q.deqQueue.tail }
    else none

/-- The consumer sleeps although there is something in the queue, and nobody is about to wake
it. -/
def LostWakeUp (q : THSQueue Producer T) : Prop :=
  q.consumer = .asleep ∧ q.deqQueue ≠ [] ∧ q.notifying = none

/-- The step is no notification between the test and the sleep. -/
def Timely (q : THSQueue Producer T) (e : QueueEvent Producer T) : Prop :=
  ¬ (q.consumer = .foundEmpty ∧ e.isNotification = true)

instance (q : THSQueue Producer T) (e : QueueEvent Producer T) : Decidable (Timely q e) :=
  inferInstanceAs (Decidable (¬ _))

/-- A consumer that is going to sleep or sleeps has seen all items but one whose notification is to
come. -/
def Attended (q : THSQueue Producer T) : Prop :=
  q.consumer.Committed → q.deqQueue = [] ∨ q.notifying ≠ none

theorem Attended.step {q q' : THSQueue Producer T} (h : Attended q) {e : QueueEvent Producer T}
    (htimely : Timely q e) (he : q.step e = some q') : Attended q' := by
  cases e with
  | pushBack p item | pushFront p item =>
    obtain ⟨-, hq'⟩ := Option.ite_none_right_eq_some.mp he
    cases hq'
    intro _
    exact .inr nofun
  | notifyOne p =>
    obtain ⟨⟨-, hlocked⟩, hq'⟩ := Option.ite_none_right_eq_some.mp he
    cases hq'
    have hfound : q.consumer ≠ .foundEmpty := fun hfound => htimely ⟨hfound, rfl⟩
    intro hcommitted
    exfalso
    obtain ⟨deqQueue, notifying, consumer⟩ := q
    cases consumer with
    | foundEmpty => exact hfound rfl
    | locked => exact hlocked rfl
    | outside | testing | asleep | woken => rcases hcommitted with h | h | h <;> exact nomatch h
  | callWait | wakeSpuriously | relock =>
    obtain ⟨-, hq'⟩ := Option.ite_none_right_eq_some.mp he
    cases hq'
    rintro (h | h | h) <;> exact nomatch h
  | empty =>
    obtain ⟨-, hq'⟩ := Option.ite_none_right_eq_some.mp he
    cases hq'
    intro hcommitted
    by_cases hempty : q.deqQueue.isEmpty
    · exact .inl (List.isEmpty_iff.mp hempty)
    · simp only [if_neg hempty] at hcommitted
      rcases hcommitted with h | h | h <;> exact nomatch h
  | lockBlocking =>
    obtain ⟨hfound, hq'⟩ := Option.ite_none_right_eq_some.mp he
    cases hq'
    intro _
    exact h (.inl hfound)
  | sleep =>
    obtain ⟨hlocked, hq'⟩ := Option.ite_none_right_eq_some.mp he
    cases hq'
    intro _
    exact h (.inr (.inl hlocked))
  | popFront =>
    obtain ⟨⟨houtside, -⟩, hq'⟩ := Option.ite_none_right_eq_some.mp he
    cases hq'
    intro hcommitted
    simp only [houtside] at hcommitted
    rcases hcommitted with h | h | h <;> exact nomatch h

/-- No wake-up is lost in a run where no notification falls between a test and the sleep after
it. -/
theorem no_lost_wake_up {q : THSQueue Producer T} {es : List (QueueEvent Producer T)}
    (hrun : Machine.run step initial es = some q) (htimely : Machine.Along step Timely initial es) :
    ¬ LostWakeUp q := by
  have hattended : Attended q := by
    refine Machine.invariant_along (fun q e q' hq htimely he => hq.step htimely he) ?_ htimely hrun
    intro _
    exact .inl rfl
  rintro ⟨hasleep, hitems, hquiet⟩
  rcases hattended (.inr (.inr hasleep)) with hempty | hnotifying
  · exact hitems hempty
  · exact hnotifying hquiet

/-- An item comes in and is announced while the consumer sleeps. -/
def woken : List (QueueEvent Bool Nat) :=
  [.callWait, .empty, .lockBlocking, .sleep, .pushBack true 5, .notifyOne true, .relock, .empty]

theorem no_lost_wake_up_woken :
    ∃ q, Machine.run step (initial : THSQueue Bool Nat) woken = some q ∧ ¬ LostWakeUp q := by
  have hrun : (Machine.run step (initial : THSQueue Bool Nat) woken).isSome := by decide
  obtain ⟨q, hq⟩ := Option.isSome_iff_exists.mp hrun
  exact ⟨q, hq, no_lost_wake_up hq (by decide)⟩

theorem nonempty_of_notifying {q : THSQueue Producer T} {es : List (QueueEvent Producer T)}
    (hrun : Machine.run step initial es = some q) : q.notifying ≠ none → q.deqQueue ≠ [] := by
  refine Machine.invariant (I := fun q => q.notifying ≠ none → q.deqQueue ≠ []) ?_ ?_ hrun
  · intro q e q' hq he
    cases e with
    | pushBack p item | pushFront p item =>
      obtain ⟨-, hq'⟩ := Option.ite_none_right_eq_some.mp he
      cases hq'
      intro _
      simp
    | notifyOne p =>
      obtain ⟨-, hq'⟩ := Option.ite_none_right_eq_some.mp he
      cases hq'
      exact fun hne => absurd rfl hne
    | callWait | empty | lockBlocking | sleep | wakeSpuriously | relock =>
      obtain ⟨-, hq'⟩ := Option.ite_none_right_eq_some.mp he
      cases hq'
      exact hq
    | popFront =>
      obtain ⟨⟨-, hquiet, -⟩, hq'⟩ := Option.ite_none_right_eq_some.mp he
      cases hq'
      exact fun hne => absurd hquiet hne
  · exact fun hne => absurd rfl hne

/-- After a notification between the test and the sleep the wake-up is lost two steps later. -/
theorem lost_of_not_timely {q q' : THSQueue Producer T} {es : List (QueueEvent Producer T)}
    (hrun : Machine.run step initial es = some q) {e : QueueEvent Producer T}
    (huntimely : ¬ Timely q e) (he : q.step e = some q') :
    ∃ q'', Machine.run step q' [.lockBlocking, .sleep] = some q'' ∧ LostWakeUp q'' := by
  obtain ⟨hfound, hnotify⟩ := not_not.mp huntimely
  cases e with
  | notifyOne p =>
    obtain ⟨⟨hp, -⟩, hq'⟩ := Option.ite_none_right_eq_some.mp he
    have hitems := nonempty_of_notifying hrun (by rw [hp]; exact nofun)
    have hconsumer : q'.consumer = .foundEmpty := by
      cases hq'
      simp only [hfound, ConsumerAt.notified]
    have hqueue : q'.deqQueue ≠ [] ∧ q'.notifying = none := by
      cases hq'
      exact ⟨hitems, rfl⟩
    refine ⟨{ q' with consumer := .asleep }, ?_, rfl, hqueue⟩
    simp [Machine.run, step, hconsumer]
  | _ => exact nomatch hnotify

/-- The item and its notification come between the test and the sleep. -/
theorem lost_wake_up : ∃ q, Machine.run step (initial : THSQueue Bool Nat)
    [.callWait, .empty, .pushBack true 5, .notifyOne true, .lockBlocking, .sleep] = some q ∧
      LostWakeUp q :=
  ⟨⟨[5], none, .asleep⟩, by decide, rfl, by simp, rfl⟩

end THSQueue

end AsciiTerra
