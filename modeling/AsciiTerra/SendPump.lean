import AsciiTerra.Framing
import AsciiTerra.Handshake

/-!
# The pump of `Send`

`Send`, `WriteHeader` and `WriteBody` restart each other, guarded only by whether the
queue is empty. `Pumping` says which write is outstanding for which queue and what is
left of it; no schedule of tasks and handlers leaves it.
-/

set_option autoImplicit false

namespace AsciiTerra

/-- The application calls `Send`, or the connection takes a step. -/
inductive PumpEvent
  | send (msg : Message)
  | out (e : OutEvent)
deriving DecidableEq, Repr

namespace Outgoing

def pumpStep (o : Outgoing) : PumpEvent → Option Outgoing
  | .send msg => some (o.send msg)
  | .out e => o.step e

/-- The messages of the calls of `Send`. -/
def sent : List PumpEvent → List Message
  | [] => []
  | .send msg :: es => msg :: sent es
  | .out _ :: es => sent es

/-- The write moves bytes of the message: an end of its header or of its body. -/
def Moves (w : PendingWrite) (m : Message) : Prop :=
  (w.op = .writeHeader ∧ w.rest <:+ Layout.messageHeader.encode m.header) ∨
    (w.op = .writeBody ∧ w.rest <:+ m.body)

/-- No handshake is going on, and the bytes `left` are still to be written for the
messages in the queue. -/
inductive Pumping (o : Outgoing) : List UInt8 → Prop
  | idle : o.qMessagesOut = [] → o.writes = [] → Pumping o []
  | header {m : Message} {q : List Message} {rest : List UInt8} : o.qMessagesOut = m :: q →
      o.writes = [⟨.writeHeader, rest⟩] → rest <:+ Layout.messageHeader.encode m.header →
      Pumping o (rest ++ m.body ++ frames q)
  | body {m : Message} {q : List Message} {rest : List UInt8} : o.qMessagesOut = m :: q →
      o.writes = [⟨.writeBody, rest⟩] → rest <:+ m.body → Pumping o (rest ++ frames q)

namespace Pumping
variable {o o' : Outgoing} {left : List UInt8}

theorem empty_of_noWrite (h : Pumping o left) (hw : o.writes = []) :
    o.qMessagesOut = [] ∧ left = [] := by
  cases h with
  | idle hq _ => exact ⟨hq, rfl⟩
  | header _ hw' _ => exact nomatch hw'.symm.trans hw
  | body _ hw' _ => exact nomatch hw'.symm.trans hw

theorem writes_le_one (h : Pumping o left) : o.writes.length ≤ 1 := by
  cases h with
  | idle _ hw => simp [hw]
  | header _ hw _ => simp [hw]
  | body _ hw _ => simp [hw]

theorem moves_front (h : Pumping o left) {w : PendingWrite} (hmem : w ∈ o.writes) :
    ∃ m q, o.qMessagesOut = m :: q ∧ Moves w m := by
  cases h with
  | idle _ hw =>
    rw [hw] at hmem
    exact absurd hmem List.not_mem_nil
  | header hq hw hrest =>
    rw [hw] at hmem
    cases List.mem_singleton.mp hmem
    exact ⟨_, _, hq, Or.inl ⟨rfl, hrest⟩⟩
  | body hq hw hrest =>
    rw [hw] at hmem
    cases List.mem_singleton.mp hmem
    exact ⟨_, _, hq, Or.inr ⟨rfl, hrest⟩⟩

theorem writeHeader (hw : o.writes = []) : Pumping o.writeHeader (frames o.qMessagesOut) := by
  cases hq : o.qMessagesOut with
  | nil =>
    have hsame : o.writeHeader = o := by simp [Outgoing.writeHeader, hq]
    rw [hsame]
    exact .idle hq hw
  | cons m q =>
    refine .header (m := m) (q := q) ?_ ?_ (List.suffix_refl _)
    · simp [hq]
    · simp [Outgoing.writeHeader, hq, asyncWrite, hw]

theorem popFront {m : Message} {q : List Message} (hq : o.qMessagesOut = m :: q)
    (hw : o.writes = []) : Pumping o.popFront (frames q) := by
  have hpop := writeHeader (o := { o with qMessagesOut := o.qMessagesOut.tail }) hw
  simpa [Outgoing.popFront, hq] using hpop

theorem task (h : Pumping o left) (posted : List Message) (msg : Message) :
    Pumping ({ o with posted := posted }.runTask msg) (left ++ msg.frame) := by
  cases h with
  | idle hq hw =>
    have hwrite := writeHeader (o := ⟨posted, [msg], o.writes, o.written⟩) hw
    simpa [runTask, hq] using hwrite
  | @header m q rest hq hw hrest =>
    have hadd := header (o := { o with posted := posted }.runTask msg) (m := m) (q := q ++ [msg])
      (by simp [runTask, hq]) (by simp [runTask, hq, hw]) hrest
    simpa using hadd
  | @body m q rest hq hw hrest =>
    have hadd := body (o := { o with posted := posted }.runTask msg) (m := m) (q := q ++ [msg])
      (by simp [runTask, hq]) (by simp [runTask, hq, hw]) hrest
    simpa using hadd

theorem transfer (h : Pumping o left) {i k : Nat} {w : PendingWrite} (hi : o.writes[i]? = some w)
    (hle : k ≤ w.rest.length) : ∃ left', w.rest.take k ++ left' = left ∧
      Pumping { o with
        writes := o.writes.set i ⟨w.op, w.rest.drop k⟩
        written := o.written ++ w.rest.take k } left' := by
  cases h with
  | idle _ hw => simp [hw] at hi
  | @header m q rest hq hw hrest =>
    obtain ⟨rfl, rfl⟩ := eq_of_getElem?_singleton (hw ▸ hi)
    refine ⟨rest.drop k ++ m.body ++ frames q, ?_, .header hq (by simp [hw]) ?_⟩
    · simp only [← List.append_assoc, List.take_append_drop]
    · exact (List.drop_suffix k rest).trans hrest
  | @body m q rest hq hw hrest =>
    obtain ⟨rfl, rfl⟩ := eq_of_getElem?_singleton (hw ▸ hi)
    refine ⟨rest.drop k ++ frames q, ?_, .body hq (by simp [hw]) ?_⟩
    · simp only [← List.append_assoc, List.take_append_drop]
    · exact (List.drop_suffix k rest).trans hrest

theorem written (h : Pumping o left) {i : Nat} {w : PendingWrite} (hi : o.writes[i]? = some w)
    (hrest : w.rest = []) :
    Pumping ({ o with writes := o.writes.eraseIdx i }.onWritten w.op) left := by
  cases h with
  | idle _ hw => simp [hw] at hi
  | @header m q rest hq hw _ =>
    obtain ⟨rfl, rfl⟩ := eq_of_getElem?_singleton (hw ▸ hi)
    obtain rfl : rest = [] := hrest
    by_cases hbody : m.body.length > 0
    · refine .body (m := m) (q := q) ?_ ?_ (List.suffix_refl _)
      · simp [onWritten, hq, hbody, writeBody, asyncWrite]
      · simp [onWritten, hq, hw, hbody, writeBody, asyncWrite]
    · have hnil : m.body = [] := List.length_eq_zero_iff.mp (Nat.eq_zero_of_not_pos hbody)
      have hpop := popFront (o := { o with writes := [] }) hq rfl
      simpa [onWritten, hq, hw, hnil] using hpop
  | @body m q rest hq hw _ =>
    obtain ⟨rfl, rfl⟩ := eq_of_getElem?_singleton (hw ▸ hi)
    obtain rfl : rest = [] := hrest
    have hpop := popFront (o := { o with writes := [] }) hq rfl
    simpa [onWritten, hw] using hpop

end Pumping

@[simp] theorem runTask_posted (msg : Message) (o : Outgoing) :
    (o.runTask msg).posted = o.posted := by
  unfold runTask
  simp only
  split
  · rw [writeHeader_posted]
  · rfl

@[simp] theorem runTask_written (msg : Message) (o : Outgoing) :
    (o.runTask msg).written = o.written := by
  unfold runTask writeHeader
  simp only
  split
  · split <;> rfl
  · rfl

theorem onWritten_posted (op : WriteOp) (o : Outgoing) : (o.onWritten op).posted = o.posted := by
  cases op with
  | writeHeader =>
    unfold onWritten
    simp only
    split
    · rfl
    · split
      · unfold writeBody
        split <;> rfl
      · exact writeHeader_posted _
  | writeBody => exact writeHeader_posted _
  | writeValidation => rfl

/-- The messages of `ran` have left the tasks, and what is written together with what is
left has grown by their bytes. -/
structure Pumped (o o' : Outgoing) (ran : List Message) (left left' : List UInt8) : Prop where
  pumping : Pumping o' left'
  tasks : ran ++ o'.posted = o.posted
  bytes : ∃ new, o'.written = o.written ++ new ∧ new ++ left' = left ++ frames ran

theorem Pumping.step {o o' : Outgoing} {left : List UInt8} {e : OutEvent} (h : Pumping o left)
    (hstep : o.step e = some o') : ∃ ran left', Pumped o o' ran left left' := by
  unfold Outgoing.step at hstep
  cases e with
  | task =>
    cases hp : o.posted with
    | nil => simp [hp] at hstep
    | cons msg posted =>
      simp only [hp, Option.some.injEq] at hstep
      subst hstep
      exact ⟨[msg], _, h.task posted msg, by simp [hp], [], by simp, by simp⟩
  | transfer i k =>
    cases hi : o.writes[i]? with
    | none => simp [hi] at hstep
    | some w =>
      simp only [hi, Option.ite_none_right_eq_some, Option.some.injEq] at hstep
      obtain ⟨⟨-, hle⟩, rfl⟩ := hstep
      obtain ⟨left', hleft, hpump⟩ := h.transfer hi hle
      exact ⟨[], left', hpump, rfl, _, rfl, by simpa using hleft⟩
  | written i =>
    cases hi : o.writes[i]? with
    | none => simp [hi] at hstep
    | some w =>
      simp only [hi, Option.ite_none_right_eq_some, Option.some.injEq] at hstep
      obtain ⟨hrest, rfl⟩ := hstep
      exact ⟨[], left, h.written hi hrest, onWritten_posted _ _, [], by simp [onWritten_written],
        by simp⟩

theorem Pumping.run {o o' : Outgoing} {left : List UInt8} {es : List PumpEvent} (h : Pumping o left)
    (hrun : Machine.run pumpStep o es = some o') : ∃ ran new left', Pumping o' left' ∧
      ran ++ o'.posted = o.posted ++ sent es ∧ o'.written = o.written ++ new ∧
      new ++ left' = left ++ frames ran := by
  induction es generalizing o left with
  | nil =>
    cases hrun
    exact ⟨[], [], left, h, by simp [sent], by simp, by simp⟩
  | cons e es ih =>
    obtain ⟨o₁, hstep, hlater⟩ := Machine.run_cons_eq_some.mp hrun
    cases e with
    | send msg =>
      cases hstep
      have hsend : Pumping (o.send msg) left := by
        cases h with
        | idle hq hw => exact .idle hq hw
        | header hq hw hrest => exact .header hq hw hrest
        | body hq hw hrest => exact .body hq hw hrest
      obtain ⟨ran, new, left', hpump, htasks, hwritten, hbytes⟩ := ih hsend hlater
      exact ⟨ran, new, left', hpump, by simpa [send, sent] using htasks, hwritten, hbytes⟩
    | out e =>
      obtain ⟨ran₁, left₁, hpump₁, htasks₁, new₁, hwritten₁, hbytes₁⟩ := h.step hstep
      obtain ⟨ran, new, left', hpump, htasks, hwritten, hbytes⟩ := ih hpump₁ hlater
      refine ⟨ran₁ ++ ran, new₁ ++ new, left', hpump, ?_, ?_, ?_⟩
      · rw [List.append_assoc, htasks, ← List.append_assoc, htasks₁]
        rfl
      · rw [hwritten, hwritten₁, List.append_assoc]
      · rw [List.append_assoc, hbytes, ← List.append_assoc, hbytes₁, List.append_assoc,
          frames_append]

theorem Pumping.stuck {o : Outgoing} {left : List UInt8} (h : Pumping o left)
    (hstuck : ∀ e, o.step e = none) : o.posted = [] ∧ o.writes = [] := by
  refine ⟨?_, ?_⟩
  · have htask := hstuck .task
    unfold Outgoing.step at htask
    cases hp : o.posted with
    | nil => rfl
    | cons msg posted => simp [hp] at htask
  · have hwrites : ∀ w, o.writes ≠ [w] := by
      intro w hw
      cases hrest : w.rest with
      | nil => simpa [Outgoing.step, hw, hrest] using hstuck (.written 0)
      | cons b rest => simpa [Outgoing.step, hw, hrest] using hstuck (.transfer 0 1)
    cases h with
    | idle _ hw => exact hw
    | header _ hw _ => exact absurd hw (hwrites _)
    | body _ hw _ => exact absurd hw (hwrites _)

/-- What the pump has done after a run: the bytes of the messages in the order of their
tasks, a queue that is empty when nothing is written, and its front on the wire otherwise.
A pump that has come to a stop has written everything. -/
structure InOrder (o o' : Outgoing) (left : List UInt8) (sent : List Message) : Prop where
  bytes : ∃ ran pending, ran ++ o'.posted = o.posted ++ sent ∧
    o'.written ++ pending = o.written ++ left ++ frames ran ∧ (o'.writes = [] → pending = [])
  quiet : o'.writes = [] → o'.qMessagesOut = []
  front : ∀ w ∈ o'.writes, ∃ m q, o'.qMessagesOut = m :: q ∧ Moves w m
  single : o'.writes.length ≤ 1
  complete : (∀ e, o'.step e = none) →
    o'.written = o.written ++ left ++ frames (o.posted ++ sent)

/-- Whatever the schedule, the pump writes the messages one after the other. -/
theorem pump_inOrder {o o' : Outgoing} {left : List UInt8} {es : List PumpEvent}
    (h : Pumping o left) (hrun : Machine.run pumpStep o es = some o') :
    InOrder o o' left (sent es) := by
  obtain ⟨ran, new, left', hpump, htasks, hwritten, hbytes⟩ := h.run hrun
  have hall : o'.written ++ left' = o.written ++ left ++ frames ran := by
    rw [hwritten, List.append_assoc, hbytes, List.append_assoc]
  refine ⟨⟨ran, left', htasks, hall, fun hw => (hpump.empty_of_noWrite hw).2⟩,
    fun hw => (hpump.empty_of_noWrite hw).1, fun w => hpump.moves_front, hpump.writes_le_one,
    fun hstuck => ?_⟩
  obtain ⟨hposted, hw⟩ := hpump.stuck hstuck
  rw [(hpump.empty_of_noWrite hw).2, List.append_nil] at hall
  rw [hall, ← htasks, hposted, List.append_nil]

/-- Two messages, of which the second is sent while the header of the first is written. -/
theorem pump_inOrder_two : ∃ o, Machine.run pumpStep idle
    [.send Link.stepRequest, .out .task, .out (.transfer 0 3), .send (.ofID .clientJustCheck),
      .out .task] = some o ∧
    InOrder idle o [] [Link.stepRequest, .ofID .clientJustCheck] := by
  have hrun : (Machine.run pumpStep idle
    [.send Link.stepRequest, .out .task, .out (.transfer 0 3), .send (.ofID .clientJustCheck),
      .out .task]).isSome = true := by decide +kernel
  obtain ⟨o, ho⟩ := Option.isSome_iff_exists.mp hrun
  exact ⟨o, ho, pump_inOrder (.idle rfl rfl) ho⟩

end Outgoing

end AsciiTerra
