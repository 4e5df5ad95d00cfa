import AsciiTerra.SendPump

/-!
# Writes that overlap

`WriteValidation` is started by the accept handler on the server and by the read of the
challenge on the client, the pump of `Send` by its tasks. Neither asks whether the other
is writing, so which schedules keep them apart is a condition on the run.
-/

set_option autoImplicit false

namespace AsciiTerra

/-- One end, and whether its accept or connect handler has run. -/
structure End where
  connection : Connection
  begun : Bool
deriving DecidableEq, Repr

/-- What happens at one end, with any bytes from the peer. -/
inductive EndEvent
  /-- `async_connect` opens the socket -/
  | opened
  /-- the handler of `async_accept` or `async_connect` -/
  | begin
  | send (msg : Message)
  | out (e : OutEvent)
  | inn (stream : List UInt8) (e : InEvent)
deriving DecidableEq, Repr

namespace End

def startServer (now : UInt64) : End := ⟨.ofServer now, false⟩

def startClient : End := ⟨.ofClient, false⟩

/-- `OnClientConnect` and `ConnectToClient`, or the handler of `ConnectToServer`. -/
def onBegin (c : Connection) : Connection :=
  match c.ownerType with
  | .server => (c.send (.ofID .serverAccept)).writeValidation.readValidation
  | .client => c.readValidation

/-- A connection of the server is known to no one before it is accepted. -/
def step (s : End) : EndEvent → Option End
  | .opened => some { s with connection := { s.connection with socketOpen := true } }
  | .begin => if s.begun then none else some ⟨onBegin s.connection, true⟩
  | .send msg =>
    if s.connection.isConnected ∧ (s.connection.ownerType = .server → s.begun) then
      some { s with connection := s.connection.send msg }
    else none
  | .out e => (s.connection.stepOut e).map fun c => { s with connection := c }
  | .inn stream e => (s.connection.stepIn stream e).map fun c => { s with connection := c }

/-- The handler of `ReadValidationClient`, which starts the write of the answer. -/
def Answers (c : Connection) : InEvent → Prop
  | .received i =>
    c.ownerType = .client ∧ c.inn.reads[i]?.map PendingRead.op = some .readValidation
  | .receive _ _ => False

instance (c : Connection) : (e : InEvent) → Decidable (Answers c e)
  | .received _ => inferInstanceAs (Decidable (_ ∧ _))
  | .receive _ _ => .isFalse id

/-- A task runs while no handshake is being written, and an answer is started while nothing
is being written. -/
def Apart (s : End) : EndEvent → Prop
  | .out .task => ∀ w ∈ s.connection.out.writes, w.op ≠ .writeValidation
  | .inn _ e => Answers s.connection e → s.connection.out.writes = []
  | _ => True

instance (s : End) : (e : EndEvent) → Decidable (s.Apart e)
  | .out .task => inferInstanceAs (Decidable (∀ w ∈ s.connection.out.writes, w.op ≠ .writeValidation))
  | .inn _ _ => inferInstanceAs (Decidable (_ → _))
  | .opened | .begin | .send _ | .out (.transfer _ _) | .out (.written _) => .isTrue trivial

def Single (s : End) : Prop := s.connection.out.writes.length ≤ 1

instance (s : End) : Decidable s.Single := Nat.decLe _ _

/-- The pump runs alone, or the handshake is written and the queue is empty. -/
def Clear (o : Outgoing) : Prop :=
  (∃ left, o.Pumping left) ∨
    ((∃ rest, o.writes = [⟨.writeValidation, rest⟩]) ∧ o.qMessagesOut = [])

/-- `Clear`, and a server neither writes nor reads before it has accepted. -/
structure Tidy (s : End) : Prop where
  clear : Clear s.connection.out
  fresh : s.begun = false → s.connection.ownerType = .server →
    s.connection.out = .idle ∧ s.connection.inn.reads = []

theorem Clear.single {o : Outgoing} (h : Clear o) : o.writes.length ≤ 1 := by
  rcases h with ⟨left, h⟩ | ⟨⟨rest, hw⟩, _⟩
  · exact h.writes_le_one
  · simp [hw]

theorem clear_writeValidation {c : Connection} (hw : c.out.writes = [])
    (hq : c.out.qMessagesOut = []) : Clear c.writeValidation.out := by
  refine Or.inr ⟨⟨Codec.u64.encode c.nHandshakeOut, ?_⟩, hq⟩
  simp [Connection.writeValidation, Outgoing.asyncWrite, hw]

theorem Clear.queue_empty {o : Outgoing} (h : Clear o) (hw : o.writes = []) :
    o.qMessagesOut = [] := by
  rcases h with ⟨left, h⟩ | ⟨_, hq⟩
  · exact (h.empty_of_noWrite hw).1
  · exact hq

theorem Clear.send {o : Outgoing} (h : Clear o) (msg : Message) : Clear (o.send msg) := by
  rcases h with ⟨left, h⟩ | h
  · obtain ⟨_, _, left', hsend, _⟩ := h.run (rfl : Machine.run Outgoing.pumpStep o [.send msg] = _)
    exact Or.inl ⟨left', hsend⟩
  · exact Or.inr h

theorem Clear.stepOut {o o' : Outgoing} {e : OutEvent} (h : Clear o) (hstep : o.step e = some o')
    (hapart : e = .task → ∀ w ∈ o.writes, w.op ≠ .writeValidation) : Clear o' := by
  rcases h with ⟨left, h⟩ | ⟨⟨rest, hw⟩, hq⟩
  · obtain ⟨_, left', h'⟩ := h.step hstep
    exact Or.inl ⟨left', h'.pumping⟩
  · unfold Outgoing.step at hstep
    cases e with
    | task => exact absurd rfl (hapart rfl _ (hw ▸ List.mem_singleton_self _))
    | transfer i k =>
      cases hi : o.writes[i]? with
      | none => simp [hi] at hstep
      | some w =>
        simp only [hi, Option.ite_none_right_eq_some, Option.some.injEq] at hstep
        obtain ⟨-, rfl⟩ := hstep
        obtain ⟨rfl, rfl⟩ := eq_of_getElem?_singleton (hw ▸ hi)
        exact Or.inr ⟨⟨rest.drop k, by simp [hw]⟩, hq⟩
    | written i =>
      cases hi : o.writes[i]? with
      | none => simp [hi] at hstep
      | some w =>
        simp only [hi, Option.ite_none_right_eq_some, Option.some.injEq] at hstep
        obtain ⟨-, rfl⟩ := hstep
        obtain ⟨rfl, rfl⟩ := eq_of_getElem?_singleton (hw ▸ hi)
        exact Or.inl ⟨[], .idle hq (by simp [Outgoing.onWritten, hw])⟩

/-- A task during the handshake starts a second write. -/
theorem Clear.task_overlaps {o o' : Outgoing} {rest : List UInt8}
    (hw : o.writes = [⟨.writeValidation, rest⟩]) (hq : o.qMessagesOut = [])
    (hstep : o.step .task = some o') : o'.writes.length = 2 := by
  unfold Outgoing.step at hstep
  cases hp : o.posted with
  | nil => simp [hp] at hstep
  | cons msg posted =>
    simp only [hp, Option.some.injEq] at hstep
    subst hstep
    simp [Outgoing.runTask, hq, Outgoing.writeHeader, Outgoing.asyncWrite, hw]

theorem stepIn_out {c c' : Connection} {stream : List UInt8} {e : InEvent}
    (h : c.stepIn stream e = some c') :
    (Answers c e ∧ ∃ bytes, c'.out = c.out.asyncWrite .writeValidation bytes) ∨
    (¬ Answers c e ∧ (c'.out = c.out ∨ ∃ msg, c'.out = c.out.send msg)) := by
  cases e with
  | receive i k =>
    obtain ⟨inn, -, rfl⟩ := Option.map_eq_some_iff.mp h
    exact Or.inr ⟨id, Or.inl rfl⟩
  | received i =>
    unfold Connection.stepIn at h
    simp only at h
    split at h
    · rename_i want got hi
      simp only [Option.ite_none_right_eq_some, Option.some.injEq] at h
      obtain ⟨-, rfl⟩ := h
      cases howner : c.ownerType with
      | client =>
        refine Or.inl ⟨⟨howner, by rw [hi]; rfl⟩, Codec.u64.encode (scramble (Codec.u64.decode got)), ?_⟩
        simp [Connection.onReadValidation, Connection.writeValidation]
      | server =>
        refine Or.inr ⟨fun hbad => (by cases howner.symm.trans hbad.1), ?_⟩
        by_cases hmatch : Codec.u64.decode got = c.nHandshakeCheck
        · exact Or.inr ⟨.ofID .clientAccepted, by
            simp [Connection.onReadValidation, hmatch, Connection.send]⟩
        · exact Or.inl (by simp [Connection.onReadValidation, hmatch])
    · rename_i hi
      obtain ⟨inn, -, rfl⟩ := Option.map_eq_some_iff.mp h
      refine Or.inr ⟨fun hbad => ?_, Or.inl rfl⟩
      obtain ⟨⟨op, want, got⟩, hr, hop⟩ := Option.map_eq_some_iff.mp hbad.2
      cases hop
      exact hi want got hr

theorem tidy_startServer (now : UInt64) : (startServer now).Tidy :=
  ⟨Or.inl ⟨[], .idle rfl rfl⟩, fun _ _ => ⟨rfl, rfl⟩⟩

theorem tidy_startClient : startClient.Tidy :=
  ⟨Or.inl ⟨[], .idle rfl rfl⟩, fun _ _ => ⟨rfl, rfl⟩⟩

theorem Tidy.step {s s' : End} {e : EndEvent} (h : s.Tidy) (hapart : s.Apart e)
    (hstep : s.step e = some s') : s'.Tidy := by
  cases e with
  | opened =>
    cases hstep
    exact ⟨h.clear, h.fresh⟩
  | begin =>
    simp only [End.step, Option.ite_none_left_eq_some, Option.some.injEq] at hstep
    obtain ⟨hnot, rfl⟩ := hstep
    refine ⟨?_, fun hbegun => nomatch hbegun⟩
    cases howner : s.connection.ownerType with
    | client =>
      simp only [onBegin, howner]
      exact h.clear
    | server =>
      simp only [onBegin, howner]
      have hidle := (h.fresh (Bool.eq_false_iff.mpr hnot) howner).1
      refine clear_writeValidation ?_ ?_
      · simp [Connection.send, Outgoing.send, hidle, Outgoing.idle]
      · simp [Connection.send, Outgoing.send, hidle, Outgoing.idle]
  | send msg =>
    simp only [End.step, Option.ite_none_right_eq_some, Option.some.injEq] at hstep
    obtain ⟨⟨-, hbegun⟩, rfl⟩ := hstep
    refine ⟨h.clear.send msg, fun hnot howner => ?_⟩
    exact absurd (hbegun howner) (Bool.eq_false_iff.mp hnot)
  | out e =>
    obtain ⟨c, hc, rfl⟩ := Option.map_eq_some_iff.mp hstep
    have hout := Connection.stepOut_out hc
    refine ⟨h.clear.stepOut hout fun he => (by subst he; exact hapart), fun hnot howner => ?_⟩
    have hidle := (h.fresh hnot ((Connection.stepOut_frame hc).symm.trans howner)).1
    rw [hidle] at hout
    cases e <;> simp [Outgoing.step, Outgoing.idle] at hout
  | inn stream e =>
    obtain ⟨c, hc, rfl⟩ := Option.map_eq_some_iff.mp hstep
    have hfresh : s.begun = false → c.ownerType = .server → False := by
      intro hnot howner
      have hreads := (h.fresh hnot ((Connection.stepIn_frame hc).1.symm.trans howner)).2
      rcases Connection.stepIn_cases hc with ⟨i, _, _, hi, -⟩ | ⟨inn, hinn, -⟩
      · simp [hreads] at hi
      · cases e <;> simp [Incoming.step, hreads] at hinn
    refine ⟨?_, fun hnot howner => (hfresh hnot howner).elim⟩
    rcases stepIn_out hc with ⟨hanswers, bytes, hout⟩ | ⟨-, hout | ⟨msg, hout⟩⟩
    · have hw := hapart hanswers
      refine Or.inr ⟨⟨bytes, ?_⟩, ?_⟩
      · simp [hout, Outgoing.asyncWrite, hw]
      · simp [hout, Outgoing.asyncWrite, h.clear.queue_empty hw]
    · simp only [hout]
      exact h.clear
    · simp only [hout]
      exact h.clear.send msg

theorem Tidy.overlaps {s s' : End} {e : EndEvent} (h : s.Tidy) (hapart : ¬ s.Apart e)
    (hstep : s.step e = some s') : ¬ s'.Single := by
  have hsend : ∀ w : PendingWrite, w ∈ s.connection.out.writes → w.op = .writeValidation →
      ∃ rest, s.connection.out.writes = [⟨.writeValidation, rest⟩] ∧
        s.connection.out.qMessagesOut = [] := by
    intro w hmem hop
    rcases h.clear with ⟨left, hpump⟩ | ⟨⟨rest, hw⟩, hq⟩
    · obtain ⟨m, q, _, hmoves | hmoves⟩ := hpump.moves_front hmem
      · exact nomatch hop.symm.trans hmoves.1
      · exact nomatch hop.symm.trans hmoves.1
    · exact ⟨rest, hw, hq⟩
  cases e with
  | opened => exact absurd trivial hapart
  | begin => exact absurd trivial hapart
  | send msg => exact absurd trivial hapart
  | out e =>
    cases e with
    | transfer i k => exact absurd trivial hapart
    | written i => exact absurd trivial hapart
    | task =>
      obtain ⟨c, hc, rfl⟩ := Option.map_eq_some_iff.mp hstep
      simp only [Apart, ne_eq, not_forall, not_not] at hapart
      obtain ⟨w, hmem, hop⟩ := hapart
      obtain ⟨rest, hw, hq⟩ := hsend w hmem hop
      have htwo := Clear.task_overlaps hw hq (Connection.stepOut_out hc)
      simp [Single, htwo]
  | inn stream e =>
    obtain ⟨c, hc, rfl⟩ := Option.map_eq_some_iff.mp hstep
    simp only [Apart, not_forall] at hapart
    obtain ⟨hanswers, hne⟩ := hapart
    rcases stepIn_out hc with ⟨-, bytes, hout⟩ | ⟨hnot, -⟩
    · have hpos := List.length_pos_iff.mpr hne
      simp only [Single, hout, Outgoing.asyncWrite, List.length_append, List.length_singleton]
      omega
    · exact absurd hanswers hnot

/-- In a run, the writes of an end never overlap if and only if every step keeps the
handshake and the pump apart. -/
theorem single_iff_apart {s : End} {es : List EndEvent} (start : End)
    (hstart : start = startClient ∨ ∃ now, start = startServer now)
    (hrun : Machine.run step start es = some s) :
    Machine.Along step (fun s e => ∀ s', step s e = some s' → s'.Single) start es ↔
      Machine.Along step Apart start es := by
  have htidy : start.Tidy := by
    rcases hstart with rfl | ⟨now, rfl⟩
    · exact tidy_startClient
    · exact tidy_startServer now
  refine Machine.along_iff (fun s e s' hs hstep => ?_) (fun s e s' hs => hs.step) htidy hrun
  constructor
  · intro hsingle
    by_contra hnot
    exact hs.overlaps hnot hstep (hsingle s' hstep)
  · intro hapart t ht
    exact (hs.step hapart ht).clear.single

/-- The task of `OnClientConnect` runs before the challenge is written. -/
theorem serverAccept_overlaps : ∃ s, Machine.run step (startServer 0) [.begin, .out .task] = some s ∧
    ¬ s.Single := by
  refine ⟨_, rfl, ?_⟩
  decide

/-- It may also run afterwards. -/
theorem serverAccept_apart : Machine.Along step (fun s e => ∀ s', step s e = some s' → s'.Single)
    (startServer 0) [.begin, .out (.transfer 0 8), .out (.written 0), .out .task] := by
  have hrun : (Machine.run step (startServer 0)
    [.begin, .out (.transfer 0 8), .out (.written 0), .out .task]).isSome = true := by decide +kernel
  obtain ⟨s, hs⟩ := Option.isSome_iff_exists.mp hrun
  exact (single_iff_apart _ (Or.inr ⟨0, rfl⟩) hs).mpr (by decide +kernel)

end End

end AsciiTerra
