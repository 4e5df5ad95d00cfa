import AsciiTerra.ClosedGame
import AsciiTerra.Framing

/-!
# The game over the bytes of a connection

A message without a body may arrive with the body of the message before. Nothing that server
and client send without a body is read for one, so the client comes to the same world and the
server does the same.
-/

set_option autoImplicit false

namespace AsciiTerra

/-- The client handles it without its body. -/
def Message.Signal (msg : Message) : Prop :=
  ECustomMetaMSG.ofCode msg.header.id ∈ [some .serverAccept, some .clientAccepted,
    some .serverShyConnectionCheck, some .gamePlayerTurn, some .gameEndPlayerTurn]

/-- The message states its size, and is without a body only where none is read. -/
def Message.Readable (msg : Message) : Prop := msg.SizeMatches ∧ (msg.body = [] → msg.Signal)

theorem Message.readable_push {α : Type} {layout : Codec α} (hpos : 0 < layout.size)
    (h : layout.size < 2 ^ 32) (id : ECustomMetaMSG) (a : α) :
    ((Message.ofID id).push layout a).Readable :=
  ⟨sizeMatches_push h id a, fun hnil => absurd hnil (body_push_ne hpos id a)⟩

namespace Client
variable {order : Arrangement (OrderedMap.Entry UInt32 Player)} {c : Client}

theorem updatePlayer_signal {msg : Message} (h : msg.Signal) (body : List UInt8) :
    c.updatePlayer order ⟨msg.header, body⟩ = c.updatePlayer order msg := by
  unfold Message.Signal at h
  simp only [List.mem_cons, List.not_mem_nil, or_false] at h
  unfold updatePlayer
  rcases h with h | h | h | h | h
  all_goals simp only [h]

/-- What is left of a body does not reach the world. -/
theorem updates_deliver {ms : List Message} (hms : ∀ msg ∈ ms, msg.body = [] → msg.Signal)
    (body : List UInt8) (c : Client) : c.updates order (deliver body ms) = c.updates order ms := by
  induction ms generalizing body c with
  | nil => rfl
  | cons msg ms ih =>
    have htail := fun body c => ih (fun m hm => hms m (List.mem_cons_of_mem _ hm)) body c
    unfold updates at htail ⊢
    rw [deliver]
    split
    · next hnil =>
      rw [List.foldlM_cons, List.foldlM_cons, updatePlayer_signal (hms msg List.mem_cons_self hnil)]
      simp only [htail]
    · rw [List.foldlM_cons, List.foldlM_cons]
      simp only [htail]

end Client

theorem deliver_headers (body : List UInt8) (ms : List Message) :
    (deliver body ms).map Message.header = ms.map Message.header := by
  induction ms generalizing body with
  | nil => rfl
  | cons msg ms ih =>
    rw [deliver]
    split
    · rw [List.map_cons, List.map_cons, ih]
    · rw [List.map_cons, List.map_cons, ih]

namespace Server
variable {s t : Server} {e : Event} {c : UInt32} {m : Message}

theorem TurnTalk.readable (h : TurnTalk c m) : m.Readable := by
  cases h with
  | turn => exact ⟨rfl, fun _ => by simp [Message.Signal]⟩
  | enemy action => exact Message.readable_push (by decide) (by decide) ..

theorem Utters.readable (h : Utters e c m) (hmsg : ∀ n chance d msg, e = .message n chance d msg →
    ClientSends d msg ∧ msg.Whole) : m.Readable := by
  cases h with
  | accepted | validated | checked => exact ⟨rfl, fun _ => by simp [Message.Signal]⟩
  | turnTalk h => exact h.readable
  | spoken h =>
    obtain ⟨hsends, hwhole⟩ := hmsg _ _ _ _ rfl
    cases h with
    | registered hid => exact Message.readable_push (by decide) (by decide) ..
    | validated d action => exact Message.readable_push (by decide) (by decide) ..
    | aborted action => exact Message.readable_push (by decide) (by decide) ..
    | ping hid => exact ⟨hwhole.1, fun hnil => absurd hnil (hwhole.2 hid)⟩
    | aside h =>
      cases h with
      | relayed d hid => exact absurd hid hsends.not_update
      | ended => exact ⟨rfl, fun _ => by simp [Message.Signal]⟩
      | removed | nextTurn | chat => exact Message.readable_push (by decide) (by decide) ..
      | welcome h =>
        cases h with
        | turnTalk h => exact h.readable
        | map | enemy | added => exact Message.readable_push (by decide) (by decide) ..

theorem step_readable (h : step s e = some t) (hmsg : ∀ n chance d msg, e = .message n chance d msg →
    ClientSends d msg ∧ msg.Whole) (hs : ∀ c, ∀ msg ∈ s.stream c, msg.Readable) :
    ∀ c, ∀ msg ∈ t.stream c, msg.Readable := by
  intro c msg hmem
  obtain ⟨new, hnew, hall⟩ := (step_utters h).stream_append c
  rw [hnew] at hmem
  rcases List.mem_append.mp hmem with hmem | hmem
  · exact hs c msg hmem
  · exact (hall msg hmem).readable hmsg

end Server

namespace Game
variable {order : UInt32 → Arrangement (OrderedMap.Entry UInt32 Player)} {map : UInt32 → Map}
variable {g g' : Game} {e : GameEvent} {c : UInt32}

theorem step_readable (h : Sane order map g) (hstep : g.step order e = some g')
    (hg : ∀ c, ∀ msg ∈ g.server.stream c, msg.Readable) :
    ∀ c, ∀ msg ∈ g'.server.stream c, msg.Readable := by
  cases step_played hstep with
  | served hevent hs =>
    rw [recorded_server]
    refine Server.step_readable hs (fun n chance d msg heq => ?_) hg
    subst heq
    obtain ⟨-, hmsg⟩ := serverEvent_message hevent
    have hmem := List.mem_of_getElem? hmsg
    exact ⟨(h.clients d).sends msg hmem, (h.clients d).whole msg hmem⟩
  | updated _ => exact hg
  | lost _ => exact hg

theorem run_readable {mapRand enemyRand : Nat → Nat} {closing : Nat → List UInt32}
    {events : List GameEvent}
    (hrun : Machine.run (step order) (start mapRand enemyRand closing map) events = some g) :
    ∀ c, ∀ msg ∈ g.server.stream c, msg.Readable := by
  have hboth := Machine.invariant
    (I := fun g : Game => Sane order map g ∧ ∀ c, ∀ msg ∈ g.server.stream c, msg.Readable)
    (fun g e g' h hstep => ⟨step_sane h.1 hstep, step_readable h.1 hstep h.2⟩)
    ⟨start_sane mapRand enemyRand closing, fun _ _ h => absurd h List.not_mem_nil⟩ hrun
  exact hboth.2

/-- What the server has sent to a client goes over the bytes of a connection, in any pieces. At
any time the messages that have arrived lead the client to the world that as many of those
that were sent lead to, and the connection can go on until all have arrived. -/
theorem world_over_bytes {mapRand enemyRand : Nat → Nat} {closing : Nat → List UInt32}
    {events : List GameEvent} {es : List LinkEvent} {l : Link}
    (hrun : Machine.run (step order) (start mapRand enemyRand closing map) events = some g)
    (hlink : Machine.run Link.step (Link.start (g.server.stream c)) es = some l) :
    (∃ recv, recv <+: g.server.stream c ∧
      l.inn.qMessagesIn.map Message.header = recv.map Message.header ∧
      (Client.start (map c)).updates (order c) l.inn.qMessagesIn =
        (Client.start (map c)).updates (order c) recv) ∧
    (∃ es' l', Machine.run Link.step l es' = some l' ∧ Machine.Stuck Link.step l') ∧
    (Machine.Stuck Link.step l → (Client.start (map c)).updates (order c) l.inn.qMessagesIn =
      (Client.start (map c)).updates (order c) (g.server.stream c)) := by
  have hreadable := run_readable hrun c
  have hsize : ∀ msg ∈ g.server.stream c, msg.SizeMatches := fun msg hmsg => (hreadable msg hmsg).1
  have hcarries : Link.Carries (g.server.stream c) l :=
    Machine.invariant (fun _ _ _ hs hstep => (hs.step hsize hstep).1) (Link.carries_start _) hlink
  obtain ⟨hends, hdelivers⟩ := Link.run_delivers hsize hlink
  refine ⟨?_, hends, fun hstuck => ?_⟩
  · obtain ⟨recv, rest, hms, hreading⟩ := hcarries.receiver
    have hrecv : ∀ msg ∈ recv, msg.body = [] → msg.Signal := fun msg hmsg =>
      (hreadable msg (hms ▸ List.mem_append_left rest hmsg)).2
    refine ⟨recv, ⟨rest, hms.symm⟩, ?_, ?_⟩
    · rw [hreading.1, deliver_headers]
    · rw [hreading.1, Client.updates_deliver hrecv]
  · rw [hdelivers hstuck, Client.updates_deliver fun msg hmsg => (hreadable msg hmsg).2]

/-- A client pings the server, which answers, and then checks its connections. -/
def pings : List GameEvent :=
  [.accept, .validated 10000,
    .updatePlayer 10000 { idleTick with keys := some fun i => i.val = 0 } false,
    .message 0 (.always 10) 10000, .shyCheck 0]

/-- All of it goes to the client, the ping in two parts. -/
def sentInPieces : List LinkEvent :=
  List.replicate 4 .send ++ List.replicate 4 (.out .task) ++
    (List.replicate 5 [.out (.transfer 0 8), .out (.written 0)]).flatten ++
    (List.replicate 5 [.inn (.receive 0 8), .inn (.received 0)]).flatten

def pong : Message := (Message.ofID .serverPing).push Codec.u64 0

/-- The check arrives with the body of the ping. -/
theorem world_over_bytes_pings : ∃ g l, Machine.run (step sameOrder) blankStart pings = some g ∧
    Machine.run Link.step (Link.start (g.server.stream 10000)) sentInPieces = some l ∧
    l.inn.qMessagesIn = [.ofID .serverAccept, .ofID .clientAccepted, pong,
      ⟨(Message.ofID .serverShyConnectionCheck).header, pong.body⟩] ∧
    ∃ recv, recv <+: g.server.stream 10000 ∧
      l.inn.qMessagesIn.map Message.header = recv.map Message.header ∧
      (Client.start (generateMap fun _ => 0)).updates (sameOrder 10000) l.inn.qMessagesIn =
        (Client.start (generateMap fun _ => 0)).updates (sameOrder 10000) recv := by
  have hrun : ((Machine.run (step sameOrder) blankStart pings).bind fun g =>
      (Machine.run Link.step (Link.start (g.server.stream 10000)) sentInPieces).map fun l =>
        l.inn.qMessagesIn) = some [.ofID .serverAccept, .ofID .clientAccepted, pong,
          ⟨(Message.ofID .serverShyConnectionCheck).header, pong.body⟩] := by decide +kernel
  obtain ⟨g, hg, hrest⟩ := Option.bind_eq_some_iff.mp hrun
  obtain ⟨l, hl, hreceived⟩ := Option.map_eq_some_iff.mp hrest
  exact ⟨g, l, hg, hl, hreceived, (world_over_bytes hg hl).1⟩

theorem deliver_alike {Q : Message → Prop} {ms : List Message} (hms : ∀ msg ∈ ms, Q msg)
    (body : List UInt8) :
    List.Forall₂ (fun msg' msg => Q msg ∧ msg'.header = msg.header ∧ (msg.body ≠ [] → msg' = msg))
      (deliver body ms) ms := by
  induction ms generalizing body with
  | nil => exact .nil
  | cons msg ms ih =>
    have htail := ih fun m hm => hms m (List.mem_cons_of_mem _ hm)
    have hhead := hms msg List.mem_cons_self
    rw [deliver]
    split
    · next hnil => exact .cons ⟨hhead, rfl, fun hne => absurd hnil hne⟩ (htail body)
    · exact .cons ⟨hhead, rfl, fun _ => rfl⟩ (htail msg.body)

theorem asks_without_body {msg : Message} (h : ClientSends c msg) (hwhole : msg.Whole)
    (hnil : msg.body = []) : ECustomMetaMSG.ofCode msg.header.id = some .messageAll ∨
      ECustomMetaMSG.ofCode msg.header.id = some .clientJustCheck := by
  cases h with
  | ping hid => exact absurd hnil (hwhole.2 (by rw [hid, ECustomMetaMSG.ofCode_code]))
  | messageAll => exact .inl (by simp)
  | justCheck => exact .inr (by simp)
  | register playerDesc =>
    have hne : (registerRequest playerDesc).body ≠ [] := Message.body_push_ne (by decide) _ _
    exact absurd hnil hne
  | @approve action =>
    have hne : (actionRequest action).body ≠ [] := Message.body_push_ne (by decide) _ _
    exact absurd hnil hne

/-- The server handles a chat and a check without their bodies. -/
theorem step_without_body {msg msg' : Message} (hheader : msg'.header = msg.header)
    (hid : ECustomMetaMSG.ofCode msg.header.id = some .messageAll ∨
      ECustomMetaMSG.ofCode msg.header.id = some .clientJustCheck)
    (s : Server) (depth : Nat) (chance : Chance) :
    s.step (.message depth chance c msg') = s.step (.message depth chance c msg) := by
  have hhandle : ∀ hook (s : Server),
      s.handleMessage hook chance c msg' = s.handleMessage hook chance c msg := by
    intro hook s
    unfold Server.handleMessage
    rw [hheader]
    rcases hid with hid | hid
    · simp only [hid]
    · simp only [hid]
  simp only [Server.step, Server.onMessage, hhandle]

/-- What a client has sent goes over the bytes of a connection, in any pieces. The server does
with the messages that arrive what it does with those that were sent, in any state, and the
connection can go on until all have arrived. -/
theorem requests_over_bytes {mapRand enemyRand : Nat → Nat} {closing : Nat → List UInt32}
    {events : List GameEvent} {es : List LinkEvent} {l : Link}
    (hrun : Machine.run (step order) (start mapRand enemyRand closing map) events = some g)
    (hlink : Machine.run Link.step (Link.start (g.clients c).sent) es = some l) :
    (∃ recv, recv <+: (g.clients c).sent ∧
      List.Forall₂ (fun msg' msg => msg'.header = msg.header ∧ ∀ (s : Server) (depth : Nat)
        (chance : Chance), s.step (.message depth chance c msg') = s.step (.message depth chance c msg))
        l.inn.qMessagesIn recv) ∧
    (∃ es' l', Machine.run Link.step l es' = some l' ∧ Machine.Stuck Link.step l') ∧
    (Machine.Stuck Link.step l → l.inn.qMessagesIn.length = (g.clients c).sent.length) := by
  have hclient := (run_sane hrun).clients c
  have hsize : ∀ msg ∈ (g.clients c).sent, msg.SizeMatches := fun msg hmsg => (hclient.whole msg hmsg).1
  have hcarries : Link.Carries (g.clients c).sent l :=
    Machine.invariant (fun _ _ _ hs hstep => (hs.step hsize hstep).1) (Link.carries_start _) hlink
  obtain ⟨hends, hdelivers⟩ := Link.run_delivers hsize hlink
  refine ⟨?_, hends, fun hstuck => ?_⟩
  · obtain ⟨recv, rest, hms, hreading⟩ := hcarries.receiver
    refine ⟨recv, ⟨rest, hms.symm⟩, ?_⟩
    have hrecv : ∀ msg ∈ recv, ClientSends c msg ∧ msg.Whole := by
      intro msg hmsg
      have hsent : msg ∈ (g.clients c).sent := hms ▸ List.mem_append_left rest hmsg
      exact ⟨hclient.sends msg hsent, hclient.whole msg hsent⟩
    rw [hreading.1]
    refine (deliver_alike hrecv []).imp fun msg' msg ⟨⟨hsends, hwhole⟩, hheader, hsame⟩ => ?_
    refine ⟨hheader, fun s depth chance => ?_⟩
    by_cases hnil : msg.body = []
    · exact step_without_body hheader (asks_without_body hsends hwhole hnil) s depth chance
    · rw [hsame hnil]
  · rw [hdelivers hstuck, length_deliver]

/-- The ping of the client and the check after it go to the server. -/
def askedInPieces : List LinkEvent :=
  List.replicate 2 .send ++ List.replicate 2 (.out .task) ++
    (List.replicate 3 [.out (.transfer 0 8), .out (.written 0)]).flatten ++
    (List.replicate 3 [.inn (.receive 0 8), .inn (.received 0)]).flatten

/-- The check arrives with the body of the ping. -/
theorem requests_over_bytes_pings : ∃ g l, Machine.run (step sameOrder) blankStart pings = some g ∧
    Machine.run Link.step (Link.start (g.clients 10000).sent) askedInPieces = some l ∧
    l.inn.qMessagesIn = [pong, ⟨(Message.ofID .clientJustCheck).header, pong.body⟩] ∧
    ∃ recv, recv <+: (g.clients 10000).sent ∧
      List.Forall₂ (fun msg' msg => msg'.header = msg.header ∧ ∀ (s : Server) (depth : Nat)
        (chance : Chance), s.step (.message depth chance 10000 msg') =
          s.step (.message depth chance 10000 msg)) l.inn.qMessagesIn recv := by
  have hrun : ((Machine.run (step sameOrder) blankStart pings).bind fun g =>
      (Machine.run Link.step (Link.start (g.clients 10000).sent) askedInPieces).map fun l =>
        l.inn.qMessagesIn) =
      some [pong, ⟨(Message.ofID .clientJustCheck).header, pong.body⟩] := by decide +kernel
  obtain ⟨g, hg, hrest⟩ := Option.bind_eq_some_iff.mp hrun
  obtain ⟨l, hl, hreceived⟩ := Option.map_eq_some_iff.mp hrest
  exact ⟨g, l, hg, hl, hreceived, (requests_over_bytes hg hl).1⟩

end Game

end AsciiTerra
