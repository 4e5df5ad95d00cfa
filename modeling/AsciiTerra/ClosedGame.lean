import AsciiTerra.ClientLoop
import AsciiTerra.Replies
import AsciiTerra.Replicas

/-!
# The server with its clients

The server and any number of clients that all run `CustomClient`, each on a reliable
connection that keeps the order. What is known of servers whose clients behave like
`CustomClient` holds here of every run.
-/

set_option autoImplicit false

namespace AsciiTerra

/-- `ClientAccepted`. -/
def Message.Accepts (msg : Message) : Prop :=
  ECustomMetaMSG.ofCode msg.header.id = some .clientAccepted

instance (msg : Message) : Decidable msg.Accepts := inferInstanceAs (Decidable (_ = _))

/-- A `ClientRegisterFromServer` carries this ID. -/
def Message.RegistersAs (c : UInt32) (msg : Message) : Prop :=
  msg.Registers → ∀ p rest, msg.pop Layout.player = .ok (p, rest) → p.id = c

namespace Server
variable {s t : Server} {e : Event} {c : UInt32}

open Outcome (Post)

inductive Utters : Event → UInt32 → Message → Prop
  | accepted (c : UInt32) : Utters .accept c (.ofID .serverAccept)
  | validated (c : UInt32) : Utters (.validated c) c (.ofID .clientAccepted)
  | turnTalk {e : Event} {d : UInt32} {m : Message} : TurnTalk d m → Utters e d m
  | checked (n : Nat) (d : UInt32) : Utters (.shyCheck n) d (.ofID .serverShyConnectionCheck)
  | spoken {n : Nat} {chance : Chance} {c d : UInt32} {msg m : Message} :
      Speaks c msg d m → Utters (.message n chance c msg) d m

theorem step_utters (h : step s e = some t) : Said (Utters e) s t := by
  cases step_cases h with
  | accept _ => exact ((Said.refl s).send (.accepted _)).silent rfl rfl
  | validated c _ => exact (Said.refl s).send (.validated c)
  | close c _ => exact .of_eq (List.subset_cons_self c _) rfl
  | shyCheck n hok =>
    exact messageAllClients_said (onClientDisconnect_said (fun _ _ => .turnTalk) n)
      (fun d => .checked n d) none t hok
  | message n chance c msg hc hok =>
    obtain ⟨u, hu, hok⟩ := Outcome.bind_eq_ok.mp hok
    have hflush := flushGarbage_said (said_aside n) (fun _ _ (hm : Aside c msg _ _) => hm) u hu
    have hhandled := handleMessage_said
      (onClientDisconnect_said (fun _ _ hm => .aside (.welcome (.turnTalk hm))) n) chance t hok
    exact (hflush.mono fun _ _ hm => .spoken (.aside hm)).trans (hhandled.mono fun _ _ => .spoken)

theorem Said.stream_append {Q : UInt32 → Message → Prop} (h : Said Q s t) (c : UInt32) :
    ∃ new, t.stream c = s.stream c ++ new ∧ ∀ msg ∈ new, Q c msg := by
  obtain ⟨-, new, hnew, hQ⟩ := h
  refine ⟨(new.filter fun m => m.1 = c).map Prod.snd, ?_, fun msg hmsg => ?_⟩
  · unfold Server.stream
    rw [hnew, List.filter_append, List.map_append]
  · obtain ⟨m, hm, rfl⟩ := List.mem_map.mp hmsg
    obtain ⟨hm, hc⟩ := List.mem_filter.mp hm
    exact of_decide_eq_true hc ▸ hQ m hm

theorem TurnTalk.quiet {m : Message} (h : TurnTalk c m) : ¬ m.Registers ∧ ¬ m.Accepts := by
  cases h with
  | turn => simp [Message.Registers, Message.Accepts]
  | enemy action => simp [Message.Registers, Message.Accepts, gameAITurnAction]

theorem Utters.registersAs {m : Message} (h : Utters e c m) : m.RegistersAs c := by
  intro hreg p rest hpop
  cases h with
  | accepted | validated | checked => simp [Message.Registers] at hreg
  | turnTalk h => exact absurd hreg h.quiet.1
  | spoken h =>
    cases h with
    | registered hid =>
      rw [Message.pop_push] at hpop
      cases hpop
      exact hid
    | validated d action => simp [Message.Registers, actionValidated] at hreg
    | aborted action => simp [Message.Registers] at hreg
    | ping hid => simp [Message.Registers, hid] at hreg
    | aside h =>
      cases h with
      | relayed d hid => simp [Message.Registers, hid] at hreg
      | removed | ended | nextTurn | chat => simp [Message.Registers] at hreg
      | welcome h =>
        cases h with
        | turnTalk h => exact absurd hreg h.quiet.1
        | map | enemy | added => simp [Message.Registers] at hreg

theorem Utters.validated_of_accepts {m : Message} (h : Utters e c m) (hacc : m.Accepts) :
    e = .validated c := by
  cases h with
  | validated => rfl
  | accepted | checked => simp [Message.Accepts] at hacc
  | turnTalk h => exact absurd hacc h.quiet.2
  | spoken h =>
    cases h with
    | registered hid => simp [Message.Accepts] at hacc
    | validated d action => simp [Message.Accepts, actionValidated] at hacc
    | aborted action => simp [Message.Accepts] at hacc
    | ping hid => simp [Message.Accepts, hid] at hacc
    | aside h =>
      cases h with
      | relayed d hid => simp [Message.Accepts, hid] at hacc
      | removed | ended | nextTurn | chat => simp [Message.Accepts] at hacc
      | welcome h =>
        cases h with
        | turnTalk h => exact absurd hacc h.quiet.2
        | map | enemy | added => simp [Message.Accepts] at hacc

theorem step_stream (h : step s e = some t) (c : UInt32) : s.stream c <+: t.stream c := by
  obtain ⟨new, hnew, -⟩ := (step_utters h).stream_append c
  exact ⟨new, hnew.symm⟩

theorem step_registersAs (h : step s e = some t) (hs : ∀ c, ∀ msg ∈ s.stream c, msg.RegistersAs c) :
    ∀ c, ∀ msg ∈ t.stream c, msg.RegistersAs c := by
  intro c msg hmsg
  obtain ⟨new, hnew, hall⟩ := (step_utters h).stream_append c
  rw [hnew] at hmsg
  rcases List.mem_append.mp hmsg with hmsg | hmsg
  · exact hs c msg hmsg
  · exact (hall msg hmsg).registersAs

theorem step_accepts (h : step s e = some t) (he : e ≠ .validated c) :
    (t.stream c).countP (fun msg => msg.Accepts) = (s.stream c).countP fun msg => msg.Accepts := by
  obtain ⟨new, hnew, hall⟩ := (step_utters h).stream_append c
  have hzero : (new.countP fun msg => msg.Accepts) = 0 := by
    apply List.countP_eq_zero.mpr
    intro msg hmsg hacc
    exact he ((hall msg hmsg).validated_of_accepts (of_decide_eq_true hacc))
  rw [hnew, List.countP_append, hzero, Nat.add_zero]

/-- Only a registration enters a player. -/
theorem step_entered (hs : s.Idle) (h : step s e = some t) (hc : c ∈ t.gameWorld.playersList) :
    c ∈ s.gameWorld.playersList ∨
      ∃ n chance msg, e = .message n chance c msg ∧ CustomClient.AsksIn msg := by
  cases step_cases h with
  | accept _ => exact .inl hc
  | validated _ _ => exact .inl hc
  | close _ _ => exact .inl hc
  | shyCheck n hok =>
    exact .inl ((messageAllClients_spec (onClientDisconnect_spec n) hs.wellFormed t hok).players c hc)
  | message n chance d msg hd hok =>
    obtain ⟨u, -, hflush, v, hbegan, hhandled, -⟩ := onMessage_cases hs hd hok
    have hv := hhandled.players c hc
    cases hbegan with
    | nothing => exact .inl (hflush.players c hv)
    | entered order hid _ _ =>
      rcases OrderedMap.mem_insertOrAssign.mp hv with rfl | hv
      · exact .inr ⟨n, chance, msg, rfl, hid⟩
      · exact .inl (hflush.players c hv)
    | applied _ hw =>
      have hacted := GameWorld.makeApprovedAction_actedBy hflush.wellFormed.keysAreIDs hw
      exact .inl (hflush.players c (hacted.players.mem_iff.mp hv))

theorem HonestlyReachable.step (hs : s.HonestlyReachable) (h : Server.step s e = some t)
    (hsends : ∀ depth chance c msg, e = .message depth chance c msg → ClientSends c msg) :
    t.HonestlyReachable := by
  obtain ⟨mapRand, enemyRand, closing, events, hhonest, hrun⟩ := hs
  refine ⟨mapRand, enemyRand, closing, events ++ [e], fun depth chance c msg hmem => ?_,
    Machine.run_append_eq_some.mpr ⟨s, hrun, Machine.run_cons_eq_some.mpr ⟨t, h, rfl⟩⟩⟩
  rcases List.mem_append.mp hmem with hmem | hmem
  · exact hhonest depth chance c msg hmem
  · exact hsends depth chance c msg (List.mem_singleton.mp hmem).symm

end Server

theorem Client.updatePlayer_playerID {order : Arrangement (OrderedMap.Entry UInt32 Player)}
    {c c' : Client} {msg : Message} (h : c.updatePlayer order msg = .ok c') :
    c'.playerID = c.playerID ∨ msg.Registers ∧
      ∃ p rest, msg.pop Layout.player = .ok (p, rest) ∧ c'.playerID = p.id := by
  cases updatePlayer_updated h with
  | registered hid hpop => exact .inr ⟨hid, _, _, hpop, rfl⟩
  | mapped | enemyAdded | put | removed | enemyActed | untouched => exact .inl rfl
  | turn _ hturn =>
    obtain ⟨p, _, hturn⟩ := except_bind_eq_ok.mp hturn
    cases hturn
    exact .inl rfl
  | acted _ _ hact =>
    refine .inl ?_
    unfold gamePlayerActionValidated at hact
    split at hact
    · obtain ⟨w, _, hact⟩ := except_bind_eq_ok.mp hact
      cases hact
      rfl
    · cases hact
      rfl

namespace CustomClient
variable {order : Arrangement (OrderedMap.Entry UInt32 Player)} {map : Map} {c : UInt32}
variable {d d' : CustomClient} {stream : List Message}

/-- Client `c`, with what the server has handed to `Send` for it. -/
structure Sound (order : Arrangement (OrderedMap.Entry UInt32 Player)) (map : Map) (c : UInt32)
    (stream : List Message) (d : CustomClient) : Prop where
  sends : ∀ msg ∈ d.sent, ClientSends c msg
  playerID : d.client.playerID = c ∨ d.client.playerID = 0
  received : d.received <+: stream
  view : (Client.start map).updates order d.received = .ok d.client
  asks : (d.sent.countP fun msg => AsksIn msg) = d.received.countP fun msg => msg.Accepts
  whole : ∀ msg ∈ d.sent, msg.Whole

theorem start_sound (stream : List Message) : Sound order map c stream (start map) :=
  ⟨fun _ h => absurd h List.not_mem_nil, .inr rfl, List.nil_prefix, rfl, rfl,
    fun _ h => absurd h List.not_mem_nil⟩

theorem Sound.mono {stream' : List Message} (h : Sound order map c stream d)
    (hstream : stream <+: stream') : Sound order map c stream' d :=
  ⟨h.sends, h.playerID, h.received.trans hstream, h.view, h.asks, h.whole⟩

theorem Sound.afterSaying (h : Sound order map c stream d) (hsaid : Says (Plays c) d d') :
    Sound order map c stream d' := by
  obtain ⟨new, hnew, hplays⟩ := hsaid.sent
  have hzero : (new.countP fun msg => AsksIn msg) = 0 := by
    apply List.countP_eq_zero.mpr
    intro msg hmsg hasks
    exact (hplays msg hmsg).2.1 (of_decide_eq_true hasks)
  refine ⟨fun msg hmsg => ?_, ?_, ?_, ?_, ?_, fun msg hmsg => ?_⟩
  · rw [hnew] at hmsg
    rcases List.mem_append.mp hmsg with hmsg | hmsg
    · exact h.sends msg hmsg
    · exact (hplays msg hmsg).1
  · rw [hsaid.client]
    exact h.playerID
  · rw [hsaid.received]
    exact h.received
  · rw [hsaid.received, hsaid.client]
    exact h.view
  · rw [hnew, List.countP_append, hzero, Nat.add_zero, hsaid.received]
    exact h.asks
  · rw [hnew] at hmsg
    rcases List.mem_append.mp hmsg with hmsg | hmsg
    · exact h.whole msg hmsg
    · exact (hplays msg hmsg).2.2

theorem prefix_concat {l L : List Message} (h : l <+: L) {msg : Message}
    (hmsg : L[l.length]? = some msg) : l ++ [msg] <+: L := by
  obtain ⟨rest, rfl⟩ := h
  rw [List.getElem?_append_right (Nat.le_refl _), Nat.sub_self] at hmsg
  cases rest with
  | nil => exact absurd hmsg (Option.some_ne_none msg).symm
  | cons a rest =>
    cases hmsg
    exact ⟨rest, by simp⟩

theorem Sound.receive (h : Sound order map c stream d) (hup : d.connected = true)
    (hstream : ∀ msg ∈ stream, msg.RegistersAs c) {name : Vector UInt8 75} {msg : Message}
    (hmsg : stream[d.received.length]? = some msg) (hok : d.receive order name msg = .ok d') :
    Sound order map c stream d' := by
  obtain ⟨client, hclient, hok⟩ := except_bind_eq_ok.mp hok
  have hreceived := prefix_concat h.received hmsg
  have hview : (Client.start map).updates order (d.received ++ [msg]) = .ok client :=
    Client.updates_concat.mpr ⟨d.client, h.view, hclient⟩
  have hid : client.playerID = c ∨ client.playerID = 0 := by
    rcases Client.updatePlayer_playerID hclient with hsame | ⟨hreg, p, rest, hpop, hp⟩
    · rw [hsame]
      exact h.playerID
    · exact .inl (hp.trans (hstream msg (List.mem_of_getElem? hmsg) hreg p rest hpop))
  have hcount : ((d.received ++ [msg]).countP fun msg => msg.Accepts) =
      (d.sent.countP fun msg => AsksIn msg) + if msg.Accepts then 1 else 0 := by
    rw [List.countP_append, ← h.asks, List.countP_singleton]
    simp only [decide_eq_true_eq]
  cases hok
  by_cases hacc : ECustomMetaMSG.ofCode msg.header.id = some .clientAccepted
  · rw [if_pos hacc, send, if_pos hup]
    have hregister : ∀ p, AsksIn (registerRequest p) := fun p => by simp [AsksIn, registerRequest]
    refine ⟨fun m hm => ?_, hid, hreceived, hview, ?_, fun m hm => ?_⟩
    · rcases List.mem_append.mp hm with hm | hm
      · exact h.sends m hm
      · rw [List.mem_singleton.mp hm]
        exact .register _
    · rw [List.countP_append, List.countP_singleton, if_pos (decide_eq_true (hregister _)), hcount,
        if_pos (show msg.Accepts from hacc)]
    · rcases List.mem_append.mp hm with hm | hm
      · exact h.whole m hm
      · rw [List.mem_singleton.mp hm]
        exact Message.whole_push (by decide) (by decide) ..
  · rw [if_neg hacc]
    refine ⟨h.sends, hid, hreceived, hview, ?_, h.whole⟩
    rw [hcount, if_neg (show ¬ msg.Accepts from hacc), Nat.add_zero]

theorem receive_sent {name : Vector UInt8 75} {msg : Message} (h : d.receive order name msg = .ok d') :
    d.sent <+: d'.sent := by
  obtain ⟨client, _, h⟩ := except_bind_eq_ok.mp h
  cases h
  split
  · obtain ⟨new, hnew, -⟩ := (says_send (Q := fun _ => True) (d := { d with
      client := client, received := d.received ++ [msg] }) trivial).sent
    exact ⟨new, hnew.symm⟩
  · exact List.prefix_rfl

theorem updatePlayer_sent {tick : Tick} {incoming : Option Message}
    (hid : d.client.playerID = c ∨ d.client.playerID = 0)
    (h : d.updatePlayer order tick incoming = .ok d') : d.sent <+: d'.sent := by
  obtain ⟨u, hsaid, hu⟩ := updatePlayer_says hid h
  obtain ⟨new, hnew, -⟩ := hsaid.sent
  have hsent : d.sent <+: u.sent := ⟨new, hnew.symm⟩
  rcases hu with rfl | ⟨msg, -, -, hreceive⟩
  · exact hsent
  · exact hsent.trans (receive_sent hreceive)

theorem Sound.updatePlayer (h : Sound order map c stream d)
    (hstream : ∀ msg ∈ stream, msg.RegistersAs c) {tick : Tick} {incoming : Option Message}
    (hincoming : ∀ msg, incoming = some msg → stream[d.received.length]? = some msg)
    (hok : d.updatePlayer order tick incoming = .ok d') : Sound order map c stream d' := by
  obtain ⟨u, hsaid, hu⟩ := updatePlayer_says h.playerID hok
  have hsound := h.afterSaying hsaid
  rcases hu with rfl | ⟨msg, hmsg, hup, hreceive⟩
  · exact hsound
  · apply hsound.receive hup hstream ?_ hreceive
    rw [hsaid.received]
    exact hincoming msg hmsg

end CustomClient

/-- The server, whose handshakes have succeeded, the clients by their IDs, and how many of the
messages that a client sent have been handled. -/
structure Game where
  server : Server
  validated : List UInt32
  clients : UInt32 → CustomClient
  handled : UInt32 → Nat

/-- A handler of the server, where a message is the next one of its client, an `UpdatePlayer`,
which may find the next message for the client in `Incoming()`, or a connection that a client
loses. -/
inductive GameEvent
  | accept
  | validated (c : UInt32)
  | close (c : UInt32)
  | shyCheck (depth : Nat)
  | message (depth : Nat) (chance : Chance) (c : UInt32)
  | updatePlayer (c : UInt32) (tick : Tick) (arrived : Bool)
  | lost (c : UInt32)

namespace Game

def start (mapRand enemyRand : Nat → Nat) (closing : Nat → List UInt32) (map : UInt32 → Map) : Game :=
  ⟨.start mapRand enemyRand closing, [], fun c => .start (map c), fun _ => 0⟩

/-- What the server does. The messages of a client are read once its handshake has succeeded,
which it does once. -/
def serverEvent (g : Game) : GameEvent → Option Server.Event
  | .accept => some .accept
  | .validated c => if c ∈ g.validated then none else some (.validated c)
  | .close c => some (.close c)
  | .shyCheck depth => some (.shyCheck depth)
  | .message depth chance c =>
    if c ∈ g.validated then (g.clients c).sent[g.handled c]?.map (.message depth chance c) else none
  | .updatePlayer _ _ _ => none
  | .lost _ => none

def recorded (g : Game) : GameEvent → Game
  | .validated c => { g with validated := c :: g.validated }
  | .message _ _ c => { g with handled := Function.update g.handled c (g.handled c + 1) }
  | _ => g

def setClient (c : UInt32) (d : CustomClient) (g : Game) : Game :=
  { g with clients := Function.update g.clients c d }

/-- The front of `Incoming()`. -/
def incoming (g : Game) (c : UInt32) (arrived : Bool) : Option Message :=
  if arrived then (g.server.stream c)[(g.clients c).received.length]? else none

def step (order : UInt32 → Arrangement (OrderedMap.Entry UInt32 Player)) (g : Game) :
    GameEvent → Option Game
  | .updatePlayer c tick arrived =>
    ((g.clients c).updatePlayer (order c) tick (g.incoming c arrived)).toOption.map (g.setClient c)
  | .lost c => some (g.setClient c (g.clients c).disconnect)
  | e => (g.serverEvent e).bind fun event =>
    (g.server.step event).map fun s => { g with server := s }.recorded e

variable {order : UInt32 → Arrangement (OrderedMap.Entry UInt32 Player)} {map : UInt32 → Map}
variable {g g' : Game} {e : GameEvent} {c : UInt32}

/-- What a step can do. -/
inductive Played (order : UInt32 → Arrangement (OrderedMap.Entry UInt32 Player)) (g : Game) :
    GameEvent → Game → Prop
  | served {e : GameEvent} {event : Server.Event} {s : Server} (hevent : g.serverEvent e = some event)
      (hstep : g.server.step event = some s) : Played order g e ({ g with server := s }.recorded e)
  | updated {c : UInt32} {tick : Tick} {arrived : Bool} {d : CustomClient}
      (h : (g.clients c).updatePlayer (order c) tick (g.incoming c arrived) = .ok d) :
      Played order g (.updatePlayer c tick arrived) (g.setClient c d)
  | lost (c : UInt32) : Played order g (.lost c) (g.setClient c (g.clients c).disconnect)

theorem step_played (h : g.step order e = some g') : Played order g e g' := by
  have hserved : ∀ {e}, ((g.serverEvent e).bind fun event =>
      (g.server.step event).map fun s => { g with server := s }.recorded e) = some g' →
      Played order g e g' := by
    intro e h
    obtain ⟨event, hevent, h⟩ := Option.bind_eq_some_iff.mp h
    obtain ⟨s, hs, rfl⟩ := Option.map_eq_some_iff.mp h
    exact .served hevent hs
  cases e with
  | updatePlayer c tick arrived =>
    obtain ⟨d, hd, rfl⟩ := Option.map_eq_some_iff.mp h
    exact .updated (except_toOption_eq_some.mp hd)
  | lost c =>
    cases h
    exact .lost c
  | accept | validated c | close c | shyCheck depth | message depth chance c => exact hserved h

theorem serverEvent_validated {event : Server.Event} (h : g.serverEvent e = some event) (c : UInt32) :
    (event = .validated c ↔ e = .validated c) ∧ (e = .validated c → c ∉ g.validated) := by
  cases e with
  | validated d =>
    obtain ⟨hd, h⟩ := Option.ite_none_left_eq_some.mp h
    cases h
    refine ⟨by simp, fun heq => ?_⟩
    cases heq
    exact hd
  | accept | close d | shyCheck depth =>
    cases h
    exact ⟨by simp, fun heq => by cases heq⟩
  | message depth chance d =>
    obtain ⟨-, h⟩ := Option.ite_none_right_eq_some.mp h
    obtain ⟨msg, _, rfl⟩ := Option.map_eq_some_iff.mp h
    exact ⟨by simp, fun heq => by cases heq⟩
  | updatePlayer | lost => cases h

/-- A message that the server handles is the next one of its client. -/
theorem serverEvent_message {depth : Nat} {chance : Chance} {msg : Message}
    (h : g.serverEvent e = some (.message depth chance c msg)) :
    e = .message depth chance c ∧ (g.clients c).sent[g.handled c]? = some msg := by
  cases e with
  | message depth' chance' d =>
    obtain ⟨-, h⟩ := Option.ite_none_right_eq_some.mp h
    obtain ⟨m, hm, heq⟩ := Option.map_eq_some_iff.mp h
    cases heq
    exact ⟨rfl, hm⟩
  | validated d =>
    obtain ⟨-, h⟩ := Option.ite_none_left_eq_some.mp h
    cases h
  | accept | close d | shyCheck depth' | updatePlayer | lost => cases h

/-- What holds in every state. -/
structure Sane (order : UInt32 → Arrangement (OrderedMap.Entry UInt32 Player)) (map : UInt32 → Map)
    (g : Game) : Prop where
  honest : g.server.HonestlyReachable
  registers : ∀ c, ∀ msg ∈ g.server.stream c, msg.RegistersAs c
  accepts : ∀ c, ((g.server.stream c).countP fun msg => msg.Accepts) = if c ∈ g.validated then 1 else 0
  clients : ∀ c, (g.clients c).Sound (order c) (map c) c (g.server.stream c)
  entered : ∀ c ∈ g.server.gameWorld.playersList,
    ∃ msg ∈ (g.clients c).sent.take (g.handled c), CustomClient.AsksIn msg

theorem start_sane (mapRand enemyRand : Nat → Nat) (closing : Nat → List UInt32) :
    Sane order map (start mapRand enemyRand closing map) where
  honest := ⟨mapRand, enemyRand, closing, [], fun _ _ _ _ h => absurd h List.not_mem_nil, rfl⟩
  registers _ _ h := absurd h List.not_mem_nil
  accepts _ := rfl
  clients _ := CustomClient.start_sound _
  entered _ h := nomatch h

/-- A client asks to be registered when it is accepted, and only then. -/
theorem Sane.asks_once (h : Sane order map g) (c : UInt32) :
    ((g.clients c).sent.countP fun msg => CustomClient.AsksIn msg) ≤ 1 := by
  have hclient := h.clients c
  have hle := hclient.received.sublist.countP_le (p := fun msg => decide msg.Accepts)
  rw [h.accepts c] at hle
  rw [hclient.asks]
  split at hle <;> omega

theorem two_le_countP {α : Type} {P : α → Bool} {l : List α} {n : Nat} {a b : α} (ha : a ∈ l.take n)
    (hb : l[n]? = some b) (hPa : P a = true) (hPb : P b = true) : 2 ≤ l.countP P := by
  obtain ⟨hn, rfl⟩ := List.getElem?_eq_some_iff.mp hb
  have hbefore : 0 < (l.take n).countP P := List.countP_pos_iff.mpr ⟨a, ha, hPa⟩
  have hfrom : 0 < (l.drop n).countP P := by
    apply List.countP_pos_iff.mpr
    rw [List.drop_eq_getElem_cons hn]
    exact ⟨l[n], List.mem_cons_self, hPb⟩
  rw [← List.take_append_drop n l, List.countP_append]
  omega

/-- The client whose message is handled behaves like `CustomClient`. -/
theorem Sane.behaves (h : Sane order map g) {event : Server.Event} (hevent : g.serverEvent e = some event) :
    g.server.Behaves event := by
  cases event with
  | accept | validated | close | shyCheck => trivial
  | message depth chance c msg =>
    obtain ⟨-, hmsg⟩ := serverEvent_message hevent
    refine ⟨(h.clients c).sends msg (List.mem_of_getElem? hmsg), fun hid hmem => ?_⟩
    obtain ⟨before, hbefore, hasks⟩ := h.entered c hmem
    have hid : CustomClient.AsksIn msg := hid
    have htwo := two_le_countP (P := fun msg => decide (CustomClient.AsksIn msg)) hbefore hmsg
      (decide_eq_true hasks) (decide_eq_true hid)
    have hone := h.asks_once c
    omega

theorem recorded_handled : g.handled c ≤ (g.recorded e).handled c := by
  cases e with
  | message depth chance d =>
    show _ ≤ Function.update g.handled d (g.handled d + 1) c
    by_cases hcd : c = d
    · subst hcd
      rw [Function.update_self]
      omega
    · rw [Function.update_of_ne hcd]
  | _ => exact Nat.le_refl _

theorem mem_recorded_validated : c ∈ (g.recorded e).validated ↔ c ∈ g.validated ∨ e = .validated c := by
  cases e with
  | validated d =>
    rw [GameEvent.validated.injEq, or_comm, eq_comm]
    exact List.mem_cons
  | _ => simp [recorded]

@[simp] theorem recorded_server : (g.recorded e).server = g.server := by cases e <;> rfl

@[simp] theorem recorded_clients : (g.recorded e).clients = g.clients := by cases e <;> rfl

theorem Sane.served (h : Sane order map g) {event : Server.Event} {s : Server}
    (hevent : g.serverEvent e = some event) (hstep : g.server.step event = some s) :
    Sane order map ({ g with server := s }.recorded e) := by
  have hbehaves := h.behaves hevent
  have hidle := h.honest.reachable.idle
  refine ⟨?_, ?_, fun c => ?_, fun c => ?_, fun c hc => ?_⟩
  · rw [recorded_server]
    apply h.honest.step hstep
    rintro depth chance c msg rfl
    exact hbehaves.1
  · rw [recorded_server]
    exact Server.step_registersAs hstep h.registers
  · rw [recorded_server]
    have hvalidated := serverEvent_validated hevent c
    by_cases he : e = .validated c
    · have hsent : s.stream c = g.server.stream c ++ [.ofID .clientAccepted] := by
        rw [hvalidated.1.mpr he] at hstep
        cases Server.step_cases hstep
        exact Server.stream_send_self c _ _
      have hnew := hvalidated.2 he
      rw [hsent, List.countP_append, h.accepts c, if_neg hnew,
        if_pos (mem_recorded_validated.mpr (.inr he))]
      decide
    · have hother : event ≠ .validated c := fun heq => he (hvalidated.1.mp heq)
      rw [Server.step_accepts hstep hother, h.accepts c]
      have hiff : c ∈ (({ g with server := s } : Game).recorded e).validated ↔ c ∈ g.validated :=
        mem_recorded_validated.trans (or_iff_left he)
      simp only [hiff]
  · rw [recorded_server, recorded_clients]
    exact (h.clients c).mono (Server.step_stream hstep c)
  · rw [recorded_server] at hc
    rw [recorded_clients]
    rcases Server.step_entered hidle hstep hc with hc | ⟨depth, chance, msg, rfl, hasks⟩
    · obtain ⟨msg, hmsg, hasks⟩ := h.entered c hc
      have hle : g.handled c ≤ (({ g with server := s } : Game).recorded e).handled c :=
        recorded_handled (g := { g with server := s })
      exact ⟨msg, (List.take_sublist_take_left hle).subset hmsg, hasks⟩
    · obtain ⟨rfl, hmsg⟩ := serverEvent_message hevent
      have hhandled : (({ g with server := s } : Game).recorded (.message depth chance c)).handled c =
          g.handled c + 1 := Function.update_self ..
      refine ⟨msg, ?_, hasks⟩
      rw [hhandled]
      obtain ⟨hlt, heq⟩ := List.getElem?_eq_some_iff.mp hmsg
      rw [List.take_succ_eq_append_getElem hlt, heq]
      exact List.mem_append_right _ (List.mem_singleton_self msg)

theorem Sane.setClient (h : Sane order map g) {d : CustomClient}
    (hd : d.Sound (order c) (map c) c (g.server.stream c)) (hsent : (g.clients c).sent <+: d.sent) :
    Sane order map (g.setClient c d) := by
  refine ⟨h.honest, h.registers, h.accepts, fun a => ?_, fun a ha => ?_⟩
  · show CustomClient.Sound _ _ _ _ (Function.update g.clients c d a)
    by_cases hac : a = c
    · subst hac
      rwa [Function.update_self]
    · rw [Function.update_of_ne hac]
      exact h.clients a
  · obtain ⟨msg, hmsg, hasks⟩ := h.entered a ha
    refine ⟨msg, ?_, hasks⟩
    show msg ∈ (Function.update g.clients c d a).sent.take _
    by_cases hac : a = c
    · subst hac
      rw [Function.update_self]
      exact (hsent.take _).subset hmsg
    · rwa [Function.update_of_ne hac]

theorem incoming_eq {arrived : Bool} {msg : Message} (h : g.incoming c arrived = some msg) :
    (g.server.stream c)[(g.clients c).received.length]? = some msg := by
  unfold incoming at h
  split at h
  · exact h
  · cases h

theorem step_sane (h : Sane order map g) (hstep : g.step order e = some g') : Sane order map g' := by
  cases step_played hstep with
  | served hevent hs => exact h.served hevent hs
  | @updated c tick arrived d hd =>
    have hclient := h.clients c
    apply h.setClient
    · exact hclient.updatePlayer (h.registers c) (fun msg => incoming_eq) hd
    · exact CustomClient.updatePlayer_sent hclient.playerID hd
  | lost c =>
    have hclient := h.clients c
    apply h.setClient
    · exact ⟨hclient.sends, hclient.playerID, hclient.received, hclient.view, hclient.asks,
        hclient.whole⟩
    · exact List.prefix_rfl

theorem run_sane {mapRand enemyRand : Nat → Nat} {closing : Nat → List UInt32} {events : List GameEvent}
    (hrun : Machine.run (step order) (start mapRand enemyRand closing map) events = some g) :
    Sane order map g :=
  Machine.invariant (I := fun g : Game => Sane order map g) (fun _ _ _ h hstep => step_sane h hstep)
    (start_sane mapRand enemyRand closing) hrun

/-- In every run the server is one whose clients behave like `CustomClient`. A client knows itself
by its own ID or not yet, asks to be registered at most once, and has the world that the
messages it took, the first ones that the server sent to it, lead to. -/
theorem clients_honest {mapRand enemyRand : Nat → Nat} {closing : Nat → List UInt32}
    {events : List GameEvent}
    (hrun : Machine.run (step order) (start mapRand enemyRand closing map) events = some g) :
    g.server.HonestlyReachable ∧ ∀ c,
      (∀ msg ∈ (g.clients c).sent, ClientSends c msg) ∧
      ((g.clients c).client.playerID = c ∨ (g.clients c).client.playerID = 0) ∧
      ((g.clients c).sent.countP fun msg => CustomClient.AsksIn msg) ≤ 1 ∧
      (g.clients c).received <+: g.server.stream c ∧
      (Client.start (map c)).updates (order c) (g.clients c).received = .ok (g.clients c).client := by
  have h := run_sane hrun
  refine ⟨h.honest, fun c => ?_⟩
  have hclient := h.clients c
  exact ⟨hclient.sends, hclient.playerID, h.asks_once c, hclient.received, hclient.view⟩

/-- Whatever the server does in this step, no player is found to have left and a turn that ends,
ends fairly. -/
def Calm (g : Game) (e : GameEvent) : Prop :=
  ∀ event, g.serverEvent e = some event → g.server.Calm event

/-- In a calm run, a registered client that has taken all its messages has the world of the
server. -/
theorem worlds_agree {mapRand enemyRand : Nat → Nat} {closing : Nat → List UInt32}
    {events : List GameEvent}
    (hcalm : Machine.Along (step order) Calm (start mapRand enemyRand closing map) events)
    (hrun : Machine.run (step order) (start mapRand enemyRand closing map) events = some g)
    (hc : c ∈ g.server.gameWorld.playersList) (hall : (g.clients c).received = g.server.stream c) :
    (g.clients c).client.playerID = c ∧
      g.server.gameWorld.Agrees (g.clients c).client.gameWorld := by
  have hboth := Machine.invariant_along
    (I := fun g : Game => Sane order map g ∧ Server.Mirrored (order c) (map c) g.server) (P := Calm)
    (fun g e g' h hcalm hstep => by
      refine ⟨step_sane h.1 hstep, ?_⟩
      cases step_played hstep with
      | served hevent hs =>
        rw [recorded_server]
        exact Server.step_mirrored h.1.honest.reachable h.2 (h.1.behaves hevent) (hcalm _ hevent) hs
      | updated _ => exact h.2
      | lost _ => exact h.2)
    ⟨start_sane mapRand enemyRand closing, Server.start_mirrored mapRand enemyRand closing⟩ hcalm hrun
  have hview := (hboth.1.clients c).view
  rw [hall] at hview
  obtain ⟨hid, hagrees⟩ := ((hboth.2.shown c) _ hview).registered hc
  exact ⟨hid, hagrees⟩

def idleTick : Tick := ⟨none, 0, Vector.replicate 75 0⟩

/-- A client is accepted, asks to be registered and takes its messages. -/
def joins : List GameEvent :=
  [.accept, .validated 10000, .updatePlayer 10000 idleTick true, .updatePlayer 10000 idleTick true] ++
  List.replicate 3 (.message 0 (.always 10) 10000) ++
  List.replicate 3 (.updatePlayer 10000 idleTick true)

/-- Then it presses `S`, and keeps it pressed. -/
def walks : List GameEvent :=
  joins ++ List.replicate 2 (.updatePlayer 10000 { idleTick with keys := some fun i => i.val = 6 } false)

def sameOrder : UInt32 → Arrangement (OrderedMap.Entry UInt32 Player) := fun _ => (Chance.always 10).order

def blankStart : Game := start (fun _ => 0) (fun _ => 0) (fun _ => []) fun _ => generateMap fun _ => 0

/-- The client asks for one step, and not before the server has registered it. -/
theorem clients_honest_walks : ∃ g : Game, Machine.run (step sameOrder) blankStart walks = some g ∧
    (g.clients 10000).sent = [.ofID .clientJustCheck, .ofID .clientJustCheck,
      registerRequest Player.default, .ofID .clientJustCheck, .ofID .clientJustCheck,
      .ofID .clientJustCheck, actionRequest (Server.moveDown 10000), .ofID .clientJustCheck,
      .ofID .clientJustCheck] ∧
    g.server.HonestlyReachable := by
  have hrun : ((Machine.run (step sameOrder) blankStart walks).map fun g => (g.clients 10000).sent) =
      some [.ofID .clientJustCheck, .ofID .clientJustCheck, registerRequest Player.default,
        .ofID .clientJustCheck, .ofID .clientJustCheck, .ofID .clientJustCheck,
        actionRequest (Server.moveDown 10000), .ofID .clientJustCheck, .ofID .clientJustCheck] := by
    decide +kernel
  obtain ⟨g, hg, hsent⟩ := Option.map_eq_some_iff.mp hrun
  exact ⟨g, hg, hsent, (clients_honest hg).1⟩

def playsCalmly (g : Game) (e : GameEvent) : Bool := (g.serverEvent e).all g.server.playsCalmly

theorem calm_of_playsCalmly (h : g.playsCalmly e = true) : g.Calm e := by
  intro event hevent
  unfold playsCalmly at h
  rw [hevent] at h
  exact (Server.calm_of_playsCalmly h).2

def keyDown : Tick := { idleTick with keys := some fun i => i.val = 6 }

def keyUp : Tick := { idleTick with keys := some fun _ => false }

/-- The client takes four steps, which use up its turn, and the turn comes back to it. -/
def walksFourSteps : List GameEvent :=
  joins ++ (List.replicate 4 [.updatePlayer 10000 keyDown false, .updatePlayer 10000 keyUp false]).flatten ++
  List.replicate 15 (.message 0 (.always 10) 10000) ++
  List.replicate 7 (.updatePlayer 10000 idleTick true)

/-- The client has the world of the server after twelve messages. -/
theorem worlds_agree_walksFourSteps : ∃ g : Game,
    Machine.run (step sameOrder) blankStart walksFourSteps = some g ∧
    (g.clients 10000).received.length = 12 ∧
    (g.server.gameWorld.playersList.lookup 10000).map (fun p => (p.coords, p.currentTurns.val)) =
      some (⟨9, 13, 0⟩, 4) ∧
    (g.clients 10000).client.playerID = 10000 ∧
    g.server.gameWorld.Agrees (g.clients 10000).client.gameWorld := by
  have hcalm : Machine.Along (step sameOrder) (fun g e => g.playsCalmly e = true) blankStart
      walksFourSteps := by decide +kernel
  have hrun : ((Machine.run (step sameOrder) blankStart walksFourSteps).map fun g =>
      (decide (10000 ∈ g.server.gameWorld.playersList ∧
        (g.clients 10000).received = g.server.stream 10000), (g.clients 10000).received.length,
        (g.server.gameWorld.playersList.lookup 10000).map fun p => (p.coords, p.currentTurns.val))) =
      some (true, 12, some (⟨9, 13, 0⟩, 4)) := by decide +kernel
  obtain ⟨g, hg, h⟩ := Option.map_eq_some_iff.mp hrun
  obtain ⟨hstate, h⟩ := Prod.mk.inj h
  obtain ⟨hmem, hall⟩ := of_decide_eq_true hstate
  obtain ⟨hlength, hplayer⟩ := Prod.mk.inj h
  exact ⟨g, hg, hlength, hplayer, worlds_agree (hcalm.mono fun _ _ h => calm_of_playsCalmly h) hg
    hmem hall⟩

end Game

end AsciiTerra
