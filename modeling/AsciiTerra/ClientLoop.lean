import AsciiTerra.ClientStream
import AsciiTerra.SentSizes

/-!
# The loop of the client

`UpdatePlayer` as `run` calls it again and again: the keys that were just pressed, the check
of the connection and at most one message of `Incoming()`. The keys `I`, `P`, `?` and `M`
only show something.
-/

set_option autoImplicit false

namespace AsciiTerra

/-- `CustomClient` in its loop, with the messages that it took from `Incoming()` and those that
it handed to its connection. -/
structure CustomClient where
  client : Client
  key : Fin 11 → Bool
  oldKey : Fin 11 → Bool
  connected : Bool
  received : List Message
  sent : List Message

/-- What `UpdatePlayer` reads from outside: the keys, if its console is in the foreground, the
time and the bytes behind `Name.c_str()`. -/
structure Tick where
  keys : Option (Fin 11 → Bool)
  timeNow : UInt64
  name : Vector UInt8 75

/-- The message states its size, and a ping carries something. -/
def Message.Whole (msg : Message) : Prop :=
  msg.SizeMatches ∧ (ECustomMetaMSG.ofCode msg.header.id = some .serverPing → msg.body ≠ [])

theorem Message.body_push_ne {α : Type} {layout : Codec α} (hpos : 0 < layout.size)
    (id : ECustomMetaMSG) (a : α) : ((Message.ofID id).push layout a).body ≠ [] := by
  intro hnil
  have hlen : ((Message.ofID id).push layout a).body.length = layout.size := layout.length_encode a
  rw [hnil] at hlen
  exact Nat.ne_of_lt hpos hlen

theorem Message.whole_push {α : Type} {layout : Codec α} (hpos : 0 < layout.size)
    (h : layout.size < 2 ^ 32) (id : ECustomMetaMSG) (a : α) :
    ((Message.ofID id).push layout a).Whole :=
  ⟨sizeMatches_push h id a, fun _ => body_push_ne hpos id a⟩

theorem Message.whole_ofID {id : ECustomMetaMSG} (h : id ≠ .serverPing) : (Message.ofID id).Whole :=
  ⟨rfl, fun hid => absurd (Option.some.inj ((ECustomMetaMSG.ofCode_code id).symm.trans hid)) h⟩

namespace CustomClient

/-- A client that has connected. -/
def start (map : Map) : CustomClient := ⟨.start map, fun _ => false, fun _ => false, true, [], []⟩

/-- `Send` of `client_interface`. -/
def send (msg : Message) (d : CustomClient) : CustomClient :=
  if d.connected then { d with sent := d.sent ++ [msg] } else d

def pingServer (timeNow : UInt64) (d : CustomClient) : CustomClient :=
  d.send ((Message.ofID .serverPing).push Codec.u64 timeNow)

def messageAll (d : CustomClient) : CustomClient := d.send (.ofID .messageAll)

def disconnect (d : CustomClient) : CustomClient := { d with connected := false }

/-- `MakeActionApprove`, which sends nothing for an attack. -/
def makeActionApprove (action : PlayerAction) (d : CustomClient) : CustomClient :=
  if EPlayerActionType.ofCode action.actionType = some .move then d.send (actionRequest action) else d

/-- `MakeActionApprove({ Move, PlayerID, {0, x, y, 0} })`. -/
def makeMoveApprove (x y : Int16) (d : CustomClient) : CustomClient :=
  d.makeActionApprove ⟨EPlayerActionType.move.code, d.client.playerID, moveInfo x y⟩

def readKeys (tick : Tick) (d : CustomClient) : CustomClient := { d with key := tick.keys.getD d.key }

/-- `if (key[i] && !old_key[i])`. -/
def onPress (i : Fin 11) (f : CustomClient → CustomClient) (d : CustomClient) : CustomClient :=
  if d.key i && !d.oldKey i then f d else d

/-- From the first test of a key to the loop that sets `old_key`, which leaves `old_key[10]`. -/
def pressKeys (timeNow : UInt64) (d : CustomClient) : CustomClient :=
  let d := d.onPress 0 (pingServer timeNow)
  let d := d.onPress 1 messageAll
  let d := d.onPress 2 disconnect
  let d := d.onPress 5 (makeMoveApprove 0 (-1))
  let d := d.onPress 6 (makeMoveApprove 0 1)
  let d := d.onPress 7 (makeMoveApprove (-1) 0)
  let d := d.onPress 8 (makeMoveApprove 1 0)
  { d with oldKey := fun i => if i.val < 10 then d.key i else d.oldKey i }

/-- The `switch` over a message, with the registration that answers `ClientAccepted`. -/
def receive (order : Arrangement (OrderedMap.Entry UInt32 Player)) (name : Vector UInt8 75)
    (msg : Message) (d : CustomClient) : Except Fault CustomClient := do
  let client ← d.client.updatePlayer order msg
  let d := { d with client := client, received := d.received ++ [msg] }
  .ok (if ECustomMetaMSG.ofCode msg.header.id = some .clientAccepted then
    d.send (registerRequest { Player.default with name := name }) else d)

/-- `UpdatePlayer`, with the front of `Incoming()`. -/
def updatePlayer (order : Arrangement (OrderedMap.Entry UInt32 Player)) (tick : Tick)
    (incoming : Option Message) (d : CustomClient) : Except Fault CustomClient :=
  if d.connected then
    let d := (d.readKeys tick).pressKeys tick.timeNow
    if d.connected then
      let d := d.send (.ofID .clientJustCheck)
      incoming.elim (.ok d) (d.receive order tick.name)
    else .ok d
  else .ok d

/-- `d'` is `d` after it sent messages that all meet the condition. -/
structure Says (Q : Message → Prop) (d d' : CustomClient) : Prop where
  client : d'.client = d.client
  received : d'.received = d.received
  sent : ∃ new, d'.sent = d.sent ++ new ∧ ∀ msg ∈ new, Q msg

variable {Q : Message → Prop} {d d' d'' : CustomClient} {c : UInt32}
variable {order : Arrangement (OrderedMap.Entry UInt32 Player)} {tick : Tick}

theorem Says.of_eq (hclient : d'.client = d.client) (hreceived : d'.received = d.received)
    (hsent : d'.sent = d.sent) : Says Q d d' :=
  ⟨hclient, hreceived, [], by rw [hsent, List.append_nil], fun _ h => absurd h List.not_mem_nil⟩

theorem Says.refl (d : CustomClient) : Says Q d d := .of_eq rfl rfl rfl

theorem Says.trans (h : Says Q d d') (h' : Says Q d' d'') : Says Q d d'' := by
  obtain ⟨new, hnew, hQ⟩ := h.sent
  obtain ⟨new', hnew', hQ'⟩ := h'.sent
  refine ⟨h'.client.trans h.client, h'.received.trans h.received, new ++ new', ?_, fun msg hmsg => ?_⟩
  · rw [hnew', hnew, List.append_assoc]
  · exact (List.mem_append.mp hmsg).elim (hQ msg) (hQ' msg)

theorem says_send {msg : Message} (h : Q msg) (d : CustomClient) : Says Q d (d.send msg) := by
  unfold send
  split
  · exact ⟨rfl, rfl, [msg], rfl, fun m hm => List.mem_singleton.mp hm ▸ h⟩
  · exact .refl d

theorem says_onPress {f : CustomClient → CustomClient} (i : Fin 11) (hf : Says Q d (f d)) :
    Says Q d (d.onPress i f) := by
  unfold onPress
  split
  · exact hf
  · exact .refl d

/-- A request to be registered. -/
def AsksIn (msg : Message) : Prop :=
  ECustomMetaMSG.ofCode msg.header.id = some .clientRegisterOnServer

instance (msg : Message) : Decidable (AsksIn msg) := inferInstanceAs (Decidable (_ = _))

/-- A message of client `c` that is no registration. -/
def Plays (c : UInt32) (msg : Message) : Prop := ClientSends c msg ∧ ¬ AsksIn msg ∧ msg.Whole

theorem says_makeMoveApprove (hid : d.client.playerID = c ∨ d.client.playerID = 0) (x y : Int16) :
    Says (Plays c) d (d.makeMoveApprove x y) := by
  unfold makeMoveApprove makeActionApprove
  split
  · refine says_send ⟨.approve rfl hid, ?_, Message.whole_push (by decide) (by decide) ..⟩ d
    simp [AsksIn, actionRequest]
  · exact .refl d

theorem says_pressKeys (hid : d.client.playerID = c ∨ d.client.playerID = 0) (timeNow : UInt64) :
    Says (Plays c) d (d.pressKeys timeNow) := by
  have hping : Says (Plays c) d (d.onPress 0 (pingServer timeNow)) :=
    says_onPress 0 (says_send ⟨.ping (Message.push_id ..), by simp [AsksIn],
      Message.whole_push (by decide) (by decide) ..⟩ d)
  have hall := hping.trans (says_onPress 1 (says_send ⟨.messageAll, by simp [AsksIn], Message.whole_ofID (by decide)⟩ _))
  have hleft : ∀ u : CustomClient, Says (Plays c) u (disconnect u) := fun u => .of_eq rfl rfl rfl
  have hleave := hall.trans (says_onPress 2 (hleft _))
  have hmove : ∀ {u : CustomClient}, Says (Plays c) d u → ∀ (i : Fin 11) (x y : Int16),
      Says (Plays c) d (u.onPress i (makeMoveApprove x y)) := by
    intro u hu i x y
    have hid' : u.client.playerID = c ∨ u.client.playerID = 0 := by rwa [hu.client]
    exact hu.trans (says_onPress i (says_makeMoveApprove hid' x y))
  have hmoves := hmove (hmove (hmove (hmove hleave 5 0 (-1)) 6 0 1) 7 (-1) 0) 8 1 0
  exact hmoves.trans (.of_eq rfl rfl rfl)

/-- What an `UpdatePlayer` does: it sends, and then it takes a message or not. -/
theorem updatePlayer_says {incoming : Option Message}
    (hid : d.client.playerID = c ∨ d.client.playerID = 0)
    (h : d.updatePlayer order tick incoming = .ok d') : ∃ u, Says (Plays c) d u ∧
      (d' = u ∨ ∃ msg, incoming = some msg ∧ u.connected = true ∧
        u.receive order tick.name msg = .ok d') := by
  have hread : Says (Plays c) d (d.readKeys tick) := .of_eq rfl rfl rfl
  have hkeys := hread.trans (says_pressKeys (d := d.readKeys tick) hid tick.timeNow)
  unfold updatePlayer at h
  dsimp only at h
  generalize (d.readKeys tick).pressKeys tick.timeNow = u at h hkeys
  split at h
  · split at h
    · next hup =>
      have hcheck := hkeys.trans (says_send ⟨.justCheck, by simp [AsksIn],
        Message.whole_ofID (by decide)⟩ u)
      refine ⟨_, hcheck, ?_⟩
      cases incoming with
      | none =>
        cases h
        exact .inl rfl
      | some msg =>
        refine .inr ⟨msg, rfl, ?_, h⟩
        unfold send
        rwa [if_pos hup]
    · cases h
      exact ⟨_, hkeys, .inl rfl⟩
  · cases h
    exact ⟨d, .refl d, .inl rfl⟩

end CustomClient

end AsciiTerra
