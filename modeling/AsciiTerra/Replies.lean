import AsciiTerra.Delivery
import AsciiTerra.ActorRecord
import AsciiTerra.RegisteredRecord

/-!
# Requests and replies

A client that registers, asks for an action or pings is answered. The messages that the
server sends while it handles a request are listed in `Speaks`, with whom they go to; among
those to the client is one reply.
-/

set_option autoImplicit false

namespace AsciiTerra

/-- The messages that follow the reply to a registration of client `c`. -/
inductive Welcome (c : UInt32) : UInt32 → Message → Prop
  | turnTalk {d : UInt32} {m : Message} : Server.TurnTalk d m → Welcome c d m
  | map (m : Map) : Welcome c c ((Message.ofID .clientUpdateMap).push Layout.map m)
  | enemy (e : Enemy) : Welcome c c ((Message.ofID .clientInitEnemy).push Layout.enemy e)
  | added (d : UInt32) (p : Player) :
      Welcome c d ((Message.ofID .clientAddPlayer).push Layout.player p)

/-- The messages that are sent while `msg` of client `c` is handled, but for the replies. -/
inductive Aside (c : UInt32) (msg : Message) : UInt32 → Message → Prop
  | welcome {d : UInt32} {m : Message} : Welcome c d m → Aside c msg d m
  | removed (d pid : UInt32) : Aside c msg d ((Message.ofID .gameRemovePlayer).push Codec.u32 pid)
  | ended : Aside c msg c (.ofID .gameEndPlayerTurn)
  | nextTurn (d id : UInt32) : Aside c msg d ((Message.ofID .gameNextPlayerTurn).push Codec.u32 id)
  | relayed (d : UInt32) : ECustomMetaMSG.ofCode msg.header.id = some .gameUpdatePlayer →
      Aside c msg d msg
  | chat (d : UInt32) : Aside c msg d ((Message.ofID .serverMessage).push Codec.u32 c)

/-- The messages that are sent while `msg` of client `c` is handled. -/
inductive Speaks (c : UInt32) (msg : Message) : UInt32 → Message → Prop
  | aside {d : UInt32} {m : Message} : Aside c msg d m → Speaks c msg d m
  | registered {p : Player} : p.id = c →
      Speaks c msg c ((Message.ofID .clientRegisterFromServer).push Layout.player p)
  | validated (d : UInt32) (action : PlayerAction) :
      Speaks c msg d (Server.actionValidated c action)
  | aborted (action : PlayerAction) :
      Speaks c msg c ((Message.ofID .gamePlayerActionAborted).push Layout.playerAction action)
  | ping : ECustomMetaMSG.ofCode msg.header.id = some .serverPing → Speaks c msg c msg

namespace Server
variable {s t u : Server}

open Outcome (Post)

section Welcome
variable {hook : Option UInt32 → Server → Outcome Fault Server} {c : UInt32} {msg : Message}
variable {Q : UInt32 → Message → Prop}
variable (hh : ∀ client s, Post (Said Q s) (hook client s)) (hQ : ∀ d m, Welcome c d m → Q d m)
include hh hQ

theorem sendEnemy_said (i : Nat) : Post (Said Q s) (s.sendEnemy hook c i) := by
  unfold sendEnemy
  split
  · exact Post.of_fault
  · exact messageClient_said hh (hQ _ _ (.enemy _))

theorem sendOtherPlayer_said (playerDesc : Player) (key : UInt32) :
    Post (Said Q s) (s.sendOtherPlayer hook c playerDesc key) := by
  unfold sendOtherPlayer
  split
  · exact Post.of_ok (.refl s)
  · split
    · exact Post.of_ok (.refl s)
    · refine Post.bind (messageClient_said hh (hQ _ _ (.added c _))) fun t ht => ?_
      split
      · exact Post.of_ok ht
      · exact Post.of_fault

/-- The announcement after the reply to a registration. -/
theorem announce_said {P : Server → Prop} {playerDesc : Player}
    (hfirst : Post P (messageClient hook (some c)
      ((Message.ofID .clientRegisterFromServer).push Layout.player playerDesc) s)) :
    Post (fun t => ∃ u, P u ∧ Said Q u t) (s.announce hook c playerDesc) := by
  refine Post.bind hfirst fun u hu => ?_
  suffices hrest : Post (Said Q u) _ from hrest.mono fun t ht => ⟨u, hu, ht⟩
  refine Post.bind (messageClient_said hh (hQ _ _ (.map _))) fun t ht => ?_
  refine Post.bind (Post.foldlM ht fun t i _ ht =>
    (sendEnemy_said hh hQ i).mono fun _ => ht.trans) fun t ht => ?_
  refine Post.bind ((messageAllClients_said hh (fun d => hQ _ _ (.added d playerDesc)) _).mono
    fun _ => ht.trans) fun t ht => ?_
  exact Post.foldlM ht fun t key _ ht =>
    (sendOtherPlayer_said hh hQ playerDesc key).mono fun _ => ht.trans

/-- A registration after the announcement. -/
theorem register_said {P : Server → Prop} {chance : Chance}
    (hfirst : ∀ p info rest, msg.pop Layout.player = .ok (info, rest) →
      clientOnRegister chance.rand c info = .ok p →
      Post P (messageClient hook (some c)
        ((Message.ofID .clientRegisterFromServer).push Layout.player p) (s.setPlayersList
          (OrderedMap.insertOrAssign chance.order p.id p s.gameWorld.playersList)))) :
    Post (fun t => ∃ u, P u ∧ Said Q u t) (s.register hook chance c msg) := by
  intro t hok
  obtain ⟨⟨info, rest⟩, hpop, hok⟩ := Outcome.bind_eq_ok.mp hok
  obtain ⟨p, hp, hok⟩ := Outcome.bind_eq_ok.mp hok
  have hfirst := hfirst p info rest (Outcome.ofExcept_eq_ok.mp hpop) (Outcome.ofExcept_eq_ok.mp hp)
  refine Post.bind (Q := fun t => ∃ u, P u ∧ Said Q u t) (announce_said hh hQ hfirst)
    (fun v hv => ?_) t hok
  obtain ⟨u, hu, hsaid⟩ := hv
  split
  · exact (chooseNextPlayerForTurn_said hh (fun _ _ h => hQ _ _ (.turnTalk h)) none).mono
      fun w hw => ⟨u, hu, hsaid.trans hw⟩
  · exact Post.of_ok ⟨u, hu, hsaid⟩

end Welcome

section Aside
variable {hook : Option UInt32 → Server → Outcome Fault Server} {c : UInt32} {msg : Message}
variable {Q : UInt32 → Message → Prop}
variable (hh : ∀ client s, Post (Said Q s) (hook client s)) (hQ : ∀ d m, Aside c msg d m → Q d m)
include hh hQ

theorem flushGarbage_said : Post (Said Q s) (s.flushGarbage hook) := by
  refine Post.bind (Post.foldlM (Said.refl s) fun t pid _ ht => ?_) fun t ht =>
    Post.of_ok (ht.silent rfl rfl)
  refine Post.bind (messageAllClients_said hh (fun d => hQ _ _ (.removed d pid)) none) fun u hu => ?_
  split
  · exact Post.of_ok (ht.trans (hu.before rfl rfl))
  · exact Post.of_fault

theorem endTurn_said : Post (Said Q s) (s.endTurn hook c) := by
  refine Post.bind (messageClient_said hh (hQ _ _ .ended)) fun t ht => ?_
  refine Post.bind ((chooseNextPlayerForTurn_said hh (fun _ _ h => hQ _ _ (.welcome (.turnTalk h))) _).mono
    fun _ => ht.trans) fun t ht => ?_
  exact (messageAllClients_said hh (fun d => hQ _ _ (.nextTurn d _)) none).mono fun _ => ht.trans

/-- An approved action after it was broadcast. -/
theorem applyAction_said {P : Server → Prop} {action : PlayerAction}
    (hfirst : ∀ w, s.gameWorld.makeApprovedAction c action = .ok w →
      Post P (messageAllClients hook (actionValidated c action) none
        ({ s with gameWorld := w }.log (.applied c)))) :
    Post (fun t => ∃ u, P u ∧ Said Q u t) (s.applyAction hook c action) := by
  intro t hok
  obtain ⟨w, hw, hok⟩ := Outcome.bind_eq_ok.mp hok
  refine Post.bind (Q := fun t => ∃ u, P u ∧ Said Q u t)
    (hfirst w (Outcome.ofExcept_eq_ok.mp hw)) (fun u hu => ?_) t hok
  split
  · exact Post.of_fault
  · split
    · exact (endTurn_said hh hQ).mono fun v hv => ⟨u, hu, hv⟩
    · exact Post.of_ok ⟨u, hu, .refl u⟩

end Aside

/-- What the handling of a message sends. -/
theorem handleMessage_said {hook : Option UInt32 → Server → Outcome Fault Server} {c : UInt32}
    {msg : Message} (hh : ∀ client s, Post (Said (Speaks c msg) s) (hook client s))
    (chance : Chance) : Post (Said (Speaks c msg) s) (s.handleMessage hook chance c msg) := by
  have haside : ∀ d m, Aside c msg d m → Speaks c msg d m := fun _ _ => .aside
  unfold handleMessage
  split
  · refine (register_said hh (fun _ _ hm => .aside (.welcome hm)) (P := Said (Speaks c msg) s) ?_).mono
      fun _ ⟨_, hu, hsaid⟩ => hu.trans hsaid
    exact fun p _ _ _ hp => (messageClient_said hh (.registered (clientOnRegister_spec hp).id)).mono
      fun _ hu => hu.before rfl rfl
  · refine Post.bind (P := fun _ => True) (fun _ _ => trivial) fun r _ => ?_
    refine Post.bind (P := fun _ => True) (fun _ _ => trivial) fun approved _ => ?_
    split
    · refine (applyAction_said hh haside (P := Said (Speaks c msg) s) ?_).mono
        fun _ ⟨_, hu, hsaid⟩ => hu.trans hsaid
      exact fun _ _ => (messageAllClients_said hh (fun d => .validated d _) none).mono
        fun _ hu => hu.before rfl rfl
    · exact messageClient_said hh (.aborted _)
  · rename_i hid
    exact messageAllClients_said hh (fun d => .aside (.relayed d hid)) _
  · rename_i hid
    exact Post.of_ok ((Said.refl s).send (.ping hid))
  · split
    · exact messageAllClients_said hh (fun d => .aside (.chat d)) _
    · exact Post.of_fault
  · exact Post.of_ok (.refl s)

end Server

/-- What a client asked for, or what a reply is about: the name of a registration, the type and
the `ActionInfo` of an action, or the ping itself. -/
inductive Request
  | registration (name : Vector UInt8 75)
  | action (actionType : UInt8) (actionInfo : Vector Int16 4)
  | ping (msg : Message)
deriving DecidableEq

/-- The message of client `c` as a request. -/
def Message.request (msg : Message) : Option Request :=
  match ECustomMetaMSG.ofCode msg.header.id with
  | some .clientRegisterOnServer =>
    (msg.pop Layout.player).toOption.map fun r => .registration r.1.name
  | some .serverGamePlayerActionApprove =>
    (msg.pop Layout.playerAction).toOption.map fun r => .action r.1.actionType r.1.actionInfo
  | some .serverPing => some (.ping msg)
  | _ => none

/-- A message to client `c` as a reply. An approved action is a reply to its player only. -/
def Message.reply (c : UInt32) (msg : Message) : Option Request :=
  match ECustomMetaMSG.ofCode msg.header.id with
  | some .clientRegisterFromServer =>
    (msg.pop Layout.player).toOption.map fun r => .registration r.1.name
  | some .gamePlayerActionAborted =>
    (msg.pop Layout.playerAction).toOption.map fun r => .action r.1.actionType r.1.actionInfo
  | some .gamePlayerActionValidated =>
    (msg.pop Layout.playerAction).toOption.bind fun r =>
      if r.1.playerID = c then some (.action r.1.actionType r.1.actionInfo) else none
  | some .serverPing => some (.ping msg)
  | _ => none

/-- What client `c` asks for with an event. -/
def Server.Event.request (c : UInt32) : Server.Event → Option Request
  | .message _ _ e msg => if e = c then msg.request else none
  | _ => none

theorem Server.deaf_reply (c : UInt32) : Server.Deaf (Message.reply c) := by
  rintro d msg (_ | action)
  · simp [Message.reply]
  · simp [Message.reply, gameAITurnAction]

theorem Welcome.reply {c d e : UInt32} {m : Message} (h : Welcome c d m) : m.reply e = none := by
  cases h with
  | turnTalk h => exact Server.deaf_reply e _ _ h
  | map m | enemy e | added d p => simp [Message.reply]

theorem Aside.reply {c d e : UInt32} {msg m : Message} (h : Aside c msg d m) : m.reply e = none := by
  cases h with
  | welcome h => exact h.reply
  | relayed d hid => simp [Message.reply, hid]
  | removed d pid | ended | nextTurn d id | chat d => simp [Message.reply]

/-- Another client hears no reply. -/
theorem Speaks.reply_of_ne {c d : UInt32} {msg m : Message} (h : Speaks c msg d m) (hne : d ≠ c) :
    m.reply d = none := by
  cases h with
  | aside h => exact h.reply
  | registered hid | aborted action | ping hid => exact absurd rfl hne
  | validated d action =>
    have hid : c ≠ d := hne.symm
    simp [Message.reply, Server.actionValidated, Message.pop_push, Except.toOption, hid]

namespace Server
variable {s t : Server}

open Outcome (Post)

section Replies
variable {c : UInt32} {msg : Message} {n : Nat} {chance : Chance}

/-- The client has got what it asked for, if it is still open. -/
def Served (c : UInt32) (msg : Message) (s t : Server) : Prop :=
  c ∉ t.closed → t.heard (Message.reply c) c = s.heard (Message.reply c) c ++ msg.request.toList

theorem Served.said (h : Served c msg s t) {u : Server} (hsaid : Said (Aside c msg) t u) :
    Served c msg s u := by
  intro hopen
  rw [hsaid.heard fun _ hm => hm.reply]
  exact h fun hc => hopen (hsaid.closed hc)

theorem Said.served (h : Said (Aside c msg) s t) (hnone : msg.request = none) : Served c msg s t := by
  intro _
  rw [h.heard fun _ hm => hm.reply, hnone]
  simp

theorem said_aside (n : Nat) (client : Option UInt32) (s : Server) :
    Post (Said (Aside c msg) s) (onClientDisconnect n client s) :=
  onClientDisconnect_said (fun _ _ hm => .welcome (.turnTalk hm)) n client s

theorem said_turnTalk (n : Nat) (client : Option UInt32) (s : Server) :
    Post (Said TurnTalk s) (onClientDisconnect n client s) :=
  onClientDisconnect_said (fun _ _ h => h) n client s

theorem register_served (h : s.WellFormed) (hc : s.Accepted c) (hids : c ∈ s.ids)
    (hid : ECustomMetaMSG.ofCode msg.header.id = some .clientRegisterOnServer) :
    Post (Served c msg s) (s.register (onClientDisconnect n) chance c msg) := by
  refine (register_said (P := Served c msg s) (said_aside n) (fun _ _ hm => .welcome hm) ?_).mono
    fun t ⟨u, hu, hsaid⟩ => hu.said hsaid
  intro p info rest hpop hp
  have hnew := clientOnRegister_spec hp
  have hname : p.name = info.name := by
    cases hp
    rfl
  rw [hnew.id]
  refine (messageClient_heard (g := Message.reply c) (onClientDisconnect_spec n)
    (wellFormed_enter h hids hnew) hc).mono fun u hu hopen => ?_
  rw [hu hopen]
  refine congrArg₂ (· ++ ·) (heard_congr rfl c) ?_
  simp [Message.reply, Message.request, hid, hpop, hname, Message.pop_push, Except.toOption]

theorem actionApprove_served (h : s.WellFormed) (hc : s.Accepted c) (hids : c ∈ s.ids)
    (hid : ECustomMetaMSG.ofCode msg.header.id = some .serverGamePlayerActionApprove) :
    Post (Served c msg s) (s.actionApprove (onClientDisconnect n) c msg) := by
  intro t hok
  obtain ⟨⟨action, rest⟩, hpop, hok⟩ := Outcome.bind_eq_ok.mp hok
  obtain ⟨approved, -, hok⟩ := Outcome.bind_eq_ok.mp hok
  have hpop := Outcome.ofExcept_eq_ok.mp hpop
  have hrequest : msg.request = some (.action action.actionType action.actionInfo) := by
    simp [Message.request, hid, hpop, Except.toOption]
  cases approved with
  | false =>
    intro hopen
    rw [messageClient_heard (onClientDisconnect_spec n) h hc t hok hopen, hrequest]
    simp [Message.reply, Message.pop_push, Except.toOption]
  | true =>
    have happlied : Post (fun t => ∃ u, Served c msg s u ∧ Said (Aside c msg) u t)
        (s.applyAction (onClientDisconnect n) c action) := by
      refine applyAction_said (said_aside n) (fun _ _ hm => hm) fun w hw => ?_
      refine (messageAllClients_heard (onClientDisconnect_spec n) (said_turnTalk n) (deaf_reply c)
        (wellFormed_applied h hw)).mono fun u hu hopen => ?_
      rw [hu.reached c hids hopen (Option.some_ne_none c), hrequest]
      refine congrArg₂ (· ++ ·) (heard_congr rfl c) ?_
      simp [Message.reply, actionValidated, Message.pop_push, Except.toOption]
    obtain ⟨u, hu, hsaid⟩ := happlied t hok
    exact hu.said hsaid

theorem handleMessage_served (h : s.WellFormed) (hc : s.Accepted c) :
    Post (Served c msg s) (s.handleMessage (onClientDisconnect n) chance c msg) := by
  intro t hok hopen
  have hsaid := handleMessage_said (onClientDisconnect_said (fun _ _ hm => .aside (.welcome (.turnTalk hm))) n)
    chance t hok
  have hids : c ∈ s.ids := (h.gone c hc).resolve_right fun hmem => hopen (hsaid.closed hmem)
  unfold handleMessage at hok
  split at hok
  · rename_i hid
    exact register_served h hc hids hid t hok hopen
  · rename_i hid
    exact actionApprove_served h hc hids hid t hok hopen
  · rename_i hid
    have hrelayed := messageAllClients_said (said_aside n) (fun d => Aside.relayed (c := c) d hid) _ t hok
    exact hrelayed.served (by simp [Message.request, hid]) hopen
  · rename_i hid
    cases hok
    rw [heard_send_self]
    simp [Message.reply, Message.request, hid]
  · rename_i hid
    split at hok
    · have hchat := messageAllClients_said (said_aside n)
        (fun d => (Aside.chat d : Aside c msg d _)) _ t hok
      exact hchat.served (by simp [Message.request, hid]) hopen
    · exact nomatch hok
  · rename_i hregister happrove _ hping _
    cases hok
    have hnone : msg.request = none := by
      unfold Message.request
      split
      · rename_i hid
        exact absurd hid hregister
      · rename_i hid
        exact absurd hid happrove
      · rename_i hid
        exact absurd hid hping
      · rfl
    rw [hnone]
    simp

end Replies

/-- A step answers what the client asks for with it, and nothing else. -/
theorem step_replies (hs : s.Idle) {e : Event} (h : step s e = some t) {c : UInt32}
    (hopen : c ∉ t.closed) :
    t.heard (Message.reply c) c = s.heard (Message.reply c) c ++ (e.request c).toList := by
  have hsend : ∀ (d : UInt32) (kind : ECustomMetaMSG) (s : Server),
      (Message.ofID kind).reply c = none →
      (s.send d (.ofID kind)).heard (Message.reply c) c = s.heard (Message.reply c) c := by
    intro d kind s hnone
    have hsaid : Said (fun _ m => m.reply c = none) s (s.send d (.ofID kind)) :=
      (Said.refl s).send hnone
    exact hsaid.heard fun _ hm => hm
  cases step_cases h with
  | accept _ =>
    simp only [Event.request, Option.toList_none, List.append_nil]
    exact (heard_congr rfl c).trans (hsend _ _ s (by simp [Message.reply]))
  | validated d _ =>
    simp only [Event.request, Option.toList_none, List.append_nil]
    exact hsend _ _ s (by simp [Message.reply])
  | close d _ =>
    simp only [Event.request, Option.toList_none, List.append_nil]
    exact heard_congr rfl c
  | shyCheck n hok =>
    simp only [Event.request, Option.toList_none, List.append_nil]
    have hsaid := messageAllClients_said
      (onClientDisconnect_said (Q := fun _ m => m.reply c = none) (fun _ m => deaf_reply c _ m) n)
      (fun d => by simp [Message.reply]) none t hok
    exact hsaid.heard fun _ hm => hm
  | message n chance d msg hd hok =>
    obtain ⟨u, hu, hflush, hanswered⟩ := onMessage_cases hs hd hok
    have hwf := hflush.wellFormed
    have hd' := hflush.accepted hd
    obtain ⟨v, hv, hok⟩ := Outcome.bind_eq_ok.mp hok
    cases hu.symm.trans hv
    have hquiet : u.heard (Message.reply c) c = s.heard (Message.reply c) c :=
      (flushGarbage_said (said_aside n) (fun _ _ (hm : Aside d msg _ _) => hm) u hu).heard
        fun _ hm => hm.reply
    by_cases hdc : d = c
    · subst hdc
      rw [handleMessage_served hwf hd' t hok hopen, hquiet]
      simp [Event.request]
    · have hsaid := handleMessage_said
        (onClientDisconnect_said (fun _ _ hm => .aside (.welcome (.turnTalk hm))) n) chance t hok
      rw [hsaid.heard fun m hm => hm.reply_of_ne fun heq => hdc heq.symm, hquiet]
      simp [Event.request, hdc]

theorem step_closed {e : Event} (h : step s e = some t) : s.closed ⊆ t.closed := by
  cases step_cases h with
  | accept _ => exact List.Subset.refl _
  | validated d _ => exact List.Subset.refl _
  | close d _ => exact List.subset_cons_self _ _
  | shyCheck n hok =>
    exact (messageAllClients_said (onClientDisconnect_said (Q := fun _ _ => True)
      (fun _ _ _ => trivial) n) (fun _ => trivial) none t hok).closed
  | message n chance d msg _ hok =>
    obtain ⟨u, hu, hok⟩ := Outcome.bind_eq_ok.mp hok
    have hflush := flushGarbage_said (said_aside n) (fun _ _ (hm : Aside d msg _ _) => hm) u hu
    have hhandled := handleMessage_said
      (onClientDisconnect_said (fun _ _ hm => .aside (.welcome (.turnTalk hm))) n) chance t hok
    exact List.Subset.trans hflush.closed hhandled.closed

/-- Every request of a client that is still open was answered once, in the order of the
requests, with the name, the action or the ping that it was about. -/
theorem replies_eq_requests {mapRand enemyRand : Nat → Nat} {closing : Nat → List UInt32}
    {events : List Event} (hrun : Machine.run step (start mapRand enemyRand closing) events = some s)
    {c : UInt32} (hopen : c ∉ s.closed) :
    (s.stream c).filterMap (Message.reply c) = events.filterMap (Event.request c) := by
  refine (Machine.invariant_history (P := fun _ => True)
    (I := fun es s => s.Idle ∧ (c ∉ s.closed →
      s.heard (Message.reply c) c = es.filterMap (Event.request c)))
    (fun _ _ _ => trivial) ?_ ⟨start_idle mapRand enemyRand closing, fun _ => rfl⟩ trivial hrun).2 hopen
  rintro es e s t - ⟨hs, hbefore⟩ hstep
  refine ⟨step_idle hs hstep, fun hopen => ?_⟩
  have hclosed : c ∉ s.closed := fun hmem => hopen (step_closed hstep hmem)
  rw [step_replies hs hstep hopen, hbefore hclosed, List.filterMap_append]
  cases hrequest : e.request c <;> simp [hrequest]

/-- A registration, a move that leaves the map and a ping. -/
def threeRequests : List Event :=
  [.accept, .message 0 (.always 20) 10000 (registerRequest Player.default),
    .message 0 (.always 0) 10000 (actionRequest ⟨EPlayerActionType.move.code, 10000, #v[0, 100, 0, 0]⟩),
    .message 0 (.always 0) 10000 (.ofID .serverPing)]

theorem replies_eq_requests_three : ∃ s, Machine.run step (start (fun _ => 0) (fun _ => 0)
      fun _ => []) threeRequests = some s ∧ 10000 ∉ s.closed ∧
    (s.stream 10000).filterMap (Message.reply 10000) =
      threeRequests.filterMap (Event.request 10000) := by
  have hrun : ((Machine.run step (start (fun _ => 0) (fun _ => 0) fun _ => []) threeRequests).map
      Server.closed) = some [] := by decide +kernel
  obtain ⟨s, hs, hclosed⟩ := Option.map_eq_some_iff.mp hrun
  have hopen : 10000 ∉ s.closed := by
    rw [hclosed]
    exact List.not_mem_nil
  exact ⟨s, hs, hopen, replies_eq_requests hs hopen⟩

end Server

end AsciiTerra
