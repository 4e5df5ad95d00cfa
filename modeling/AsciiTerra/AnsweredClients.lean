import AsciiTerra.ClosedGame

/-!
# Requests and answers end to end

The requests of a client, in the order in which it sent them, against the answers that it
has taken from `Incoming()`.
-/

set_option autoImplicit false

namespace AsciiTerra
namespace Game
variable {order : UInt32 → Arrangement (OrderedMap.Entry UInt32 Player)} {map : UInt32 → Map}
variable {g g' : Game} {e : GameEvent} {c : UInt32}

/-- The server has handled messages that client `c` sent, and has answered them. -/
structure Answered (c : UInt32) (g : Game) : Prop where
  handled : g.handled c ≤ (g.clients c).sent.length
  answers : c ∉ g.server.closed → g.server.heard (Message.reply c) c =
    ((g.clients c).sent.take (g.handled c)).filterMap Message.request

theorem recorded_handled_of_ne (hne : ∀ depth chance, e ≠ .message depth chance c) :
    (g.recorded e).handled c = g.handled c := by
  cases e with
  | message depth chance d =>
    have hcd : c ≠ d := fun heq => hne depth chance (heq ▸ rfl)
    exact Function.update_of_ne hcd ..
  | _ => rfl

/-- What client `c` asks for in a step of the server is in its next message. -/
theorem serverEvent_request {event : Server.Event} (h : g.serverEvent e = some event) {s : Server} :
    ((g.clients c).sent.take (({ g with server := s } : Game).recorded e |>.handled c)).filterMap
        Message.request =
      ((g.clients c).sent.take (g.handled c)).filterMap Message.request ++
        (event.request c).toList := by
  by_cases hmessage : ∃ depth chance, e = .message depth chance c
  · obtain ⟨depth, chance, rfl⟩ := hmessage
    obtain ⟨-, h⟩ := Option.ite_none_right_eq_some.mp h
    obtain ⟨msg, hmsg, rfl⟩ := Option.map_eq_some_iff.mp h
    obtain ⟨hlt, heq⟩ := List.getElem?_eq_some_iff.mp hmsg
    have hhandled : (({ g with server := s } : Game).recorded (.message depth chance c)).handled c =
        g.handled c + 1 := Function.update_self ..
    have hrequest : (Server.Event.message depth chance c msg).request c = msg.request := if_pos rfl
    rw [hhandled, hrequest, List.take_succ_eq_append_getElem hlt, heq, List.filterMap_append]
    cases hreq : msg.request <;> simp [hreq]
  · have hne : ∀ depth chance, e ≠ .message depth chance c := fun depth chance heq =>
      hmessage ⟨depth, chance, heq⟩
    have hnone : event.request c = none := by
      cases event with
      | accept | validated | close | shyCheck => rfl
      | message depth chance d msg =>
        have hdc : d ≠ c := fun heq => hne depth chance (heq ▸ (serverEvent_message h).1)
        exact if_neg hdc
    rw [recorded_handled_of_ne hne, hnone, Option.toList_none, List.append_nil]

theorem handled_le {event : Server.Event} (h : g.serverEvent e = some event) {s : Server}
    (hle : g.handled c ≤ (g.clients c).sent.length) :
    (({ g with server := s } : Game).recorded e).handled c ≤ (g.clients c).sent.length := by
  by_cases hmessage : ∃ depth chance, e = .message depth chance c
  · obtain ⟨depth, chance, rfl⟩ := hmessage
    obtain ⟨-, h⟩ := Option.ite_none_right_eq_some.mp h
    obtain ⟨msg, hmsg, -⟩ := Option.map_eq_some_iff.mp h
    have hhandled : (({ g with server := s } : Game).recorded (.message depth chance c)).handled c =
        g.handled c + 1 := Function.update_self ..
    rw [hhandled]
    exact (List.getElem?_eq_some_iff.mp hmsg).1
  · rw [recorded_handled_of_ne fun depth chance heq => hmessage ⟨depth, chance, heq⟩]
    exact hle

theorem Answered.served (h : Answered c g) (hs : g.server.Idle) {event : Server.Event} {s : Server}
    (hevent : g.serverEvent e = some event) (hstep : g.server.step event = some s) :
    Answered c ({ g with server := s }.recorded e) := by
  constructor
  · rw [recorded_clients]
    exact handled_le hevent h.handled
  · rw [recorded_server, recorded_clients]
    intro hopen
    have hbefore : c ∉ g.server.closed := fun hmem => hopen (Server.step_closed hstep hmem)
    rw [Server.step_replies hs hstep hopen, h.answers hbefore, serverEvent_request hevent]

theorem Answered.setClient (h : Answered c g) {a : UInt32} {d : CustomClient}
    (hsent : (g.clients a).sent <+: d.sent) : Answered c (g.setClient a d) := by
  by_cases hac : c = a
  · subst hac
    have hclient : (g.setClient c d).clients c = d := Function.update_self ..
    constructor
    · rw [hclient]
      exact h.handled.trans hsent.length_le
    · intro hopen
      obtain ⟨new, hnew⟩ := hsent
      rw [hclient, ← hnew]
      show _ = ((_ ++ new).take (g.handled c)).filterMap _
      rw [List.take_append_of_le_length h.handled]
      exact h.answers hopen
  · have hclient : (g.setClient a d).clients c = g.clients c := Function.update_of_ne hac ..
    constructor
    · rw [hclient]
      exact h.handled
    · rw [hclient]
      exact h.answers

theorem step_answered (hg : Sane order map g) (h : Answered c g) (hstep : g.step order e = some g') :
    Answered c g' := by
  cases step_played hstep with
  | served hevent hs => exact h.served hg.honest.reachable.idle hevent hs
  | updated hd => exact h.setClient (CustomClient.updatePlayer_sent (hg.clients _).playerID hd)
  | lost => exact h.setClient List.prefix_rfl

/-- The answers that the server has sent to an open client are those to the requests of it that
were handled, so the answers that it has taken are those to its first requests, in order. -/
theorem answers_in_order {mapRand enemyRand : Nat → Nat} {closing : Nat → List UInt32}
    {events : List GameEvent}
    (hrun : Machine.run (step order) (start mapRand enemyRand closing map) events = some g)
    (hopen : c ∉ g.server.closed) :
    (g.server.stream c).filterMap (Message.reply c) =
        ((g.clients c).sent.take (g.handled c)).filterMap Message.request ∧
      (g.clients c).received.filterMap (Message.reply c) <+:
        (g.clients c).sent.filterMap Message.request := by
  have hboth := Machine.invariant (I := fun g : Game => Sane order map g ∧ Answered c g)
    (fun g e g' h hstep => ⟨step_sane h.1 hstep, step_answered h.1 h.2 hstep⟩)
    ⟨start_sane mapRand enemyRand closing, ⟨Nat.le_refl 0, fun _ => rfl⟩⟩ hrun
  have hanswers := hboth.2.answers hopen
  refine ⟨hanswers, ?_⟩
  have hreceived := (hboth.1.clients c).received.filterMap (Message.reply c)
  apply hreceived.trans
  change g.server.heard (Message.reply c) c <+: _
  rw [hanswers]
  exact (List.take_prefix _ _).filterMap _

/-- The server moves the player, and the client hears of it. -/
def hears : List GameEvent :=
  walks ++ List.replicate 6 (.message 0 (.always 10) 10000) ++ [.updatePlayer 10000 idleTick true]

theorem answers_in_order_hears : ∃ g : Game, Machine.run (step sameOrder) blankStart hears = some g ∧
    (g.clients 10000).received.filterMap (Message.reply 10000) =
      [.registration (Vector.replicate 75 0), .action EPlayerActionType.move.code #v[0, 0, 1, 0]] ∧
    (g.clients 10000).received.filterMap (Message.reply 10000) <+:
      (g.clients 10000).sent.filterMap Message.request := by
  have hrun : ((Machine.run (step sameOrder) blankStart hears).map fun g =>
      (g.server.closed, (g.clients 10000).received.filterMap (Message.reply 10000))) =
      some ([], [.registration (Vector.replicate 75 0),
        .action EPlayerActionType.move.code #v[0, 0, 1, 0]]) := by decide +kernel
  obtain ⟨g, hg, h⟩ := Option.map_eq_some_iff.mp hrun
  obtain ⟨hclosed, hreplies⟩ := Prod.mk.inj h
  have hopen : 10000 ∉ g.server.closed := by
    rw [hclosed]
    exact List.not_mem_nil
  exact ⟨g, hg, hreplies, (answers_in_order hg hopen).2⟩

end Game

end AsciiTerra
