import AsciiTerra.SmallSteps

/-!
# Hooks that go further

`Below m x y`: unless `x` is cut off, `y` comes to the same. When one hook is below another in
this sense, so are the functions that call it.
-/

set_option autoImplicit false

namespace AsciiTerra

open Outcome (Below Post)

namespace Server
variable {s t : Server} {m : Option Fault}

instance : Inhabited Fault := ⟨.assertion⟩

section Hook
variable {hook hook' : Option UInt32 → Server → Outcome Fault Server}
variable (hle : ∀ client s, Below m (hook client s) (hook' client s))
include hle

theorem messageClient_below (client : Option UInt32) (msg : Message) (s : Server) :
    Below m (messageClient hook client msg s) (messageClient hook' client msg s) := by
  cases client with
  | none => exact .bind (hle none s) fun t => .refl _
  | some c =>
    by_cases hup : c ∈ s.tick.closed
    · rw [messageClient_closed hup, messageClient_closed hup]
      exact .bind (hle _ _) fun t => .refl _
    · rw [messageClient_open hup, messageClient_open hup]
      exact .refl _

theorem messageEntry_below (msg : Message) (ignore : Option UInt32) (st : Server × Bool) (i : Nat) :
    Below m (messageEntry hook msg ignore st i) (messageEntry hook' msg ignore st i) := by
  unfold messageEntry
  split
  · exact .refl _
  · split
    rename_i client hi up u hup
    split
    · exact .refl _
    · exact .bind (hle _ _) fun t => .refl _

theorem messageAllClients_below (msg : Message) (ignore : Option UInt32) (s : Server) :
    Below m (messageAllClients hook msg ignore s) (messageAllClients hook' msg ignore s) :=
  .bind (.foldlM (messageEntry_below hle msg ignore) _ _) fun _ => .refl _

theorem makeAITurn_below (s : Server) : Below m (s.makeAITurn hook) (s.makeAITurn hook') := by
  refine .bind (.refl _) fun st => ?_
  exact .bind (.foldlM (fun u action => messageAllClients_below hle _ none u) _ _) fun t => .refl _

theorem startTurn_below (s : Server) : Below m (s.startTurn hook) (s.startTurn hook') := by
  refine .bind ?_ fun t => .refl _
  unfold sendTurn
  split
  · exact .refl _
  · exact .refl _
  · exact messageClient_below hle _ _ s

theorem passTurn_below (client : Option UInt32) (s : Server) :
    Below m (s.passTurn hook client) (s.passTurn hook' client) := by
  unfold passTurn
  split
  · exact .refl _
  · split
    · split
      · exact .refl _
      · exact .bind (makeAITurn_below hle _) fun t => .refl _
    · exact .refl _

theorem chooseNextPlayerForTurn_below (client : Option UInt32) (s : Server) :
    Below m (s.chooseNextPlayerForTurn hook client) (s.chooseNextPlayerForTurn hook' client) := by
  unfold chooseNextPlayerForTurn
  simp only
  split
  · exact .refl _
  · exact .bind (passTurn_below hle _ _) fun t => startTurn_below hle t

theorem flushGarbage_below (s : Server) : Below m (s.flushGarbage hook) (s.flushGarbage hook') := by
  refine .bind (.foldlM (fun u pid => ?_) _ _) fun t => .refl _
  exact .bind (messageAllClients_below hle _ none _) fun t => .refl _

theorem announce_below (c : UInt32) (playerDesc : Player) (s : Server) :
    Below m (s.announce hook c playerDesc) (s.announce hook' c playerDesc) := by
  refine .bind (messageClient_below hle _ _ s) fun t => ?_
  refine .bind (messageClient_below hle _ _ t) fun t => ?_
  refine .bind (.foldlM (fun u i => ?_) _ _) fun t => ?_
  · unfold sendEnemy
    split
    · exact .refl _
    · exact messageClient_below hle _ _ u
  refine .bind (messageAllClients_below hle _ _ t) fun t => .foldlM (fun u key => ?_) _ _
  unfold sendOtherPlayer
  split
  · exact .refl _
  · split
    · exact .refl _
    · exact .bind (messageClient_below hle _ _ u) fun t => .refl _

theorem register_below (chance : Chance) (c : UInt32) (msg : Message) (s : Server) :
    Below m (s.register hook chance c msg) (s.register hook' chance c msg) := by
  refine .bind (.refl _) fun r => .bind (.refl _) fun p => ?_
  refine .bind (announce_below hle _ _ _) fun t => ?_
  split
  · exact chooseNextPlayerForTurn_below hle none t
  · exact .refl _

theorem actionApprove_below (c : UInt32) (msg : Message) (s : Server) :
    Below m (s.actionApprove hook c msg) (s.actionApprove hook' c msg) := by
  refine .bind (.refl _) fun r => .bind (.refl _) fun approved => ?_
  split
  · refine .bind (.refl _) fun w => .bind (messageAllClients_below hle _ _ _) fun t => ?_
    split
    · exact .refl _
    · split
      · refine .bind (messageClient_below hle _ _ t) fun t => ?_
        refine .bind (chooseNextPlayerForTurn_below hle _ t) fun t => ?_
        exact messageAllClients_below hle _ _ t
      · exact .refl _
  · exact messageClient_below hle _ _ s

theorem onMessage_below (chance : Chance) (c : UInt32) (msg : Message) (s : Server) :
    Below m (s.onMessage hook chance c msg) (s.onMessage hook' chance c msg) := by
  refine .bind (flushGarbage_below hle s) fun t => ?_
  unfold handleMessage
  split
  · exact register_below hle chance c msg t
  · exact actionApprove_below hle c msg t
  · exact messageAllClients_below hle _ _ t
  · exact .refl _
  · split
    · exact messageAllClients_below hle _ _ t
    · exact .refl _
  · exact .refl _

end Hook

theorem hookSpec_of_below {hook : Option UInt32 → Server → Outcome Fault Server} {n : Nat}
    (hle : ∀ client s, Below m (hook client s) (onClientDisconnect n client s)) : HookSpec hook := by
  have hspec := onClientDisconnect_spec n
  constructor
  · intro s t ht
    have hreal := hle none s
    rw [ht] at hreal
    exact hspec.null s t (hreal (Outcome.ok_ne_stop t m))
  · intro c s hwf hc hclosed
    exact (hle (some c) s).post (hspec.disconnected c s hwf hc hclosed)

/-- The handler of an event, with a hook for the number of nested calls that the event grants. -/
def handler (hook : Nat → Option UInt32 → Server → Outcome Fault Server) (s : Server) :
    Event → Outcome Fault Server
  | .accept => .ok s.accept
  | .validated c => .ok (s.send c (.ofID .clientAccepted))
  | .close c => .ok { s with closed := c :: s.closed }
  | .shyCheck depth => s.shyCheckAllPlayers (hook depth)
  | .message depth chance c msg => s.onMessage (hook depth) chance c msg

theorem handler_of_step {event : Event} (h : step s event = some t) :
    handler onClientDisconnect s event = .ok t := by
  cases step_cases h with
  | accept _ | validated _ _ | close _ _ => rfl
  | shyCheck _ hok => exact hok
  | message _ _ _ _ _ hok => exact hok

theorem handler_below {hook hook' : Nat → Option UInt32 → Server → Outcome Fault Server}
    (hle : ∀ n client s, Below m (hook n client s) (hook' n client s)) (s : Server)
    (event : Event) :
    Below m (handler hook s event) (handler hook' s event) := by
  cases event with
  | shyCheck depth => exact messageAllClients_below (hle depth) _ none s
  | message depth chance c msg => exact onMessage_below (hle depth) chance c msg s
  | accept | validated _ | close _ => exact .refl _

/-- What a hook comes to where it is cut off makes no difference to the handler. -/
def Uncut (hook : Option Fault → Nat → Option UInt32 → Server → Outcome Fault Server)
    (s : Server) (event : Event) : Prop :=
  ∀ m m', handler (hook m) s event = handler (hook m') s event

section Uncut
variable {hook : Option Fault → Nat → Option UInt32 → Server → Outcome Fault Server}
variable {event : Event}

theorem Uncut.handler_eq {hook' : Nat → Option UInt32 → Server → Outcome Fault Server}
    (h : Uncut hook s event)
    (hle : ∀ m n client s, Below m (hook m n client s) (hook' n client s)) (m : Option Fault) :
    handler hook' s event = handler (hook m) s event :=
  Below.eq_of_forall (fun m => handler_below (hle m) s event) h m

theorem uncut_of_ne_deep
    (hle : ∀ m n client s, Below none (hook none n client s) (hook m n client s))
    (h : handler (hook none) s event ≠ .deep) : Uncut hook s event := by
  have hsame : ∀ m, handler (hook m) s event = handler (hook none) s event :=
    fun m => handler_below (hle m) s event h
  intro m m'
  rw [hsame m, hsame m']

end Uncut

/-- What is left of the list in the loop of `MessageAllClients`: from index `i` on nothing has
changed. -/
def Ahead (s : Server) (i : Nat) (st : Server × Bool) : Prop :=
  st.1.deqConnection.length = s.deqConnection.length ∧
    ∀ j, i ≤ j → st.1.deqConnection[j]? = s.deqConnection[j]?

end Server

end AsciiTerra
