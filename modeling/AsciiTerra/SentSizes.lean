import AsciiTerra.BodyStack
import AsciiTerra.Server

/-!
# Sizes of sent messages

Every message that the server builds itself states the size of its body, so what `Send` is
given does, as long as the messages that are sent on do.
-/

set_option autoImplicit false

namespace AsciiTerra

theorem Message.sizeMatches_push {α : Type} {layout : Codec α} (h : layout.size < 2 ^ 32)
    (id : ECustomMetaMSG) (a : α) : ((Message.ofID id).push layout a).SizeMatches := by
  refine (Message.sizeIsRight_push layout a _).sizeMatches ?_
  rw [show ((Message.ofID id).push layout a).body.length = layout.size from layout.length_encode a]
  exact h

/-- The ids of the messages that the server sends on as they came. -/
def Message.Relayed (msg : Message) : Prop :=
  ECustomMetaMSG.ofCode msg.header.id = some .serverPing ∨
    ECustomMetaMSG.ofCode msg.header.id = some .gameUpdatePlayer

instance (msg : Message) : Decidable msg.Relayed := inferInstanceAs (Decidable (_ ∨ _))

namespace Server
variable {s t : Server}

open Outcome (Post)

/-- Each message handed to `Send` states the size of its body. -/
def SizesMatch (s : Server) : Prop := ∀ p ∈ s.sent, p.2.SizeMatches

theorem SizesMatch.send (h : s.SizesMatch) {msg : Message} (hmsg : msg.SizeMatches) (c : UInt32) :
    (s.send c msg).SizesMatch := by
  intro p hp
  rcases List.mem_append.mp hp with hp | hp
  · exact h p hp
  · rw [List.mem_singleton.mp hp]
    exact hmsg

section Hook
variable {hook : Option UInt32 → Server → Outcome Fault Server}
variable (hh : ∀ client s, SizesMatch s → Post SizesMatch (hook client s))
include hh

theorem messageClient_sizes {msg : Message} (hmsg : msg.SizeMatches) (client : Option UInt32)
    (hs : s.SizesMatch) : Post SizesMatch (messageClient hook client msg s) := by
  have hconnected : (connected client s).2.SizesMatch := by
    cases client with
    | none => exact hs
    | some c => exact hs
  unfold messageClient
  simp only
  split
  · exact Post.of_ok (hconnected.send hmsg _)
  · exact Post.bind (hh _ _ hconnected) fun t ht => Post.of_ok ht

theorem messageAllClients_sizes {msg : Message} (hmsg : msg.SizeMatches) (ignore : Option UInt32)
    (hs : s.SizesMatch) : Post SizesMatch (messageAllClients hook msg ignore s) := by
  refine Post.bind (P := fun st => st.1.SizesMatch) (Post.foldlM hs fun st i _ hst => ?_)
    fun st hst => Post.of_ok ?_
  · have hconnected : ∀ client, (connected client st.1).2.SizesMatch := by
      rintro (_ | c)
      · exact hst
      · exact hst
    unfold messageEntry
    split
    · exact Post.of_fault
    · simp only
      split
      · refine Post.of_ok ?_
        split
        · exact (hconnected _).send hmsg _
        · exact hconnected _
      · refine Post.bind (hh _ _ (hconnected _)) fun t ht => ?_
        split
        · exact Post.of_ok ht
        · exact Post.of_fault
  · split
    · exact hst
    · exact hst

theorem makeAITurn_sizes (hs : s.SizesMatch) : Post SizesMatch (s.makeAITurn hook) := by
  refine Post.bind (P := fun _ => True) (fun _ _ => trivial) fun st _ => ?_
  refine Post.bind (Post.foldlM (I := SizesMatch) hs fun t action _ ht => ?_) fun t ht => Post.of_ok ht
  exact messageAllClients_sizes hh (Message.sizeMatches_push (by decide) _ _) none ht

theorem startTurn_sizes (hs : s.SizesMatch) : Post SizesMatch (s.startTurn hook) := by
  refine Post.bind (P := SizesMatch) ?_ fun t ht => ?_
  · unfold sendTurn
    split
    · exact Post.of_fault
    · exact Post.of_ok hs
    · exact messageClient_sizes hh (by decide) _ hs
  · unfold resetTurn
    split
    · exact Post.of_fault
    · exact Post.bind (P := fun _ => True) (fun _ _ => trivial) fun player _ => Post.of_ok ht

omit hh in
theorem giveToFirst_sizes (hs : s.SizesMatch) : Post SizesMatch s.giveToFirst := by
  unfold giveToFirst
  split
  · exact Post.of_fault
  · exact Post.of_ok hs

theorem chooseNextPlayerForTurn_sizes (hs : s.SizesMatch) (client : Option UInt32) :
    Post SizesMatch (s.chooseNextPlayerForTurn hook client) := by
  have hlog : (s.log .choosing).SizesMatch := hs
  unfold chooseNextPlayerForTurn
  simp only
  split
  · exact Post.of_ok hlog
  · refine Post.bind (P := SizesMatch) ?_ fun t ht => startTurn_sizes hh ht
    unfold passTurn
    split
    · exact giveToFirst_sizes hlog
    · split
      · split
        · exact Post.of_ok hlog
        · exact Post.bind (makeAITurn_sizes hh hlog) fun t ht => giveToFirst_sizes ht
      · exact Post.of_fault

end Hook

theorem onClientDisconnect_sizes (n : Nat) (client : Option UInt32) (s : Server)
    (hs : s.SizesMatch) : Post SizesMatch (onClientDisconnect n client s) := by
  induction n generalizing client s with
  | zero => exact Post.of_deep
  | succ n ih =>
    cases client with
    | none => exact Post.of_fault
    | some c =>
      unfold onClientDisconnect
      split
      · refine Post.bind (P := SizesMatch) ?_ fun t ht => Post.of_ok ht
        split
        · exact chooseNextPlayerForTurn_sizes ih hs _
        · exact Post.of_ok hs
      · exact Post.of_ok hs

section Hook
variable {hook : Option UInt32 → Server → Outcome Fault Server}
variable (hh : ∀ client s, SizesMatch s → Post SizesMatch (hook client s))
include hh

theorem flushGarbage_sizes (hs : s.SizesMatch) : Post SizesMatch (s.flushGarbage hook) := by
  refine Post.bind (Post.foldlM (I := SizesMatch) hs fun t pid _ ht => ?_) fun t ht => Post.of_ok ht
  have hnote : (t.note (.broadcast pid)).SizesMatch := ht
  refine Post.bind (messageAllClients_sizes hh (Message.sizeMatches_push (by decide) _ _) none hnote)
    fun u hu => ?_
  split
  · exact Post.of_ok hu
  · exact Post.of_fault

theorem announce_sizes (hs : s.SizesMatch) (c : UInt32) (playerDesc : Player) :
    Post SizesMatch (s.announce hook c playerDesc) := by
  have hrecord : ∀ {α : Type} (layout : Codec α) (id : ECustomMetaMSG) (a : α) (t : Server),
      layout.size < 2 ^ 32 → t.SizesMatch →
      Post SizesMatch (messageClient hook (some c) ((Message.ofID id).push layout a) t) :=
    fun layout id a t hsize ht => messageClient_sizes hh (Message.sizeMatches_push hsize id a) _ ht
  refine Post.bind (hrecord _ _ _ s (by decide) hs) fun t ht => ?_
  refine Post.bind (hrecord _ _ _ t (by decide) ht) fun t ht => ?_
  refine Post.bind (Post.foldlM (I := SizesMatch) ht fun t i _ ht => ?_) fun t ht => ?_
  · unfold sendEnemy
    split
    · exact Post.of_fault
    · exact hrecord _ _ _ t (by decide) ht
  refine Post.bind (messageAllClients_sizes hh (Message.sizeMatches_push (by decide) _ _) _ ht)
    fun t ht => ?_
  refine Post.foldlM (I := SizesMatch) ht fun t key _ ht => ?_
  unfold sendOtherPlayer
  split
  · exact Post.of_ok ht
  · split
    · exact Post.of_ok ht
    · refine Post.bind (hrecord _ _ _ t (by decide) ht) fun u hu => ?_
      split
      · exact Post.of_ok hu
      · exact Post.of_fault

theorem register_sizes (chance : Chance) (c : UInt32) (msg : Message) (hs : s.SizesMatch) :
    Post SizesMatch (s.register hook chance c msg) := by
  refine Post.bind (P := fun _ => True) (fun _ _ => trivial) fun r _ => ?_
  refine Post.bind (P := fun _ => True) (fun _ _ => trivial) fun p _ => ?_
  have hentered : (s.setPlayersList (OrderedMap.insertOrAssign chance.order p.id p
      s.gameWorld.playersList)).SizesMatch := hs
  refine Post.bind (announce_sizes hh hentered c p) fun t ht => ?_
  split
  · exact chooseNextPlayerForTurn_sizes hh ht _
  · exact Post.of_ok ht

theorem actionApprove_sizes (c : UInt32) (msg : Message) (hs : s.SizesMatch) :
    Post SizesMatch (s.actionApprove hook c msg) := by
  refine Post.bind (P := fun _ => True) (fun _ _ => trivial) fun r _ => ?_
  refine Post.bind (P := fun _ => True) (fun _ _ => trivial) fun approved _ => ?_
  split
  · refine Post.bind (P := fun _ => True) (fun _ _ => trivial) fun w _ => ?_
    have happlied : ({ s with gameWorld := w }.log (.applied c)).SizesMatch := hs
    refine Post.bind (messageAllClients_sizes hh (Message.sizeMatches_push (by decide) _ _) none
      happlied) fun t ht => ?_
    split
    · exact Post.of_fault
    · split
      · refine Post.bind (messageClient_sizes hh (by decide) _ ht) fun t ht => ?_
        refine Post.bind (chooseNextPlayerForTurn_sizes hh ht _) fun t ht => ?_
        exact messageAllClients_sizes hh (Message.sizeMatches_push (by decide) _ _) none ht
      · exact Post.of_ok ht
  · exact messageClient_sizes hh (Message.sizeMatches_push (by decide) _ _) _ hs

theorem onMessage_sizes (chance : Chance) (c : UInt32) {msg : Message}
    (hmsg : msg.Relayed → msg.SizeMatches) (hs : s.SizesMatch) :
    Post SizesMatch (s.onMessage hook chance c msg) := by
  refine Post.bind (flushGarbage_sizes hh hs) fun t ht => ?_
  unfold handleMessage
  split
  · exact register_sizes hh chance c msg ht
  · exact actionApprove_sizes hh c msg ht
  · rename_i hid
    exact messageAllClients_sizes hh (hmsg (Or.inr hid)) _ ht
  · rename_i hid
    exact Post.of_ok (ht.send (hmsg (Or.inl hid)) c)
  · split
    · exact messageAllClients_sizes hh (Message.sizeMatches_push (by decide) _ _) _ ht
    · exact Post.of_fault
  · exact Post.of_ok ht

end Hook

end Server

end AsciiTerra
