import AsciiTerra.Handlers

/-!
# Small steps of a handler

`MessageClient` and `MessageAllClients` change the server only in a few ways, also in the
calls that their hook makes, and the handlers of messages add three more. Whatever these
ways all preserve, a handler preserves.
-/

set_option autoImplicit false

namespace AsciiTerra

namespace Server

open Outcome (Post)

/-- One change of the server while a message is sent for client `sender` or for no one. -/
inductive Small (sender : Option UInt32) : Server → Server → Prop
  | tick (s : Server) : Small sender s s.tick
  | send {s : Server} {c : UInt32} (msg : Message) : some c ∈ s.deqConnection ∨ sender = some c →
      c ∉ s.closed → Small sender s (s.send c msg)
  | eraseNulls (s : Server) : Small sender s s.eraseNulls
  | resetAt (s : Server) (i : Nat) : Small sender s (s.resetAt i)
  | choosing (s : Server) : Small sender s (s.log .choosing)
  | enemies {s : Server} {st : AITurn} : aiTurn s.gameWorld = .ok st →
      Small sender s { s with gameWorld := st.world }
  | removeDead (s : Server) (dirt : Bool) :
      Small sender s { s with gameWorld := removeDeadEnemies dirt s.gameWorld }
  | giveTo {s : Server} {e : OrderedMap.Entry UInt32 Player} : e ∈ s.gameWorld.playersList.entries →
      Small sender s { s with currentPlayerID := e.2.id }
  | resetTurn {s t : Server} : s.resetTurn = .ok t → Small sender s t
  | removePlayer {s : Server} {c : UInt32} : c ∈ s.closed → Small sender s (s.removePlayer c)

def Smalls (sender : Option UInt32) : Server → Server → Prop := Relation.ReflTransGen (Small sender)

variable {s t u : Server} {sender : Option UInt32}

theorem Smalls.refl (s : Server) : Smalls sender s s := Relation.ReflTransGen.refl

theorem Smalls.one (h : Small sender s t) : Smalls sender s t := .single h

theorem Smalls.trans (h : Smalls sender s t) (h' : Smalls sender t u) : Smalls sender s u :=
  Relation.ReflTransGen.trans h h'

theorem Smalls.preserves {I : Server → Prop} (h : Smalls sender s t)
    (hsmall : ∀ s t, I s → Small sender s t → I t) (hs : I s) : I t := by
  induction h with
  | refl => exact hs
  | tail _ hstep ih => exact hsmall _ _ ih hstep

theorem Small.closed (h : Small sender s t) : s.closed ⊆ t.closed := by
  cases h with
  | tick => exact List.subset_append_right _ _
  | resetTurn h =>
    obtain ⟨p, -, rfl⟩ := resetTurn_eq_ok.mp h
    exact List.Subset.refl _
  | send _ _ _ | eraseNulls | resetAt | choosing | enemies _ | removeDead | giveTo _ | removePlayer _ =>
    exact List.Subset.refl _

theorem Smalls.closed (h : Smalls sender s t) : s.closed ⊆ t.closed := by
  induction h with
  | refl => exact List.Subset.refl _
  | tail _ hstep ih => exact List.Subset.trans ih hstep.closed

theorem findConnection_mem {deq : List (Option UInt32)} {id c : UInt32}
    (h : findConnection deq id = .ok (some c)) : some c ∈ deq := by
  induction deq with
  | nil => exact nomatch h
  | cons a deq ih =>
    cases a with
    | none => exact nomatch h
    | some a =>
      unfold findConnection at h
      split at h
      · cases h
        exact List.mem_cons_self
      · exact List.mem_cons_of_mem _ (ih h)

theorem messageClient_open {hook : Option UInt32 → Server → Outcome Fault Server} {c : UInt32}
    {msg : Message} (hc : c ∉ s.tick.closed) :
    messageClient hook (some c) msg s = .ok (s.tick.send c msg) := by
  have hcontains : s.tick.closed.contains c = false := by simpa using hc
  unfold messageClient
  rw [tick_of_connected]
  simp only [hcontains, Bool.not_false]

theorem messageClient_closed {hook : Option UInt32 → Server → Outcome Fault Server} {c : UInt32}
    {msg : Message} (hc : c ∈ s.tick.closed) : messageClient hook (some c) msg s =
      (hook (some c) s.tick >>= fun t => .ok t.eraseNulls) := by
  unfold messageClient
  rw [tick_of_connected]
  simp only [List.contains_iff_mem.mpr hc, Bool.not_true]

theorem messageEntry_open {hook : Option UInt32 → Server → Outcome Fault Server} {msg : Message}
    {ignore : Option UInt32} {i : Nat} {b : Bool} {c : UInt32}
    (hi : s.deqConnection[i]? = some (some c)) (hc : c ∉ s.tick.closed) :
    messageEntry hook msg ignore (s, b) i =
      .ok (if some c ≠ ignore then s.tick.send c msg else s.tick, b) := by
  have hcontains : s.tick.closed.contains c = false := by simpa using hc
  unfold messageEntry
  simp only [hi, tick_of_connected, hcontains, Bool.not_false]

theorem messageEntry_closed {hook : Option UInt32 → Server → Outcome Fault Server} {msg : Message}
    {ignore : Option UInt32} {i : Nat} {b : Bool} {c : UInt32}
    (hi : s.deqConnection[i]? = some (some c)) (hc : c ∈ s.tick.closed) :
    messageEntry hook msg ignore (s, b) i = (hook (some c) s.tick >>= fun t =>
      if t.deqConnection.length = s.deqConnection.length then .ok (t.resetAt i, true)
      else .fault .invalidIterator) := by
  unfold messageEntry
  simp only [hi, tick_of_connected, List.contains_iff_mem.mpr hc, Bool.not_true]
  rfl

/-- The rule for one entry: what the hook leaves when the client is closed, and what there is
without it. -/
theorem messageEntry_post {hook : Option UInt32 → Server → Outcome Fault Server} {msg : Message}
    {ignore : Option UInt32} {i : Nat} {b : Bool} {I : Server × Bool → Prop}
    (hnull : ∀ s t, hook none s ≠ .ok t)
    (hclosed : ∀ c, s.deqConnection[i]? = some (some c) → c ∈ s.tick.closed →
      Post (fun t => t.deqConnection.length = s.deqConnection.length → I (t.resetAt i, true))
        (hook (some c) s.tick))
    (hopen : ∀ c, s.deqConnection[i]? = some (some c) → c ∉ s.tick.closed → some c ≠ ignore →
      I (s.tick.send c msg, b))
    (hignored : ∀ c, s.deqConnection[i]? = some (some c) → c ∉ s.tick.closed →
      some c = ignore → I (s.tick, b)) :
    Post I (messageEntry hook msg ignore (s, b) i) := by
  cases hi : s.deqConnection[i]? with
  | none =>
    simp only [messageEntry, hi]
    exact Post.of_fault
  | some client =>
    cases client with
    | none =>
      simp only [messageEntry, hi, connected]
      intro st hst
      obtain ⟨t, ht, _⟩ := Outcome.bind_eq_ok.mp hst
      exact absurd ht (hnull _ t)
    | some c =>
      by_cases hup : c ∈ s.tick.closed
      · rw [messageEntry_closed hi hup]
        refine Post.bind (hclosed c hi hup) fun t ht => ?_
        split
        · rename_i hlength
          exact Post.of_ok (ht hlength)
        · exact Post.of_fault
      · rw [messageEntry_open hi hup]
        apply Post.of_ok
        split
        · rename_i hne
          exact hopen c hi hup hne
        · rename_i hignore
          exact hignored c hi hup (not_not.mp hignore)

/-- The rule for a broadcast: what every entry keeps, with and without null entries at the end. -/
theorem messageAllClients_post {hook : Option UInt32 → Server → Outcome Fault Server}
    {msg : Message} {ignore : Option UInt32} {I : Server × Bool → Prop} {P : Server → Prop}
    (hstart : I (s, false)) (hentry : ∀ st i, I st → Post I (messageEntry hook msg ignore st i))
    (hkept : ∀ st, I st → P st.1) (herased : ∀ st, I st → P st.1.eraseNulls) :
    Post P (messageAllClients hook msg ignore s) := by
  have hloop : Post I
      ((List.range s.deqConnection.length).foldlM (messageEntry hook msg ignore) (s, false)) :=
    Post.foldlM hstart fun st i _ hst => hentry st i hst
  refine Post.bind hloop fun st hst => Post.of_ok ?_
  split
  · exact herased st hst
  · exact hkept st hst

/-- What the callers of the hook rely on here. -/
structure SmallHook (sender : Option UInt32) (hook : Option UInt32 → Server → Outcome Fault Server) :
    Prop where
  null : ∀ s t, hook none s ≠ .ok t
  closed : ∀ c s, c ∈ s.closed → Post (Smalls sender s) (hook (some c) s)

section Hook
variable {hook : Option UInt32 → Server → Outcome Fault Server} (hh : SmallHook sender hook)
include hh

theorem messageClient_smalls {c : UInt32} {msg : Message}
    (hc : some c ∈ s.deqConnection ∨ sender = some c) :
    Post (Smalls sender s) (messageClient hook (some c) msg s) := by
  have htick : Smalls sender s s.tick := .one (.tick s)
  by_cases hup : c ∈ s.tick.closed
  · rw [messageClient_closed hup]
    refine Post.bind (hh.closed c s.tick hup) fun t ht => Post.of_ok ?_
    exact (htick.trans ht).trans (.one (.eraseNulls t))
  · rw [messageClient_open hup]
    exact Post.of_ok (htick.trans (.one (.send msg hc hup)))

theorem messageEntry_smalls {msg : Message} {ignore : Option UInt32} {b : Bool} {i : Nat} :
    Post (fun st => Smalls sender s st.1) (messageEntry hook msg ignore (s, b) i) := by
  have htick : Smalls sender s s.tick := .one (.tick s)
  refine messageEntry_post hh.null ?_ ?_ ?_
  · intro c hi hup
    refine (hh.closed c s.tick hup).mono fun t ht _ => ?_
    exact (htick.trans ht).trans (.one (.resetAt t i))
  · intro c hi hup _
    exact htick.trans (.one (.send msg (Or.inl (List.mem_of_getElem? hi)) hup))
  · intro c _ _ _
    exact htick

theorem messageAllClients_smalls {msg : Message} {ignore : Option UInt32} :
    Post (Smalls sender s) (messageAllClients hook msg ignore s) := by
  refine messageAllClients_post (I := fun st => Smalls sender s st.1) (.refl s) ?_ ?_ ?_
  · intro st i hst
    exact (messageEntry_smalls hh).mono fun _ => hst.trans
  · exact fun st hst => hst
  · exact fun st hst => hst.trans (.one (.eraseNulls _))

theorem makeAITurn_smalls : Post (Smalls sender s) (s.makeAITurn hook) := by
  intro t hok
  obtain ⟨st, hst, hok⟩ := Outcome.bind_eq_ok.mp hok
  obtain ⟨u, hu, hok⟩ := Outcome.bind_eq_ok.mp hok
  cases hok
  have hloop : Smalls sender { s with gameWorld := st.world } u :=
    Post.foldlM (Smalls.refl _)
      (fun u action _ hu => (messageAllClients_smalls hh).mono fun _ => hu.trans) u hu
  exact ((Smalls.one (.enemies hst)).trans hloop).trans (.one (.removeDead u _))

theorem startTurn_smalls : Post (Smalls sender s) (s.startTurn hook) := by
  have hsend : Post (Smalls sender s) (s.sendTurn hook) := by
    unfold sendTurn
    split
    · exact Post.of_fault
    · exact Post.of_ok (.refl s)
    · rename_i c hfind
      exact messageClient_smalls hh (Or.inl (findConnection_mem hfind))
  refine Post.bind hsend fun t ht u hu => ht.trans (.one (.resetTurn hu))

omit hh in
theorem giveToFirst_smalls : Post (Smalls sender s) s.giveToFirst := by
  unfold giveToFirst
  split
  · exact Post.of_fault
  · rename_i first rest hentries
    exact Post.of_ok (.one (.giveTo (by rw [hentries]; exact List.mem_cons_self)))

theorem passTurn_smalls (client : Option UInt32) : Post (Smalls sender s) (s.passTurn hook client) := by
  unfold passTurn
  cases client with
  | none => exact giveToFirst_smalls
  | some c =>
    simp only
    split
    · split
      · rename_i next rest hafter
        refine Post.of_ok (.one (.giveTo (OrderedMap.mem_of_mem_after (k := c) ?_)))
        rw [hafter]
        exact List.mem_cons_self
      · refine Post.bind (makeAITurn_smalls hh) fun t ht => ?_
        exact giveToFirst_smalls.mono fun _ => ht.trans
    · exact Post.of_fault

theorem chooseNextPlayerForTurn_smalls (client : Option UInt32) :
    Post (Smalls sender s) (s.chooseNextPlayerForTurn hook client) := by
  have hlog : Smalls sender s (s.log .choosing) := .one (.choosing s)
  unfold chooseNextPlayerForTurn
  simp only
  split
  · exact Post.of_ok hlog
  · refine Post.bind (passTurn_smalls hh client) fun t ht => ?_
    exact (startTurn_smalls hh).mono fun _ hu => (hlog.trans ht).trans hu

end Hook

theorem onClientDisconnect_smalls (n : Nat) : SmallHook sender (onClientDisconnect n) := by
  induction n with
  | zero => exact ⟨fun _ _ h => (nomatch h), fun _ _ _ => Post.of_deep⟩
  | succ n ih =>
    refine ⟨fun _ _ h => (nomatch h), fun c s hc => ?_⟩
    unfold onClientDisconnect
    split
    · have hturn : Post (Smalls sender s) (if c = s.currentPlayerID then
          s.chooseNextPlayerForTurn (onClientDisconnect n) (some c) else .ok s) := by
        split
        · exact chooseNextPlayerForTurn_smalls ih _
        · exact Post.of_ok (.refl s)
      exact Post.bind hturn fun t ht => Post.of_ok (ht.trans (.one (.removePlayer (ht.closed hc))))
    · exact Post.of_ok (.refl s)

/-- One change of the server while the message of client `c` is handled. -/
inductive Change (c : UInt32) : Server → Server → Prop
  | small {s t : Server} : Small (some c) s t → Change c s t
  /-- `ServerPing` is answered whether or not the socket is open -/
  | reply (s : Server) (msg : Message) : Change c s (s.send c msg)
  | enter (s : Server) (order : Arrangement (OrderedMap.Entry UInt32 Player)) {p : Player} :
      p.id = c → Change c s
        (s.setPlayersList (OrderedMap.insertOrAssign order p.id p s.gameWorld.playersList))
  | apply {s : Server} {action : PlayerAction} {w : GameWorld} : s.approves c action = .ok true →
      s.gameWorld.makeApprovedAction c action = .ok w →
      Change c s ({ s with gameWorld := w }.log (.applied c))

def Changes (c : UInt32) : Server → Server → Prop := Relation.ReflTransGen (Change c)

theorem Changes.refl (c : UInt32) (s : Server) : Changes c s s := Relation.ReflTransGen.refl

theorem Changes.one {c : UInt32} (h : Change c s t) : Changes c s t := .single h

theorem Changes.trans {c : UInt32} (h : Changes c s t) (h' : Changes c t u) : Changes c s u :=
  Relation.ReflTransGen.trans h h'

theorem Smalls.changes {c : UInt32} (h : Smalls (some c) s t) : Changes c s t := by
  induction h with
  | refl => exact .refl c s
  | tail _ hstep ih => exact ih.trans (.one (.small hstep))

theorem Changes.preserves {c : UInt32} {I : Server → Prop} (h : Changes c s t)
    (hchange : ∀ s t, I s → Change c s t → I t) (hs : I s) : I t := by
  induction h with
  | refl => exact hs
  | tail _ hstep ih => exact hchange _ _ ih hstep

section Handlers
variable {hook : Option UInt32 → Server → Outcome Fault Server} {c : UInt32}
variable (hh : SmallHook (some c) hook)
include hh

theorem announce_after {Q : Server → Prop} {playerDesc : Player}
    (hfirst : Post Q (messageClient hook (some c)
      ((Message.ofID .clientRegisterFromServer).push Layout.player playerDesc) s)) :
    Post (fun t => ∃ u, Q u ∧ Smalls (some c) u t) (s.announce hook c playerDesc) := by
  refine Post.bind hfirst fun u hu => ?_
  suffices hrest : Post (Smalls (some c) u) _ from hrest.mono fun t ht => ⟨u, hu, ht⟩
  have hclient : ∀ (msg : Message) (t : Server), Smalls (some c) u t →
      Post (Smalls (some c) u) (messageClient hook (some c) msg t) := fun msg t ht =>
    (messageClient_smalls hh (Or.inr rfl)).mono fun _ => ht.trans
  refine Post.bind (hclient _ u (.refl u)) fun t ht => ?_
  refine Post.bind (Post.foldlM ht fun t i _ ht => ?_) fun t ht => ?_
  · unfold sendEnemy
    split
    · exact Post.of_fault
    · exact hclient _ t ht
  refine Post.bind ((messageAllClients_smalls hh).mono fun _ => ht.trans) fun t ht => ?_
  refine Post.foldlM ht fun t key _ ht => ?_
  unfold sendOtherPlayer
  split
  · exact Post.of_ok ht
  · split
    · exact Post.of_ok ht
    · refine Post.bind (hclient _ t ht) fun v hv => ?_
      split
      · exact Post.of_ok hv
      · exact Post.of_fault

theorem announce_smalls (playerDesc : Player) :
    Post (Smalls (some c) s) (s.announce hook c playerDesc) :=
  (announce_after hh (messageClient_smalls hh (Or.inr rfl))).mono fun _ ⟨_, hu, ht⟩ => hu.trans ht

theorem register_changes (chance : Chance) (msg : Message) :
    Post (Changes c s) (s.register hook chance c msg) := by
  refine Post.bind (P := fun _ => True) (fun _ _ => trivial) fun ⟨playerDesc, rest⟩ _ => ?_
  intro t hok
  obtain ⟨p, hp, hok⟩ := Outcome.bind_eq_ok.mp hok
  have hid : p.id = c := (clientOnRegister_spec (Outcome.ofExcept_eq_ok.mp hp)).1
  have henter := Changes.one (Change.enter s chance.order hid)
  refine Post.bind (announce_smalls hh p) (fun u hu => ?_) t hok
  split
  · exact (chooseNextPlayerForTurn_smalls hh none).mono fun _ hv =>
      henter.trans (hu.trans hv).changes
  · exact Post.of_ok (henter.trans hu.changes)

theorem endTurn_smalls : Post (Smalls (some c) s) (s.endTurn hook c) := by
  refine Post.bind (messageClient_smalls hh (Or.inr rfl)) fun t ht => ?_
  refine Post.bind ((chooseNextPlayerForTurn_smalls hh _).mono fun _ => ht.trans) fun u hu => ?_
  exact (messageAllClients_smalls hh).mono fun _ => hu.trans

theorem actionApprove_smalls (msg : Message) :
    Post (fun t => Smalls (some c) s t ∨ ∃ action w, s.approves c action = .ok true ∧
        s.gameWorld.makeApprovedAction c action = .ok w ∧
        Smalls (some c) ({ s with gameWorld := w }.log (.applied c)) t)
      (s.actionApprove hook c msg) := by
  intro t hok
  obtain ⟨⟨action, rest⟩, _, hok⟩ := Outcome.bind_eq_ok.mp hok
  obtain ⟨approved, happroved, hok⟩ := Outcome.bind_eq_ok.mp hok
  cases approved with
  | false => exact Or.inl (messageClient_smalls hh (Or.inr rfl) t hok)
  | true =>
    obtain ⟨w, hw, hok⟩ := Outcome.bind_eq_ok.mp hok
    refine Or.inr ⟨action, w, Outcome.ofExcept_eq_ok.mp happroved, Outcome.ofExcept_eq_ok.mp hw, ?_⟩
    refine Post.bind (messageAllClients_smalls hh) (fun u hu => ?_) t hok
    split
    · exact Post.of_fault
    · split
      · exact (endTurn_smalls hh).mono fun _ hv => hu.trans hv
      · exact Post.of_ok hu

theorem actionApprove_changes (msg : Message) :
    Post (Changes c s) (s.actionApprove hook c msg) := by
  refine (actionApprove_smalls hh msg).mono fun t ht => ?_
  rcases ht with ht | ⟨action, w, happroved, hw, ht⟩
  · exact ht.changes
  · exact (Changes.one (.apply happroved hw)).trans ht.changes

theorem handleMessage_changes (chance : Chance) (msg : Message) :
    Post (Changes c s) (s.handleMessage hook chance c msg) := by
  unfold handleMessage
  split
  · exact register_changes hh chance msg
  · exact actionApprove_changes hh msg
  · exact (messageAllClients_smalls hh).mono fun _ => Smalls.changes
  · exact Post.of_ok (.one (.reply s msg))
  · split
    · exact (messageAllClients_smalls hh).mono fun _ => Smalls.changes
    · exact Post.of_fault
  · exact Post.of_ok (.refl c s)

theorem flushGarbage_preserves {I : Server → Prop}
    (hsmall : ∀ s t, I s → Small (some c) s t → I t) (hnote : ∀ s n, I s → I (s.note n))
    (hclear : ∀ s, I s → I { s with garbageIDs := [] }) (hs : I s) : Post I (s.flushGarbage hook) := by
  refine Post.bind (Post.foldlM hs fun t pid _ ht => ?_) fun t ht => Post.of_ok (hclear t ht)
  refine Post.bind (messageAllClients_smalls hh) fun u hu => ?_
  split
  · exact Post.of_ok (hu.preserves hsmall (hnote t _ ht))
  · exact Post.of_fault

end Handlers

theorem flushGarbage_of_nil (hook : Option UInt32 → Server → Outcome Fault Server)
    (h : s.garbageIDs = []) : s.flushGarbage hook = .ok s := by
  unfold flushGarbage
  rw [h]
  exact congrArg Outcome.ok (by rw [← h])

/-- One change of the server in a handler, the loop over `GarbageIDs` included. -/
inductive Handling (c : UInt32) : Server → Server → Prop
  | change {s t : Server} : Change c s t → Handling c s t
  | note (s : Server) (notice : Notice) : Handling c s (s.note notice)
  | clear (s : Server) : Handling c s { s with garbageIDs := [] }

theorem onMessage_handling {n : Nat} {chance : Chance} {c : UInt32} {msg : Message} :
    Post (Relation.ReflTransGen (Handling c) s)
      (s.onMessage (onClientDisconnect n) chance c msg) := by
  have hh : SmallHook (some c) (onClientDisconnect n) := onClientDisconnect_smalls n
  refine Post.bind (flushGarbage_preserves (I := Relation.ReflTransGen (Handling c) s) hh
    (fun u v hu hstep => hu.tail (.change (.small hstep))) (fun u notice hu => hu.tail (.note u _))
    (fun u hu => hu.tail (.clear u)) .refl) fun u hu => ?_
  refine (handleMessage_changes hh chance msg).mono fun v hv => ?_
  exact hv.preserves (fun _ _ hs hstep => hs.tail (.change hstep)) hu

/-- A step preserves what is said of the game world if the small steps and the `switch` of
`OnMessage` do. -/
theorem step_world {J : GameWorld → Prop} {e : Event}
    (hsmall : ∀ (sender : Option UInt32) (s t : Server), J s.gameWorld → Small sender s t →
      J t.gameWorld)
    (hhandle : ∀ n chance c msg, e = .message n chance c msg → ∀ s t : Server, J s.gameWorld →
      s.handleMessage (onClientDisconnect n) chance c msg = .ok t → J t.gameWorld)
    (hs : J s.gameWorld) (h : step s e = some t) : J t.gameWorld := by
  cases step_cases h with
  | accept _ =>
    exact hs
  | validated c _ =>
    exact hs
  | close c _ =>
    exact hs
  | shyCheck n hok =>
    have hh : SmallHook none (onClientDisconnect n) := onClientDisconnect_smalls n
    exact (messageAllClients_smalls hh t hok).preserves (hsmall none) hs
  | message n chance c msg _ hok =>
    obtain ⟨u, hu, hok⟩ := Outcome.bind_eq_ok.mp hok
    have hh : SmallHook (some c) (onClientDisconnect n) := onClientDisconnect_smalls n
    have hflushed : J u.gameWorld := flushGarbage_preserves (I := fun s => J s.gameWorld) hh
      (hsmall (some c)) (fun _ _ h => h) (fun _ h => h) hs u hu
    exact hhandle n chance c msg rfl u t hflushed hok

end Server

end AsciiTerra
