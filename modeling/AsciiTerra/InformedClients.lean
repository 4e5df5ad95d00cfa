import AsciiTerra.KnownUnits

/-!
# Clients that are told of every unit

What the handlers send keeps every registered client informed about the players and the
enemies. A nested disconnect only shortens the list of enemies and makes players leave, so
what a client has been told of stays enough.
-/

set_option autoImplicit false

namespace AsciiTerra

namespace Server
variable {s t : Server} {R : UInt32 → Prop} {D D' : UInt32 → Units}
variable {order : Arrangement (OrderedMap.Entry UInt32 Player)} {map : Map}

open Outcome (Post)

structure Later (s t : Server) : Prop where
  closed : s.closed ⊆ t.closed
  enemies : t.gameWorld.enemyList.length ≤ s.gameWorld.enemyList.length

theorem Later.refl (s : Server) : Later s s := ⟨List.Subset.refl _, le_rfl⟩

theorem Later.trans {u : Server} (h : Later s t) (h' : Later t u) : Later s u :=
  ⟨List.Subset.trans h.closed h'.closed, h'.enemies.trans h.enemies⟩

theorem removeDeadEnemies_length (dirt : Bool) (w : GameWorld) :
    (removeDeadEnemies dirt w).enemyList.length ≤ w.enemyList.length := by
  unfold removeDeadEnemies
  split
  · exact List.length_filter_le ..
  · exact le_rfl

theorem Small.later {sender : Option UInt32} (h : Small sender s t) : Later s t := by
  refine ⟨h.closed, ?_⟩
  cases h with
  | enemies hst => exact (aiTurn_length hst).le
  | removeDead dirt => exact removeDeadEnemies_length dirt s.gameWorld
  | resetTurn h =>
    obtain ⟨p, -, rfl⟩ := resetTurn_eq_ok.mp h
    exact le_rfl
  | tick | send _ _ _ | eraseNulls | resetAt | choosing | giveTo _ | removePlayer _ => exact le_rfl

theorem Smalls.later {sender : Option UInt32} (h : Smalls sender s t) : Later s t := by
  induction h with
  | refl => exact .refl s
  | tail _ hstep ih => exact ih.trans hstep.later

/-- From its registration on client `e` has the units `D e`; the clients of `R` have asked
for it. -/
structure Informed (order : Arrangement (OrderedMap.Entry UInt32 Player)) (map : Map)
    (R : UInt32 → Prop) (D : UInt32 → Units) (s : Server) : Prop where
  refers : ∀ e, RefersRegistered order map (s.stream e)
  known : ∀ e, Registered (s.stream e) → R e
  told : ∀ e, e ∉ s.closed → R e → Knows order map (Client.Has (D e)) (s.stream e)

/-- Whoever is connected is told of at least `n` enemies. -/
def Enough (D : UInt32 → Units) (n : Nat) (s : Server) : Prop :=
  ∀ e, e ∉ s.closed → n ≤ (D e).enemies

theorem Enough.mono {n m : Nat} (h : Enough D n s) (hclosed : s.closed ⊆ t.closed) (hm : m ≤ n) :
    Enough D m t :=
  fun e he => hm.trans (h e fun hmem => he (hclosed hmem))

theorem Enough.later (h : Enough D s.gameWorld.enemyList.length s) (ht : Later s t) :
    Enough D t.gameWorld.enemyList.length t :=
  h.mono ht.closed ht.enemies

theorem Informed.congr (h : Informed order map R D s) (hsent : t.sent = s.sent)
    (hclosed : s.closed ⊆ t.closed) : Informed order map R D t where
  refers e := by
    rw [stream_congr hsent]
    exact h.refers e
  known e := by
    rw [stream_congr hsent]
    exact h.known e
  told e he := by
    rw [stream_congr hsent]
    exact h.told e fun hmem => he (hclosed hmem)

theorem Informed.mono (h : Informed order map R D s)
    (hD : ∀ e, e ∉ s.closed → R e → ∀ c : Client, c.Has (D e) → c.Has (D' e)) :
    Informed order map R D' s :=
  ⟨h.refers, h.known, fun e he hR => (h.told e he hR).mono (hD e he hR)⟩

/-- What a client that has left was told of does not matter. -/
theorem Informed.of_closed {c : UInt32} (h : Informed order map R D s) (hc : c ∈ s.closed)
    (hne : ∀ e, e ≠ c → D' e = D e) : Informed order map R D' s := by
  apply h.mono
  intro e he _ client hclient
  rw [hne e fun heq => he (heq ▸ hc)]
  exact hclient

theorem Informed.send {c : UInt32} {u : Units} {msg : Message} (h : Informed order map R D s)
    (hopen : c ∉ s.closed) (hteach : R c → Teaches (D c) u msg) (hreg : msg.Registers → R c) :
    Informed order map R (Function.update D c u) (s.send c msg) where
  refers e := by
    by_cases he : e = c
    · subst he
      rw [stream_send_self]
      refine (h.refers e).concat fun hr => ?_
      have hR := h.known e hr
      exact (h.told e hopen hR).mono (hteach hR).refers
    · rw [stream_send_ne he]
      exact h.refers e
  known e hr := by
    by_cases he : e = c
    · subst he
      rw [stream_send_self] at hr
      exact (registered_concat.mp hr).elim (h.known e) hreg
    · rw [stream_send_ne he] at hr
      exact h.known e hr
  told e hopen' hR := by
    by_cases he : e = c
    · subst he
      rw [stream_send_self, Function.update_self]
      exact (h.told e hopen hR).concat ((hteach hR).learns order)
    · rw [stream_send_ne he, Function.update_of_ne he]
      exact h.told e hopen' hR

/-- What is sent to a client whose socket may be closed. -/
theorem Informed.send_plain {c : UInt32} {msg : Message} (h : Informed order map R D s)
    (hplain : msg.Plain) (hreg : ¬ msg.Registers) : Informed order map R D (s.send c msg) where
  refers e := by
    by_cases he : e = c
    · subst he
      rw [stream_send_self]
      exact (h.refers e).concat fun _ client _ => client.refers_of_not hplain.1
    · rw [stream_send_ne he]
      exact h.refers e
  known e hr := by
    by_cases he : e = c
    · subst he
      rw [stream_send_self] at hr
      exact (registered_concat.mp hr).elim (h.known e) fun hr => absurd hr hreg
    · rw [stream_send_ne he] at hr
      exact h.known e hr
  told e hopen hR := by
    by_cases he : e = c
    · subst he
      rw [stream_send_self]
      exact (h.told e hopen hR).concat ((hplain.teaches (D e)).learns order)
    · rw [stream_send_ne he]
      exact h.told e hopen hR

/-- What the callers of the hook rely on here. -/
structure Informs (order : Arrangement (OrderedMap.Entry UInt32 Player)) (map : Map)
    (hook : Option UInt32 → Server → Outcome Fault Server) : Prop where
  smalls : ∀ sender, SmallHook sender hook
  informed : ∀ R D c s, c ∈ s.closed → Informed order map R D s →
    Enough D s.gameWorld.enemyList.length s → Post (Informed order map R D) (hook (some c) s)

section Hook
variable {hook : Option UInt32 → Server → Outcome Fault Server} (hh : Informs order map hook)
include hh

theorem messageClient_later {c : UInt32} {msg : Message} :
    Post (Later s) (messageClient hook (some c) msg s) :=
  (messageClient_smalls (hh.smalls (some c)) (Or.inr rfl)).mono fun _ => Smalls.later

theorem messageClient_informed {c : UInt32} {u : Units} {msg : Message}
    (hs : Informed order map R D s)
    (henough : ∀ e, e ∉ s.closed → e ≠ c → s.gameWorld.enemyList.length ≤ (D e).enemies)
    (hteach : R c → Teaches (D c) u msg) (hreg : msg.Registers → R c) :
    Post (Informed order map R (Function.update D c u)) (messageClient hook (some c) msg s) := by
  have hlater : s.closed ⊆ s.tick.closed := List.subset_append_right _ _
  have htick : Informed order map R D s.tick := hs.congr rfl hlater
  by_cases hup : c ∈ s.tick.closed
  · rw [messageClient_closed hup]
    have henough' : Enough D s.tick.gameWorld.enemyList.length s.tick := by
      intro e he
      exact henough e (fun hmem => he (hlater hmem)) fun heq => he (heq ▸ hup)
    refine Post.bind ((hh.informed R D c s.tick hup htick henough').and
      ((hh.smalls none).closed c s.tick hup)) fun t ⟨ht, hsmalls⟩ => Post.of_ok ?_
    have hclosed : Informed order map R (Function.update D c u) t :=
      ht.of_closed (hsmalls.closed hup) fun e he => Function.update_of_ne he u D
    exact hclosed.congr rfl (List.Subset.refl _)
  · rw [messageClient_open hup]
    exact Post.of_ok (htick.send hup hteach hreg)

theorem messageClient_same {c : UInt32} {msg : Message} (hs : Informed order map R D s)
    (henough : Enough D s.gameWorld.enemyList.length s) (hteach : R c → Teaches (D c) (D c) msg)
    (hreg : ¬ msg.Registers) : Post (Informed order map R D) (messageClient hook (some c) msg s) := by
  refine (messageClient_informed hh hs (fun e he _ => henough e he) hteach
    fun hr => absurd hr hreg).mono fun t ht => ?_
  rwa [Function.update_eq_self] at ht

theorem messageAllClients_later {msg : Message} {ignore : Option UInt32} :
    Post (Later s) (messageAllClients hook msg ignore s) :=
  (messageAllClients_smalls (hh.smalls none)).mono fun _ => Smalls.later

theorem messageEntry_same {msg : Message} {ignore : Option UInt32} {b : Bool} {i : Nat}
    (hs : Informed order map R D s) (henough : Enough D s.gameWorld.enemyList.length s)
    (hteach : ∀ e, e ∉ s.closed → R e → Teaches (D e) (D e) msg) (hreg : ¬ msg.Registers) :
    Post (fun st => Informed order map R D st.1) (messageEntry hook msg ignore (s, b) i) := by
  have hlater : s.closed ⊆ s.tick.closed := List.subset_append_right _ _
  have htick : Informed order map R D s.tick := hs.congr rfl hlater
  refine messageEntry_post (hh.smalls none).null ?_ ?_ ?_
  · intro c hi hup
    refine (hh.informed R D c s.tick hup htick (henough.mono hlater le_rfl)).mono fun t ht _ => ?_
    exact ht.congr rfl (List.Subset.refl _)
  · intro c hi hup _
    have hsent := htick.send hup (hteach c fun hmem => hup (hlater hmem))
      fun hr => absurd hr hreg
    rwa [Function.update_eq_self] at hsent
  · intro c _ _ _
    exact htick

theorem messageAllClients_same {msg : Message} {ignore : Option UInt32}
    (hs : Informed order map R D s) (henough : Enough D s.gameWorld.enemyList.length s)
    (hteach : ∀ e, e ∉ s.closed → R e → Teaches (D e) (D e) msg) (hreg : ¬ msg.Registers) :
    Post (Informed order map R D) (messageAllClients hook msg ignore s) := by
  refine messageAllClients_post
    (I := fun st => Informed order map R D st.1 ∧ Later s st.1) ⟨hs, .refl s⟩ ?_ ?_ ?_
  · rintro st i ⟨hst, hlater⟩
    have hkept : Post (fun st' : Server × Bool => Informed order map R D st'.1)
        (messageEntry hook msg ignore st i) :=
      messageEntry_same hh hst (henough.later hlater)
        (fun e he => hteach e fun hmem => he (hlater.closed hmem)) hreg
    have hsmalls : Post (fun st' : Server × Bool => Smalls none st.1 st'.1)
        (messageEntry hook msg ignore st i) := messageEntry_smalls (hh.smalls none)
    refine (hkept.and hsmalls).mono ?_
    rintro st' ⟨hst', hs'⟩
    exact ⟨hst', hlater.trans hs'.later⟩
  · exact fun st hst => hst.1
  · exact fun st hst => hst.1.congr rfl (List.Subset.refl _)

theorem makeAITurn_informed (hs : Informed order map R D s)
    (henough : Enough D s.gameWorld.enemyList.length s) :
    Post (Informed order map R D) (s.makeAITurn hook) := by
  intro t hok
  obtain ⟨st, hst, hok⟩ := Outcome.bind_eq_ok.mp hok
  obtain ⟨u, hu, hok⟩ := Outcome.bind_eq_ok.mp hok
  cases hok
  have hlength := aiTurn_length hst
  have hstart : Informed order map R D { s with gameWorld := st.world } :=
    hs.congr rfl (List.Subset.refl _)
  have hfirst : Later s { s with gameWorld := st.world } := ⟨List.Subset.refl _, hlength.le⟩
  have hloop := Post.foldlM (I := fun u => Informed order map R D u ∧ Later s u) (l := st.enemyActions)
    (f := fun s action => messageAllClients hook (gameAITurnAction action) none s)
    ⟨hstart, hfirst⟩ fun u action haction hkeeps => by
      obtain ⟨hu, hlater⟩ := hkeeps
      have hkept : Post (Informed order map R D)
          (messageAllClients hook (gameAITurnAction action) none u) := by
        refine messageAllClients_same hh hu (henough.later hlater) (fun e he _ => ?_) ?_
        · apply teaches_action
          refine (aiTurn_enemyID hst action haction).trans_le ?_
          exact henough e fun hmem => he (hlater.closed hmem)
        · simp [gameAITurnAction, Message.Registers]
      refine (hkept.and (messageAllClients_later hh)).mono ?_
      rintro v ⟨hv, hv'⟩
      exact ⟨hv, hlater.trans hv'⟩
  exact (hloop u hu).1.congr rfl (List.Subset.refl _)

theorem startTurn_informed (hs : Informed order map R D s)
    (henough : Enough D s.gameWorld.enemyList.length s) :
    Post (Informed order map R D) (s.startTurn hook) := by
  have hsend : Post (Informed order map R D) (s.sendTurn hook) := by
    unfold sendTurn
    split
    · exact Post.of_fault
    · exact Post.of_ok hs
    · have hplain : (Message.ofID .gamePlayerTurn).Plain :=
        plain_of_kind .gamePlayerTurn (by simp) (by decide)
      exact messageClient_same hh hs henough (fun _ => hplain.teaches _) (by decide)
  refine Post.bind hsend fun t ht u hu => ?_
  obtain ⟨p, -, rfl⟩ := resetTurn_eq_ok.mp hu
  exact ht.congr rfl (List.Subset.refl _)

omit hh in
theorem giveToFirst_informed (hs : Informed order map R D s) :
    Post (Informed order map R D) s.giveToFirst := by
  unfold giveToFirst
  split
  · exact Post.of_fault
  · exact Post.of_ok (hs.congr rfl (List.Subset.refl _))

theorem chooseNextPlayerForTurn_informed (hs : Informed order map R D s)
    (henough : Enough D s.gameWorld.enemyList.length s) (client : Option UInt32) :
    Post (Informed order map R D) (s.chooseNextPlayerForTurn hook client) := by
  have hlog : Informed order map R D (s.log .choosing) := hs.congr rfl (List.Subset.refl _)
  have hpass : Post (Informed order map R D) ((s.log .choosing).passTurn hook client) := by
    unfold passTurn
    cases client with
    | none => exact giveToFirst_informed hlog
    | some c =>
      simp only
      split
      · split
        · exact Post.of_ok (hlog.congr rfl (List.Subset.refl _))
        · exact Post.bind (makeAITurn_informed hh hlog henough) fun t ht => giveToFirst_informed ht
      · exact Post.of_fault
  unfold chooseNextPlayerForTurn
  simp only
  split
  · exact Post.of_ok hlog
  · have hsmalls := passTurn_smalls (hh.smalls none) (s := s.log .choosing) client
    refine Post.bind (hpass.and hsmalls) fun t ⟨ht, ht'⟩ => ?_
    have henough' : Enough D t.gameWorld.enemyList.length t :=
      henough.mono ht'.later.closed ht'.later.enemies
    exact startTurn_informed hh ht henough'

end Hook

theorem onClientDisconnect_informs (order : Arrangement (OrderedMap.Entry UInt32 Player)) (map : Map)
    (n : Nat) : Informs order map (onClientDisconnect n) := by
  induction n with
  | zero => exact ⟨fun sender => onClientDisconnect_smalls 0, fun _ _ _ _ _ _ _ => Post.of_deep⟩
  | succ n ih =>
    refine ⟨fun sender => onClientDisconnect_smalls (n + 1), fun R D c s _ hs henough => ?_⟩
    unfold onClientDisconnect
    split
    · have hturn : Post (Informed order map R D) (if c = s.currentPlayerID then
          s.chooseNextPlayerForTurn (onClientDisconnect n) (some c) else .ok s) := by
        split
        · exact chooseNextPlayerForTurn_informed ih hs henough (some c)
        · exact Post.of_ok hs
      exact Post.bind hturn fun t ht => Post.of_ok (ht.congr rfl (List.Subset.refl _))
    · exact Post.of_ok hs

end Server

end AsciiTerra
