import AsciiTerra.AITurnReplay
import AsciiTerra.Broadcast

/-!
# The broadcast of the enemies' actions

While no connection closes, every client gets all the actions of `MakeAITurn` in order, and
nothing else changes the world. The worlds the server comes to are `Served`.
-/

set_option autoImplicit false

namespace AsciiTerra

theorem aiWhile_length {i : Nat} {id : UInt32} {n : Nat} {st st' : AILoop}
    (h : aiWhile i id n st = .ok st') : st'.world.enemyList.length = st.world.enemyList.length := by
  induction n generalizing st with
  | zero => cases h
  | succ n ih =>
    unfold aiWhile at h
    split at h
    · cases h
      rfl
    · obtain ⟨st₁, h₁, h⟩ := Outcome.bind_eq_ok.mp h
      refine (ih h).trans ?_
      replace h₁ := Outcome.ofExcept_eq_ok.mp h₁
      unfold aiIteration at h₁
      split at h₁
      · cases h₁
      · split at h₁
        · cases h₁
          rfl
        · obtain ⟨w, hw, h₁⟩ := except_bind_eq_ok.mp h₁
          cases h₁
          exact GameWorld.makeEnemyAction_length hw

theorem enemyTurn_length {n i : Nat} {st st' : AITurn} (h : enemyTurn n st i = .ok st') :
    st'.world.enemyList.length = st.world.enemyList.length := by
  unfold enemyTurn at h
  split at h
  · exact nomatch h
  · split at h
    · cases h
      rfl
    · obtain ⟨enemy, _, h⟩ := Outcome.bind_eq_ok.mp h
      simp only at h
      split at h
      · cases h
        exact List.length_modify ..
      · obtain ⟨loop, hloop, h⟩ := Outcome.bind_eq_ok.mp h
        cases h
        exact (aiWhile_length hloop).trans (List.length_modify ..)

theorem aiTurn_length {w : GameWorld} {st : AITurn} (h : aiTurn w = .ok st) :
    st.world.enemyList.length = w.enemyList.length :=
  Outcome.Post.foldlM (I := fun st : AITurn => st.world.enemyList.length = w.enemyList.length) rfl
    (fun _ _ _ hst _ hok => (enemyTurn_length hok).trans hst) st h

theorem aiWhile_enemyID {i : Nat} {id : UInt32} {n : Nat} {st st' : AILoop}
    (h : aiWhile i id n st = .ok st') :
    ∀ action ∈ st'.enemyActions, action ∈ st.enemyActions ∨ action.enemyID = id := by
  induction n generalizing st with
  | zero => cases h
  | succ n ih =>
    unfold aiWhile at h
    split at h
    · cases h
      exact fun action haction => Or.inl haction
    · obtain ⟨st1, hone, h⟩ := Outcome.bind_eq_ok.mp h
      intro action haction
      rcases ih h action haction with hmem | heq
      · have hiter := Outcome.ofExcept_eq_ok.mp hone
        unfold aiIteration at hiter
        split at hiter
        · cases hiter
        · split at hiter
          · cases hiter
            exact Or.inl hmem
          · rename_i a t hdecide
            obtain ⟨w, _, hiter⟩ := except_bind_eq_ok.mp hiter
            cases hiter
            rcases List.mem_append.mp hmem with hmem | hmem
            · exact Or.inl hmem
            · rw [List.mem_singleton.mp hmem]
              exact Or.inr (enemyID_decideAction hdecide)
      · exact Or.inr heq

theorem enemyTurn_enemyID {n k : Nat} {st st' : AITurn} (h : enemyTurn n st k = .ok st')
    (hid : st.activeEnemyID.toNat ≤ k) (hacts : ∀ action ∈ st.enemyActions, action.enemyID.toNat < k) :
    st'.activeEnemyID.toNat ≤ k + 1 ∧ ∀ action ∈ st'.enemyActions, action.enemyID.toNat < k + 1 := by
  have hnext : (st.activeEnemyID + 1).toNat ≤ k + 1 := by
    rw [UInt32.toNat_add, UInt32.toNat_one]
    exact (Nat.mod_le _ _).trans (Nat.succ_le_succ hid)
  have hbefore : ∀ action ∈ st.enemyActions, action.enemyID.toNat < k + 1 := fun action haction =>
    Nat.lt_succ_of_lt (hacts action haction)
  unfold enemyTurn at h
  split at h
  · exact nomatch h
  · split at h
    · cases h
      exact ⟨Nat.le_succ_of_le hid, hbefore⟩
    · obtain ⟨enemy, _, h⟩ := Outcome.bind_eq_ok.mp h
      simp only at h
      split at h
      · cases h
        exact ⟨hnext, hbefore⟩
      · obtain ⟨loop, hloop, h⟩ := Outcome.bind_eq_ok.mp h
        cases h
        refine ⟨hnext, fun action haction => ?_⟩
        rcases aiWhile_enemyID hloop action haction with hmem | heq
        · exact hbefore action hmem
        · rw [heq]
          exact Nat.lt_succ_of_le hid

theorem aiTurn_enemyID {w : GameWorld} {st : AITurn} (h : aiTurn w = .ok st) :
    ∀ action ∈ st.enemyActions, action.enemyID.toNat < w.enemyList.length := by
  have hloop := Outcome.Post.foldlM_range (n := w.enemyList.length) (s := AITurn.start w)
    (f := enemyTurn (aiIterations w))
    (I := fun k st => st.activeEnemyID.toNat ≤ k ∧ ∀ action ∈ st.enemyActions, action.enemyID.toNat < k)
    ⟨le_rfl, fun action haction => nomatch haction⟩
    fun k st _ ⟨hid, hacts⟩ st' hst' => enemyTurn_enemyID hst' hid hacts
  exact (hloop st h).2

theorem GameWorld.attackOf_length {w v : GameWorld} {id : UInt32} {action : PlayerAction}
    (h : w.attackOf id action = .ok v) : v.enemyList.length = w.enemyList.length := by
  obtain ⟨player, _, h⟩ := except_bind_eq_ok.mp h
  obtain ⟨player', _, h⟩ := except_bind_eq_ok.mp h
  obtain ⟨result, _, h⟩ := except_bind_eq_ok.mp h
  cases result with
  | none =>
    cases h
    rfl
  | some r =>
    cases h
    exact strike_length _ _ _

theorem GameWorld.makeApprovedAction_length {w v : GameWorld} {id : UInt32} {action : PlayerAction}
    (h : w.makeApprovedAction id action = .ok v) : v.enemyList.length = w.enemyList.length := by
  obtain ⟨u, hu, h⟩ := except_bind_eq_ok.mp h
  obtain ⟨player, _, h⟩ := except_bind_eq_ok.mp h
  obtain ⟨player', _, h⟩ := except_bind_eq_ok.mp h
  cases h
  suffices hlen : u.enemyList.length = w.enemyList.length from hlen
  unfold GameWorld.actOf at hu
  split at hu
  · have hmoved := attackOf_length hu
    exact hmoved
  · exact attackOf_length hu
  · cases hu
    rfl

namespace Server
variable {s t : Server}

theorem failing_eq_nil {l : List UInt32} (h : ∀ k, ∀ c ∈ l, c ∉ (Server.tick^[k + 1] s).closed) :
    failing l s = [] := by
  induction l generalizing s with
  | nil => rfl
  | cons c l ih =>
    have hc : c ∉ s.tick.closed := h 0 c List.mem_cons_self
    rw [failing, if_neg hc]
    exact ih fun k d hd => h (k + 1) d (List.mem_cons_of_mem c hd)

theorem keeps_world (hook : Option UInt32 → Server → Outcome Fault Server) (w : GameWorld) :
    Tame (fun _ : Unit => hook) [] fun _ u => u.gameWorld = w where
  call _ hc := nomatch hc
  tick _ _ h := h
  send _ _ _ _ h := h
  resetAt _ _ _ h := h
  eraseNulls _ _ h := h

theorem makeAITurn_sends {hook : Option UInt32 → Server → Outcome Fault Server} {st : AITurn}
    (hnull : none ∉ s.deqConnection) (hopen : ∀ k, ∀ c ∈ s.ids, c ∉ (tick^[k + 1] s).closed)
    (hst : aiTurn s.gameWorld = .ok st) :
    ∃ t, s.makeAITurn hook = .ok t ∧
      t.gameWorld = removeDeadEnemies st.enemyListDirt st.world ∧
      t.sent = s.sent ++ st.enemyActions.flatMap fun a => copies (gameAITurnAction a) none s.ids := by
  have hloop : ∀ (actions : List EnemyAction) (u : Server), u.gameWorld = st.world →
      u.deqConnection = s.ids.map some → (∀ k, ∀ c ∈ s.ids, c ∉ (tick^[k + 1] u).closed) →
      ∃ v, actions.foldlM (fun v a => messageAllClients hook (gameAITurnAction a) none v) u = .ok v ∧
        v.gameWorld = st.world ∧
        v.sent = u.sent ++ actions.flatMap fun a => copies (gameAITurnAction a) none s.ids := by
    intro actions
    induction actions with
    | nil => exact fun u hworld _ _ => ⟨u, rfl, hworld, by simp⟩
    | cons a actions ih =>
      intro u hworld hdeq hopen
      have hnil := failing_eq_nil hopen
      have htame : Tame (fun _ : Unit => hook) (failing s.ids u) fun _ u => u.gameWorld = st.world :=
        hnil ▸ keeps_world hook st.world
      obtain ⟨v, hv, hdeqv, hworldv, hswept⟩ :=
        messageAllClients_swept (gameAITurnAction a) none htame hworld hdeq
      rw [answering_of_failing hnil] at hdeqv
      have hlater : ∀ k, ∀ c ∈ s.ids, c ∉ (tick^[k + 1] v).closed := by
        intro k c hc
        rw [(hswept.sockets.iterate (k + 1)).closed, ← Function.iterate_add_apply]
        rw [Nat.add_right_comm]
        exact hopen (k + s.ids.length) c hc
      obtain ⟨t, ht, hworldt, hsent⟩ := ih v hworldv hdeqv hlater
      refine ⟨t, by rw [List.foldlM_cons, hv (), Outcome.ok_bind, ht], hworldt, ?_⟩
      rw [hsent, hswept.sent, answering_of_failing hnil, List.flatMap_cons, List.append_assoc]
  have hstart : ∀ k, ∀ c ∈ s.ids, c ∉ (tick^[k + 1] { s with gameWorld := st.world }).closed := by
    intro k c hc
    have hsame : SameSockets { s with gameWorld := st.world } s := ⟨rfl, rfl, rfl⟩
    rw [(hsame.iterate (k + 1)).closed]
    exact hopen k c hc
  obtain ⟨v, hv, hworld, hsent⟩ := hloop st.enemyActions { s with gameWorld := st.world } rfl
    (listed_ids hnull) hstart
  refine ⟨{ v with gameWorld := removeDeadEnemies st.enemyListDirt v.gameWorld }, ?_, ?_, hsent⟩
  · unfold makeAITurn
    rw [hst, Outcome.ok_bind, hv, Outcome.ok_bind]
  · rw [hworld]

/-- `GenerateEnemies` makes at most 24 enemies, and none is added later. -/
def FewEnemies (s : Server) : Prop := s.gameWorld.enemyList.length < 25

theorem Small.fewEnemies {sender : Option UInt32} (h : s.FewEnemies) (hstep : Small sender s t) :
    t.FewEnemies := by
  cases hstep with
  | enemies hst => exact (Nat.le_of_eq (aiTurn_length hst)).trans_lt h
  | removeDead dirt =>
    refine Nat.lt_of_le_of_lt ?_ h
    unfold AsciiTerra.removeDeadEnemies
    split
    · exact List.length_filter_le _ _
    · exact Nat.le_refl _
  | resetTurn hreset =>
    obtain ⟨p, -, rfl⟩ := Server.resetTurn_eq_ok.mp hreset
    exact h
  | tick | send _ _ _ | eraseNulls | resetAt | choosing | giveTo _ | removePlayer _ => exact h

theorem Changes.fewEnemies {c : UInt32} (h : Changes c s t) (hs : s.FewEnemies) : t.FewEnemies := by
  refine h.preserves (fun _ _ h hstep => ?_) hs
  cases hstep with
  | small hsmall => exact hsmall.fewEnemies h
  | reply | enter _ _ => exact h
  | apply _ hw => exact (Nat.le_of_eq (GameWorld.makeApprovedAction_length hw)).trans_lt h

theorem step_fewEnemies {e : Event} (hs : s.FewEnemies) (h : step s e = some t) : t.FewEnemies := by
  refine step_world (J := fun w => w.enemyList.length < 25) (fun _ _ _ h hstep => hstep.fewEnemies h)
    ?_ hs h
  intro n chance c msg _ u v hu hok
  have hh : SmallHook (some c) (onClientDisconnect n) := onClientDisconnect_smalls n
  exact (handleMessage_changes hh chance msg v hok).fewEnemies hu

theorem start_fewEnemies (mapRand enemyRand : Nat → Nat) (closing : Nat → List UInt32) :
    (start mapRand enemyRand closing).FewEnemies := by
  have hle : (generateEnemies enemyRand).length ≤ enemyRand 0 % 25 := by
    refine (List.length_filterMap_le _ _).trans (Nat.le_of_eq List.length_range)
  exact Nat.lt_of_le_of_lt hle (Nat.mod_lt _ (by decide))

theorem Reachable.served (h : s.Reachable) : s.gameWorld.Served := by
  have hwf := h.idle.wellFormed
  obtain ⟨mapRand, enemyRand, closing, events, hrun⟩ := h
  have hfew : s.FewEnemies := Machine.invariant (fun _ _ _ => step_fewEnemies)
    (start_fewEnemies mapRand enemyRand closing) hrun
  exact ⟨hwf.fromTable, hwf.keysAreIDs, hfew.trans (by decide)⟩

end Server

end AsciiTerra
