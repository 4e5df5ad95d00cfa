import AsciiTerra.Agreement

/-!
# What an approved action changes

The acting player never strikes itself, so only its own step, its arrows and its turn
counter change its record. The records of all others lose hit points at most.
-/

set_option autoImplicit false

namespace AsciiTerra

/-- The record of the same player, who may have as many turns. -/
structure Player.SameOwner (p p' : Player) : Prop where
  id : p'.id = p.id
  maxTurns : p'.maxTurns = p.maxTurns

/-- The record of the acting player afterwards. -/
structure Player.Acted (action : PlayerAction) (p p' : Player) : Prop where
  hp : p'.hp = p.hp
  coords : p'.coords = if EPlayerActionType.ofCode action.actionType = some .move then
    p.coords + direction action.actionInfo else p.coords
  currentTurns : p'.currentTurns.val + 1 = p.currentTurns.val

namespace Player.SameOwner

theorem refl (p : Player) : p.SameOwner p := ⟨rfl, rfl⟩

theorem trans (p q r : Player) (h : p.SameOwner q) (h' : q.SameOwner r) : p.SameOwner r :=
  ⟨h'.id.trans h.id, h'.maxTurns.trans h.maxTurns⟩

theorem of_hurt {p p' : Player} (h : p.Hurt p') : p.SameOwner p' := by
  rw [h]
  exact ⟨rfl, rfl⟩

end Player.SameOwner

namespace GameWorld

/-- The effect on the world of an action of the player stored under `id`, when `R` relates
that player's records. -/
structure ActedBy (id : UInt32) (R : Player → Player → Prop) (w w' : GameWorld) : Prop where
  enemies : List.Forall₂ Enemy.KeptInPlace w.enemyList w'.enemyList
  players : OrderedMap.Related Player.SameOwner w.playersList w'.playersList
  map : w'.gameWorldMap = w.gameWorldMap
  record : ∀ p, w.playersList.lookup id = some p →
    ∃ p', w'.playersList.lookup id = some p' ∧ R p p'

namespace ActedBy
variable {id : UInt32} {w w' w'' : GameWorld} {R S T : Player → Player → Prop}

theorem refl (id : UInt32) (w : GameWorld) : ActedBy id Eq w w where
  enemies := List.forall₂_same.mpr fun e _ => .refl e
  players := .refl Player.SameOwner.refl _
  map := rfl
  record p hp := ⟨p, hp, rfl⟩

theorem trans (hRS : ∀ p q r, R p q → S q r → T p r) (h : ActedBy id R w w')
    (h' : ActedBy id S w' w'') : ActedBy id T w w'' where
  enemies := List.Forall₂.trans_of Enemy.KeptInPlace.trans h.enemies h'.enemies
  players := h.players.trans Player.SameOwner.trans h'.players
  map := h'.map.trans h.map
  record p hp := by
    obtain ⟨q, hq, hpq⟩ := h.record p hp
    obtain ⟨r, hr, hqr⟩ := h'.record q hq
    exact ⟨r, hr, hRS p q r hpq hqr⟩

theorem imp (hRS : ∀ p p', R p p' → S p p') (h : ActedBy id R w w') : ActedBy id S w w' :=
  ⟨h.enemies, h.players, h.map, fun p hp => (h.record p hp).imp fun p' hp' => ⟨hp'.1, hRS p p' hp'.2⟩⟩

theorem modifyPlayer {f : Player → Player} (hf : ∀ p : Player, p.SameOwner (f p)) :
    ActedBy id (fun p p' => p' = f p) w (w.modifyPlayer id f) where
  enemies := List.forall₂_same.mpr fun e _ => .refl e
  players := .modify Player.SameOwner.refl fun p _ => hf p
  map := rfl
  record p hp := ⟨f p, by simp [hp], rfl⟩

theorem keysAreIDs (h : ActedBy id R w w') (hk : KeysAreIDs w.playersList) :
    KeysAreIDs w'.playersList :=
  h.players.forall_entries (P := fun k p => p.id = k) (fun _ _ _ hp hk => hp.id.trans hk) hk

end ActedBy

theorem attackOf_actedBy {w v : GameWorld} {id : UInt32} {action : PlayerAction}
    (hk : KeysAreIDs w.playersList) (h : w.attackOf id action = .ok v) :
    ActedBy id (fun p p' => p' = { p with inventory := p'.inventory }) w v := by
  unfold attackOf playerMakeAttack at h
  obtain ⟨player, hplayer, h⟩ := except_bind_eq_ok.mp h
  rw [hplayer, except_ok_bind] at h
  obtain ⟨result, hresult, h⟩ := except_bind_eq_ok.mp h
  cases result with
  | none =>
    cases h
    refine (ActedBy.refl id w).imp fun p p' hp => ?_
    rw [hp]
  | some r =>
    cases h
    have hlookup := playerAt_eq_ok.mp hplayer
    have hspent : ActedBy id (fun p p' => p' = { p with inventory := r.2 }) w
        (w.modifyPlayer id fun p => { p with inventory := r.2 }) := .modifyPlayer fun _ => ⟨rfl, rfl⟩
    have hinventory : ActedBy id (fun p p' => p' = { p with inventory := p'.inventory }) w
        (w.modifyPlayer id fun p => { p with inventory := r.2 }) :=
      hspent.imp fun p p' hp => by rw [hp]
    have hids : ∀ a ∈ (w.playerFindAttackTarget player action).playerIDs,
        a ∈ (w.modifyPlayer id fun p => { p with inventory := r.2 }).playersList :=
      fun a ha => OrderedMap.mem_modify.mpr (playerFindAttackTarget_subset hk player action a ha)
    -- the attacker is not among its targets
    have hself : id ∉ (w.playerFindAttackTarget player action).playerIDs := by
      intro hmem
      simp only [playerFindAttackTarget, attackTarget] at hmem
      obtain ⟨p, hp, hadmit⟩ := (mem_playersOn hk).mp hmem
      cases hlookup.symm.trans hp
      simp at hadmit
    refine hinventory.trans (S := Eq) (fun p q r hpq hqr => hqr ▸ hpq)
      ⟨strike_enemies _ _ _, (strike_players hids).imp fun _ _ => .of_hurt, rfl, fun p hp => ?_⟩
    refine ⟨p, ?_, rfl⟩
    rw [strike_lookup hids, List.count_eq_zero_of_not_mem hself, hp]
    rfl

theorem setCurrentTurnActions_sub_one {p q : Player}
    (h : p.setCurrentTurnActions (p.getCurrentTurnActions - 1) = .ok q) :
    q.currentTurns.val + 1 = p.currentTurns.val ∧ q = { p with currentTurns := q.currentTurns } := by
  have hlt := p.currentTurns.isLt
  have hnat := p.getCurrentTurnActions_toNat
  unfold Player.setCurrentTurnActions at h
  split at h
  · rename_i hle
    cases h
    have hle := UInt32.le_iff_toNat_le.mp hle
    refine ⟨?_, rfl⟩
    rw [UInt32.toNat_sub, hnat] at hle
    simp only [UInt32.toNat_one, UInt32.reduceToNat] at hle
    simp only [Fin.ofNat, UInt32.toNat_sub, UInt32.toNat_one, hnat]
    omega
  · exact nomatch h

theorem makeApprovedAction_actedBy {w v : GameWorld} {id : UInt32} {action : PlayerAction}
    (hk : KeysAreIDs w.playersList) (h : w.makeApprovedAction id action = .ok v) :
    ActedBy id (Player.Acted action) w v := by
  unfold makeApprovedAction at h
  obtain ⟨u, hu, h⟩ := except_bind_eq_ok.mp h
  obtain ⟨p, hp, h⟩ := except_bind_eq_ok.mp h
  obtain ⟨q, hq, h⟩ := except_bind_eq_ok.mp h
  cases h
  have hact : ActedBy id (fun p p' => p' = { p with
      coords := if EPlayerActionType.ofCode action.actionType = some .move then
        p.coords + direction action.actionInfo else p.coords
      inventory := p'.inventory }) w u := by
    unfold actOf at hu
    split at hu
    · rename_i hmove
      have hstep : ActedBy id _ w (w.modifyPlayer id fun p =>
          { p with coords := p.coords + direction action.actionInfo }) :=
        .modifyPlayer fun p => ⟨rfl, rfl⟩
      refine hstep.trans (fun p q r hpq hqr => ?_) (attackOf_actedBy (hstep.keysAreIDs hk) hu)
      rw [hqr, hpq, if_pos hmove]
    · rename_i hattack
      refine (attackOf_actedBy hk hu).imp fun p p' hp => ?_
      rw [hattack, if_neg (by decide)]
      exact hp
    · rename_i hne _
      cases hu
      refine (ActedBy.refl id w).imp fun p p' hp => ?_
      rw [if_neg hne, hp]
  obtain ⟨hturns, hrest⟩ := setCurrentTurnActions_sub_one hq
  have hlookup := playerAt_eq_ok.mp hp
  have hlast : ActedBy id (fun p' p'' => p' = p ∧ p'' = q) u (u.modifyPlayer id fun _ => q) := by
    refine ⟨List.forall₂_same.mpr fun e _ => .refl e,
      .modify Player.SameOwner.refl fun p' hp' => ?_, rfl, fun p' hp' => ?_⟩
    · cases hlookup.symm.trans hp'
      rw [hrest]
      exact ⟨rfl, rfl⟩
    · cases hlookup.symm.trans hp'
      exact ⟨q, by simp [hlookup], rfl, rfl⟩
  refine hact.trans (fun p0 p1 p2 h01 h12 => ?_) hlast
  obtain ⟨rfl, rfl⟩ := h12
  rw [h01] at hrest hturns
  rw [hrest]
  exact ⟨rfl, rfl, hturns⟩

end GameWorld

end AsciiTerra
