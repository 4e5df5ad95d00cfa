import AsciiTerra.AttackSafety
import AsciiTerra.StrikeEffect
import AsciiTerra.TurnHolder

/-!
# Hit points fall

Nothing in the game heals. A player has at most the hit points of its registration and an
enemy those of its table, and both only lose them; enemies leave the list and never come back.
-/

set_option autoImplicit false

namespace AsciiTerra

theorem damagedHP_le (damage : UInt32) {hp : Int32} (h : 0 ≤ hp) :
    0 ≤ damagedHP damage hp ∧ damagedHP damage hp ≤ hp := by
  have hint := damagedHP_toInt damage h
  have hpos : 0 ≤ hp.toInt := Int32.le_iff_toInt_le.mp h
  rw [Int32.le_iff_toInt_le, Int32.le_iff_toInt_le, hint]
  exact ⟨le_max_left _ _, max_le hpos (by omega)⟩

/-- An enemy later on: of the same type, and with no more hit points. -/
structure Enemy.Weaker (later e : Enemy) : Prop where
  type : later.type = e.type
  health : 0 ≤ e.hp → 0 ≤ later.hp ∧ later.hp ≤ e.hp

namespace Enemy.Weaker

theorem refl (e : Enemy) : e.Weaker e := ⟨rfl, fun h => ⟨h, Int32.le_refl _⟩⟩

theorem trans (a b c : Enemy) (h : a.Weaker b) (h' : b.Weaker c) : a.Weaker c := by
  refine ⟨h.type.trans h'.type, fun hc => ?_⟩
  obtain ⟨hb, hbc⟩ := h'.health hc
  obtain ⟨ha, hab⟩ := h.health hb
  exact ⟨ha, Int32.le_trans hab hbc⟩

theorem takeDamage (damage : UInt32) (e : Enemy) : (e.takeDamage damage).Weaker e :=
  ⟨rfl, damagedHP_le damage⟩

end Enemy.Weaker

/-- Enemies of a list that are left of another one, none of them healed. -/
def LeftOf : List Enemy → List Enemy → Prop := List.SublistForall₂ Enemy.Weaker

namespace LeftOf
variable {l m n : List Enemy}

theorem refl (l : List Enemy) : LeftOf l l :=
  List.sublistForall₂_iff.mpr ⟨l, List.forall₂_same.mpr fun e _ => .refl e, .refl l⟩

theorem trans (h : LeftOf l m) (h' : LeftOf m n) : LeftOf l n := by
  have : IsTrans Enemy Enemy.Weaker := ⟨Enemy.Weaker.trans⟩
  exact List.SublistForall₂.is_trans.trans l m n h h'

theorem sublist (h : l.Sublist m) : LeftOf l m :=
  List.sublistForall₂_iff.mpr ⟨l, List.forall₂_same.mpr fun e _ => .refl e, h⟩

theorem modify {i : Nat} {f : Enemy → Enemy} (hf : ∀ e, l[i]? = some e → (f e).Weaker e) :
    LeftOf (l.modify i f) l := by
  have hall : List.Forall₂ (fun e later : Enemy => later.Weaker e) l (l.modify i f) :=
    List.forall₂_modify (fun e => .refl e) hf
  exact List.sublistForall₂_iff.mpr ⟨l, hall.flip, .refl l⟩

theorem exists_mem (h : LeftOf l m) {e : Enemy} (he : e ∈ l) : ∃ d ∈ m, e.Weaker d := by
  obtain ⟨k, hk, hsub⟩ := List.sublistForall₂_iff.mp h
  obtain ⟨i, hi⟩ := List.getElem?_of_mem he
  obtain ⟨d, hd, hweaker⟩ := hk.getElem?_eq_some hi
  exact ⟨d, hsub.subset (List.mem_of_getElem? hd), hweaker⟩

end LeftOf

/-- Player `a` has at most `m` hit points, if it is there. -/
def Healthy (a : UInt32) (m : Int32) (players : PlayersList) : Prop :=
  ∀ p, players.lookup a = some p → 0 ≤ p.hp ∧ p.hp ≤ m

theorem Healthy.related {R : Player → Player → Prop} {a : UInt32} {m : Int32} {ps ps' : PlayersList}
    (h : Healthy a m ps) (hr : OrderedMap.Related R ps ps')
    (hR : ∀ p p', R p p' → 0 ≤ p.hp → 0 ≤ p'.hp ∧ p'.hp ≤ p.hp) : Healthy a m ps' := by
  intro p' hp'
  have hmem : a ∈ ps := hr.mem_iff.mp (OrderedMap.mem_iff_lookup.mpr ⟨p', hp'⟩)
  obtain ⟨p, hp⟩ := OrderedMap.mem_iff_lookup.mp hmem
  obtain ⟨q, hq, hpq⟩ := hr.lookup hp
  cases hq.symm.trans hp'
  obtain ⟨h0, hm⟩ := h p hp
  obtain ⟨h0', hle⟩ := hR p p' hpq h0
  exact ⟨h0', Int32.le_trans hle hm⟩

theorem Healthy.modify {a k : UInt32} {m : Int32} {f : Player → Player} {ps : PlayersList}
    (h : Healthy a m ps) (hf : ∀ p, ps.lookup k = some p → (f p).hp = p.hp) :
    Healthy a m (OrderedMap.modify k f ps) := by
  intro p' hp'
  rw [OrderedMap.lookup_modify] at hp'
  split at hp'
  · rename_i hk
    obtain ⟨p, hp, rfl⟩ := Option.map_eq_some_iff.mp hp'
    rw [hf p (hk ▸ hp)]
    exact h p hp
  · exact h p' hp'

/-- A world that came from one with the enemies `l`, where player `a` had `m` hit points. -/
structure Fading (a : UInt32) (m : Int32) (l : List Enemy) (w : GameWorld) : Prop where
  supplied : w.Supplied
  health : Healthy a m w.playersList
  enemies : LeftOf w.enemyList l

namespace GameWorld
variable {w v : GameWorld} {a : UInt32} {m : Int32} {l : List Enemy}

/-- What attacks and moves do to hit points. -/
structure Drained (a : UInt32) (m : Int32) (w v : GameWorld) : Prop where
  health : Healthy a m w.playersList → Healthy a m v.playersList
  enemies : LeftOf v.enemyList w.enemyList

theorem Drained.refl (w : GameWorld) : Drained a m w w := ⟨id, .refl _⟩

theorem Drained.trans {u : GameWorld} (h : Drained a m w v) (h' : Drained a m v u) : Drained a m w u :=
  ⟨fun hw => h'.health (h.health hw), h'.enemies.trans h.enemies⟩

theorem drained_modifyPlayer (id : UInt32) {f : Player → Player} (hf : ∀ p, (f p).hp = p.hp) :
    Drained a m w (w.modifyPlayer id f) :=
  ⟨fun hw => hw.modify fun p _ => hf p, .refl _⟩

theorem drained_modifyEnemy {i : Nat} {f : Enemy → Enemy}
    (hf : ∀ e, w.enemyList[i]? = some e → (f e).hp = e.hp ∧ (f e).type = e.type) :
    Drained a m w (w.modifyEnemy i f) := by
  refine ⟨id, .modify fun e he => ?_⟩
  obtain ⟨hhp, htype⟩ := hf e he
  exact ⟨htype, fun h0 => by rw [hhp]; exact ⟨h0, Int32.le_refl _⟩⟩

theorem drained_strike {damage : UInt32} {target : AttackTarget}
    (h : ∀ id ∈ target.playerIDs, id ∈ w.playersList) : Drained a m w (w.strike damage target) := by
  refine ⟨fun hw p hp => ?_, ?_⟩
  · rw [strike_lookup h] at hp
    obtain ⟨q, hq, rfl⟩ := Option.map_eq_some_iff.mp hp
    obtain ⟨h0, hm⟩ := hw q hq
    have hfall : ∀ n, 0 ≤ ((Player.takeDamage damage)^[n] q).hp ∧
        ((Player.takeDamage damage)^[n] q).hp ≤ m := by
      intro n
      induction n with
      | zero => exact ⟨h0, hm⟩
      | succ n ih =>
        rw [Function.iterate_succ_apply']
        obtain ⟨hpos, hle⟩ := damagedHP_le damage ih.1
        exact ⟨hpos, Int32.le_trans hle ih.2⟩
    exact hfall _
  · have go : ∀ (is : List Nat) (es : List Enemy),
        LeftOf (is.foldl (fun es i => es.modify i (Enemy.takeDamage damage)) es) es := by
      intro is
      induction is with
      | nil => exact fun es => .refl es
      | cons i is ih =>
        exact fun es => (ih _).trans (.modify fun e _ => .takeDamage damage e)
    exact go target.enemyIDs w.enemyList

theorem makeEnemyAction_drained {i : Nat} {action : EnemyAction} (hk : KeysAreIDs w.playersList)
    (hw : w.makeEnemyAction i action = .ok v) : Drained a m w v := by
  unfold makeEnemyAction at hw
  split at hw
  · exact nomatch hw
  · rename_i enemy henemy
    split at hw
    · cases hw
      exact drained_modifyEnemy fun _ _ => ⟨rfl, rfl⟩
    · simp only [enemyMakeAttack, henemy] at hw
      obtain ⟨r, hr, hw⟩ := except_bind_eq_ok.mp hw
      cases r with
      | none =>
        cases hw
        exact .refl w
      | some r =>
        cases hw
        have hspent : Drained a m w (w.modifyEnemy i fun e => { e with inventory := r.2 }) :=
          drained_modifyEnemy fun _ _ => ⟨rfl, rfl⟩
        exact hspent.trans (drained_strike (enemyFindAttackTarget_subset hk enemy action))
    · cases hw
      exact .refl w

theorem attackOf_drained {id : UInt32} {action : PlayerAction} (hk : KeysAreIDs w.playersList)
    (hw : w.attackOf id action = .ok v) : Drained a m w v := by
  obtain ⟨p, -, hw⟩ := except_bind_eq_ok.mp hw
  obtain ⟨q, -, hw⟩ := except_bind_eq_ok.mp hw
  obtain ⟨r, -, hw⟩ := except_bind_eq_ok.mp hw
  cases r with
  | none =>
    cases hw
    exact .refl w
  | some r =>
    cases hw
    have hspent : Drained a m w (w.modifyPlayer id fun p => { p with inventory := r.2 }) :=
      drained_modifyPlayer id fun _ => rfl
    refine hspent.trans (drained_strike fun b hb => ?_)
    exact OrderedMap.mem_modify.mpr (playerFindAttackTarget_subset hk p action b hb)

theorem makeApprovedAction_drained {id : UInt32} {action : PlayerAction}
    (hk : KeysAreIDs w.playersList) (hw : w.makeApprovedAction id action = .ok v) :
    Drained a m w v := by
  obtain ⟨u, hu, hw⟩ := except_bind_eq_ok.mp hw
  obtain ⟨p, hp, hw⟩ := except_bind_eq_ok.mp hw
  obtain ⟨q, hq, hw⟩ := except_bind_eq_ok.mp hw
  cases hw
  have hacted : Drained a m w u := by
    unfold actOf at hu
    split at hu
    · have hmoved : Drained a m w (w.modifyPlayer id fun p =>
          { p with coords := p.coords + direction action.actionInfo }) :=
        drained_modifyPlayer id fun _ => rfl
      have hstep : ActedBy id (fun p p' => p' =
          { p with coords := p.coords + direction action.actionInfo }) w (w.modifyPlayer id fun p =>
          { p with coords := p.coords + direction action.actionInfo }) :=
        .modifyPlayer fun _ => ⟨rfl, rfl⟩
      exact hmoved.trans (attackOf_drained (hstep.keysAreIDs hk) hu)
    · exact attackOf_drained hk hu
    · cases hu
      exact .refl w
  refine hacted.trans ⟨fun hu => hu.modify fun p' hp' => ?_, .refl _⟩
  cases (playerAt_eq_ok.mp hp).symm.trans hp'
  rw [(setCurrentTurnActions_sub_one hq).2]

end GameWorld

section Turn
variable {J : GameWorld → Prop}
variable (hJ : ∀ w v i action, KeysAreIDs w.playersList → J w → w.makeEnemyAction i action = .ok v → J v)
include hJ

theorem aiIteration_keeps {i : Nat} {id : UInt32} {st st' : AILoop}
    (hk : KeysAreIDs st.world.playersList) (hs : J st.world) (hst : aiIteration i id st = .ok st') :
    J st'.world := by
  unfold aiIteration at hst
  split at hst
  · exact nomatch hst
  · split at hst
    · cases hst
      exact hs
    · obtain ⟨w, hw, hst⟩ := except_bind_eq_ok.mp hst
      cases hst
      exact hJ _ _ _ _ hk hs hw

theorem aiWhile_keeps {i : Nat} {id : UInt32} {n : Nat} {st st' : AILoop}
    (h : st.world.Supplied) (hs : J st.world) (hst : aiWhile i id n st = .ok st') : J st'.world := by
  induction n generalizing st with
  | zero => exact nomatch hst
  | succ n ih =>
    unfold aiWhile at hst
    split at hst
    · cases hst
      exact hs
    · obtain ⟨st1, h1, hst⟩ := Outcome.bind_eq_ok.mp hst
      have h1 := Outcome.ofExcept_eq_ok.mp h1
      exact ih (aiIteration_supplied h h1) (aiIteration_keeps hJ h.keysAreIDs hs h1) hst

theorem enemyTurn_keeps {n i : Nat} {st st' : AITurn} (h : st.world.Supplied) (hs : J st.world)
    (hst : enemyTurn n st i = .ok st') : J st'.world := by
  cases he : st.world.enemyList[i]? with
  | none =>
    simp only [enemyTurn, he] at hst
    cases hst
  | some enemy =>
    rcases enemyTurn_cases he (h.allArmed enemy (List.mem_of_getElem? he)) with
      ⟨-, ht⟩ | ⟨-, -, ht⟩ | ⟨-, -, ht⟩
    · cases (ht n).symm.trans hst
      exact hs
    · cases (ht n).symm.trans hst
      exact hs
    · rw [ht n] at hst
      obtain ⟨loop, hloop, hst⟩ := Outcome.bind_eq_ok.mp hst
      cases hst
      exact aiWhile_keeps hJ h hs hloop

/-- The rule for the turn of the enemies: what every action of them keeps. -/
theorem enemyTurns_keeps {n k : Nat} {w : GameWorld} {st : AITurn} (h : w.Supplied) (hs : J w)
    (hst : enemyTurns n w k = .ok st) : J st.world := by
  induction k generalizing st with
  | zero =>
    cases hst
    exact hs
  | succ k ih =>
    rw [enemyTurns_succ] at hst
    obtain ⟨st1, h1, hst⟩ := Outcome.bind_eq_ok.mp hst
    exact enemyTurn_keeps hJ (enemyTurns_supplied h h1) (ih h1) hst

end Turn

namespace Server
variable {s t : Server} {a : UInt32} {m : Int32} {l : List Enemy}

open Outcome (Post)

theorem Small.fading {sender : Option UInt32} (hs : Fading a m l s.gameWorld)
    (h : Small sender s t) : Fading a m l t.gameWorld := by
  refine ⟨h.supplied hs.supplied, ?_, ?_⟩
  · cases h with
    | tick | send _ _ _ | eraseNulls | resetAt | choosing | giveTo _ => exact hs.health
    | enemies hst =>
      refine enemyTurns_keeps (J := fun w => Healthy a m w.playersList) ?_ hs.supplied hs.health hst
      exact fun w v i action hk hw hv =>
        (GameWorld.makeEnemyAction_drained hk hv).health hw
    | removeDead dirt =>
      unfold removeDeadEnemies
      split
      · exact hs.health
      · exact hs.health
    | resetTurn h =>
      obtain ⟨player, hplayer, rfl⟩ := resetTurn_eq_ok.mp h
      refine hs.health.modify fun p hp => ?_
      cases hplayer.symm.trans hp
      rfl
    | @removePlayer c _ =>
      intro p hp
      by_cases hc : a = c
      · subst hc
        exact absurd (hp.symm.trans (AList.lookup_erase a _)) (Option.some_ne_none p)
      · exact hs.health p ((AList.lookup_erase_ne hc).symm.trans hp)
  · cases h with
    | tick | send _ _ _ | eraseNulls | resetAt | choosing | giveTo _ => exact hs.enemies
    | enemies hst =>
      refine enemyTurns_keeps (J := fun w => LeftOf w.enemyList l) ?_ hs.supplied hs.enemies hst
      exact fun w v i action hk hw hv =>
        (GameWorld.makeEnemyAction_drained (a := a) (m := m) hk hv).enemies.trans hw
    | removeDead dirt =>
      unfold removeDeadEnemies
      split
      · exact (LeftOf.sublist List.filter_sublist).trans hs.enemies
      · exact hs.enemies
    | resetTurn h =>
      obtain ⟨player, hplayer, rfl⟩ := resetTurn_eq_ok.mp h
      exact hs.enemies
    | removePlayer _ => exact hs.enemies

theorem Smalls.fading {sender : Option UInt32} (hs : Fading a m l s.gameWorld)
    (h : Smalls sender s t) : Fading a m l t.gameWorld :=
  h.preserves (I := fun s => Fading a m l s.gameWorld) (fun _ _ hs hstep => hstep.fading hs) hs

/-- The event does not register player `a`. -/
def NotRegistering (a : UInt32) : Event → Prop
  | .message _ _ c msg => ECustomMetaMSG.ofCode msg.header.id = some .clientRegisterOnServer → c ≠ a
  | _ => True

theorem handleMessage_fading {n : Nat} {chance : Chance} {c : UInt32} {msg : Message}
    (hreg : ECustomMetaMSG.ofCode msg.header.id = some .clientRegisterOnServer → c ≠ a ∨ 45 ≤ m)
    (hs : Fading a m l s.gameWorld) :
    Post (fun t => Fading a m l t.gameWorld)
      (s.handleMessage (onClientDisconnect n) chance c msg) := by
  have hh : SmallHook (some c) (onClientDisconnect n) := onClientDisconnect_smalls n
  have hall : ∀ m' ignore, Post (fun t : Server => Fading a m l t.gameWorld)
      (messageAllClients (onClientDisconnect n) m' ignore s) := fun m' ignore =>
    (messageAllClients_smalls hh).mono fun _ ht => ht.fading hs
  unfold handleMessage
  split
  · rename_i hid
    intro t hok
    obtain ⟨⟨info, rest⟩, -, hok⟩ := Outcome.bind_eq_ok.mp hok
    obtain ⟨p, hp, hok⟩ := Outcome.bind_eq_ok.mp hok
    have hnew := clientOnRegister_spec (Outcome.ofExcept_eq_ok.mp hp)
    have hentered : Fading a m l (s.setPlayersList
        (OrderedMap.insertOrAssign chance.order p.id p s.gameWorld.playersList)).gameWorld := by
      refine ⟨⟨hs.supplied.keysAreIDs.insertOrAssign rfl, hs.supplied.fromTable,
        hs.supplied.stocked⟩, fun q hq => ?_, hs.enemies⟩
      change AList.lookup a (OrderedMap.insertOrAssign _ _ _ _) = _ at hq
      rw [OrderedMap.lookup_insertOrAssign] at hq
      split at hq
      · rename_i ha
        cases hq
        rw [hnew.hp]
        refine ⟨by decide, (hreg hid).resolve_left fun hc => hc ?_⟩
        rw [ha, hnew.id]
      · exact hs.health q hq
    obtain ⟨u, hu, hok⟩ := Outcome.bind_eq_ok.mp hok
    have hu := (announce_smalls hh p u hu).fading hentered
    split at hok
    · exact (chooseNextPlayerForTurn_smalls hh none t hok).fading hu
    · cases hok
      exact hu
  · refine (actionApprove_smalls hh msg).mono fun t ht => ?_
    rcases ht with ht | ⟨action, w, -, hw, ht⟩
    · exact ht.fading hs
    · have hdrained := GameWorld.makeApprovedAction_drained (a := a) (m := m) hs.supplied.keysAreIDs hw
      exact ht.fading ⟨GameWorld.makeApprovedAction_supplied hs.supplied hw,
        hdrained.health hs.health, hdrained.enemies.trans hs.enemies⟩
  · exact hall _ _
  · exact Post.of_ok hs
  · split
    · exact hall _ _
    · exact Post.of_fault
  · exact Post.of_ok hs

theorem step_fading {e : Event} (hreg : NotRegistering a e ∨ 45 ≤ m) (hs : Fading a m l s.gameWorld)
    (h : step s e = some t) : Fading a m l t.gameWorld := by
  refine step_world (J := Fading a m l) (fun _ _ _ hs hsmall => hsmall.fading hs) ?_ hs h
  rintro n chance c msg rfl u v hu hv
  exact handleMessage_fading (fun hid => hreg.imp_left fun hnot => hnot hid) hu v hv

theorem Reachable.hitPoints (hs : s.Reachable) :
    (∀ id p, s.gameWorld.playersList.lookup id = some p → 0 ≤ p.hp ∧ p.hp ≤ 45) ∧
    ∀ e ∈ s.gameWorld.enemyList, ∃ d ∈ enemiesTable, e.type = d.type ∧ 0 ≤ e.hp ∧ e.hp ≤ d.hp := by
  obtain ⟨mapRand, enemyRand, closing, events, hrun⟩ := hs
  have hfading : ∀ a, Fading a 45 (generateEnemies enemyRand) s.gameWorld := fun a =>
    Machine.invariant (I := fun s : Server => Fading a 45 (generateEnemies enemyRand) s.gameWorld)
      (fun s e t hs h => step_fading (.inr (by decide)) hs h)
      ⟨start_supplied mapRand enemyRand closing, fun _ hp => (nomatch hp), .refl _⟩ hrun
  refine ⟨fun id p hp => (hfading id).health p hp, fun e he => ?_⟩
  obtain ⟨g, hg, hweaker⟩ := (hfading 0).enemies.exists_mem he
  obtain ⟨i, -, hi⟩ := List.mem_filterMap.mp hg
  obtain ⟨d, hd, rfl⟩ := Option.map_eq_some_iff.mp hi
  have hmem := List.mem_of_getElem? hd
  have hpos : ∀ d ∈ enemiesTable, 0 ≤ d.hp := by decide
  exact ⟨d, hmem, hweaker.type, hweaker.health (hpos d hmem)⟩

/-- In every run, a player has at most the 45 hit points of a registration, and an enemy at most
those of its kind in `EnemiesTable`; nobody has less than none. -/
theorem health_in_range (hs : s.Reachable) :
    (∀ id p, s.gameWorld.playersList.lookup id = some p → 0 ≤ p.hp ∧ p.hp ≤ 45) ∧
    ∀ e ∈ s.gameWorld.enemyList, ∃ d ∈ enemiesTable, e.type = d.type ∧ 0 ≤ e.hp ∧ e.hp ≤ d.hp :=
  hs.hitPoints

theorem health_in_range_struck : ∃ s : Server, s.Reachable ∧ s.gameWorld.enemyList.length = 5 ∧
    (s.gameWorld.playersList.lookup 10001).map Player.hp = some 0 ∧
    (∀ id p, s.gameWorld.playersList.lookup id = some p → 0 ≤ p.hp ∧ p.hp ≤ 45) ∧
    ∀ e ∈ s.gameWorld.enemyList, ∃ d ∈ enemiesTable, e.type = d.type ∧ 0 ≤ e.hp ∧ e.hp ≤ d.hp := by
  have hrun : ((Machine.run step (start (fun _ => 0) (zombies 5) fun _ => []) oneAmongZombies).map
      fun s => (s.gameWorld.enemyList.length,
        (s.gameWorld.playersList.lookup 10001).map Player.hp)) = some (5, some 0) := by
    decide +kernel
  obtain ⟨s, hs, h⟩ := Option.map_eq_some_iff.mp hrun
  obtain ⟨hlength, hdead⟩ := Prod.mk.inj h
  have hreachable : s.Reachable := ⟨_, _, _, _, hs⟩
  exact ⟨s, hreachable, hlength, hdead, health_in_range hreachable⟩

theorem Reachable.supplied (hs : s.Reachable) : s.gameWorld.Supplied := by
  obtain ⟨mapRand, enemyRand, closing, events, hrun⟩ := hs
  exact (Machine.invariant (I := fun s : Server => Fading 0 45 (generateEnemies enemyRand) s.gameWorld)
    (fun s e t hs h => step_fading (.inr (by decide)) hs h)
    ⟨start_supplied mapRand enemyRand closing, fun _ hp => (nomatch hp), .refl _⟩ hrun).supplied

theorem run_fading {events : List Event} (hs : Fading a m l s.gameWorld)
    (hreg : ∀ e ∈ events, NotRegistering a e) (hrun : Machine.run step s events = some t) :
    Fading a m l t.gameWorld := by
  induction events generalizing s with
  | nil =>
    cases hrun
    exact hs
  | cons e events ih =>
    obtain ⟨u, hu, hrun⟩ := Machine.run_cons_eq_some.mp hrun
    exact ih (step_fading (.inl (hreg e List.mem_cons_self)) hs hu)
      (fun e' he' => hreg e' (List.mem_cons_of_mem e he')) hrun

/-- In a run in which player `a` does not register again its hit points only fall, so that it
stays dead once it is, and the enemies at the end are those at the start but for some that are
gone, of the same kinds and in the same order, each with at most the hit points it had. -/
theorem health_never_rises {events : List Event} (hs : s.Reachable)
    (hrun : Machine.run step s events = some t) (hreg : ∀ e ∈ events, NotRegistering a e) :
    (∀ p', t.gameWorld.playersList.lookup a = some p' →
      ∃ p, s.gameWorld.playersList.lookup a = some p ∧ 0 ≤ p'.hp ∧ p'.hp ≤ p.hp) ∧
    List.SublistForall₂ Enemy.Weaker t.gameWorld.enemyList s.gameWorld.enemyList := by
  have hfades : ∀ m, Healthy a m s.gameWorld.playersList →
      Fading a m s.gameWorld.enemyList t.gameWorld := fun m hm =>
    run_fading ⟨hs.supplied, hm, .refl _⟩ hreg hrun
  cases hp : s.gameWorld.playersList.lookup a with
  | none =>
    have habsent : ∀ m, Healthy a m s.gameWorld.playersList := fun m p hp' =>
      absurd (hp.symm.trans hp') (Option.some_ne_none p).symm
    refine ⟨fun p' hp' => ?_, (hfades 0 (habsent 0)).enemies⟩
    obtain ⟨h0, hneg⟩ := (hfades (-1) (habsent (-1))).health p' hp'
    exact absurd (Int32.le_trans h0 hneg) (by decide)
  | some p =>
    have hmost : Healthy a p.hp s.gameWorld.playersList := fun q hq => by
      cases hp.symm.trans hq
      exact ⟨(hs.hitPoints.1 a p hp).1, Int32.le_refl _⟩
    exact ⟨fun p' hp' => ⟨p, rfl, (hfades p.hp hmost).health p' hp'⟩, (hfades p.hp hmost).enemies⟩

/-- The zombies strike the second player while the first one uses up its turn. -/
theorem health_never_rises_struck : ∃ s t : Server, s.Reachable ∧
    (s.gameWorld.playersList.lookup 10001).map Player.hp = some 45 ∧
    (t.gameWorld.playersList.lookup 10001).map Player.hp = some 0 ∧
    (∀ p', t.gameWorld.playersList.lookup 10001 = some p' →
      ∃ p, s.gameWorld.playersList.lookup 10001 = some p ∧ 0 ≤ p'.hp ∧ p'.hp ≤ p.hp) ∧
    List.SublistForall₂ Enemy.Weaker t.gameWorld.enemyList s.gameWorld.enemyList := by
  have hrun : ((Machine.run step (start (fun _ => 0) (zombies 5) fun _ => []) (oneAmongZombies.take 4)).map
      fun s => ((s.gameWorld.playersList.lookup 10001).map Player.hp,
        (Machine.run step s (oneAmongZombies.drop 4)).map fun t =>
          (t.gameWorld.playersList.lookup 10001).map Player.hp)) =
      some (some 45, some (some 0)) := by decide +kernel
  obtain ⟨s, hs, h⟩ := Option.map_eq_some_iff.mp hrun
  obtain ⟨hfull, h⟩ := Prod.mk.inj h
  obtain ⟨t, ht, hdead⟩ := Option.map_eq_some_iff.mp h
  have hreachable : s.Reachable := ⟨_, _, _, _, hs⟩
  have hreg : ∀ e ∈ oneAmongZombies.drop 4, NotRegistering 10001 e := by
    intro e he
    have he : e = .message 0 (.always 0) 10000 (actionRequest (moveDown 10000)) :=
      List.eq_of_mem_replicate he
    rw [he]
    exact fun _ => by decide
  exact ⟨s, t, hreachable, hfull, hdead, health_never_rises hreachable ht hreg⟩

end Server

end AsciiTerra
