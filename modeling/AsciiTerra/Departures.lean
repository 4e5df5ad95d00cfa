import AsciiTerra.SmallSteps

/-!
# Players that have left

A player leaves when its connection is found closed; its ID then waits in `GarbageIDs`. A client
that registers although its connection is closed leaves with the first message to it, so nobody
in `GarbageIDs` plays.
-/

set_option autoImplicit false

namespace AsciiTerra

namespace Server
variable {s t : Server} {R E : UInt32 → Prop}

open Outcome (Post)

/-- The clients of `R` have registered: whoever of them is connected plays. Whoever waits in
`GarbageIDs` does not, but for the clients of `E`. -/
structure Departed (R E : UInt32 → Prop) (s : Server) : Prop where
  keysAreIDs : KeysAreIDs s.gameWorld.playersList
  fromTable : ∀ e ∈ s.gameWorld.enemyList, e.FromTable
  garbage : ∀ id ∈ s.garbageIDs, id ∈ s.closed ∧ (¬ E id → id ∉ s.gameWorld.playersList)
  present : ∀ id, R id → id ∉ s.closed → id ∈ s.gameWorld.playersList

theorem Departed.congr (h : Departed R E s) (hworld : t.gameWorld = s.gameWorld)
    (hgarbage : ∀ id ∈ t.garbageIDs, id ∈ s.garbageIDs) (hclosed : s.closed ⊆ t.closed) :
    Departed R E t where
  keysAreIDs := hworld ▸ h.keysAreIDs
  fromTable := hworld ▸ h.fromTable
  garbage id hid := by
    rw [hworld]
    exact (h.garbage id (hgarbage id hid)).imp_left fun hmem => hclosed hmem
  present id hR hopen := hworld ▸ h.present id hR fun hmem => hopen (hclosed hmem)

theorem Departed.world (h : Departed R E s) {w : GameWorld} {t : Server} (hw : t.gameWorld = w)
    (hplayers : OrderedMap.Related Player.SameOwner s.gameWorld.playersList w.playersList)
    (henemies : ∀ e ∈ w.enemyList, e.FromTable) (hgarbage : t.garbageIDs = s.garbageIDs)
    (hclosed : t.closed = s.closed) : Departed R E t := by
  subst hw
  refine ⟨hplayers.forall_entries (P := fun k p => p.id = k) (fun k p p' hp hk => hp.id.trans hk)
    h.keysAreIDs, henemies, fun id hid => ?_,
    fun id hR hopen => hplayers.mem_iff.mpr (h.present id hR (hclosed ▸ hopen))⟩
  obtain ⟨hgone, hleft⟩ := h.garbage id (hgarbage ▸ hid)
  exact ⟨hclosed ▸ hgone, fun hE hmem => hleft hE (hplayers.mem_iff.mp hmem)⟩

theorem Small.departed {sender : Option UInt32} (hs : Departed R E s) (h : Small sender s t) :
    Departed R E t := by
  have hself := List.Subset.refl s.closed
  cases h with
  | tick => exact hs.congr rfl (fun _ hid => hid) (List.subset_append_right _ _)
  | send _ _ _ => exact hs.congr rfl (fun _ hid => hid) hself
  | eraseNulls => exact hs.congr rfl (fun _ hid => hid) hself
  | resetAt => exact hs.congr rfl (fun _ hid => hid) hself
  | choosing => exact hs.congr rfl (fun _ hid => hid) hself
  | giveTo _ => exact hs.congr rfl (fun _ hid => hid) hself
  | @enemies st hst =>
    have harmed : s.gameWorld.AllArmed := fun e he => (hs.fromTable e he).armed
    have hrelated := aiTurn_aiRelated harmed hst
    refine hs.world rfl ((hrelated.players hs.keysAreIDs).imp fun _ _ hp => .of_hurt hp) ?_ rfl rfl
    exact hrelated.forall_enemies (fun _ _ => Enemy.Turned.fromTable) hs.fromTable
  | removeDead dirt =>
    unfold removeDeadEnemies
    split
    · exact ⟨hs.keysAreIDs, fun e he => hs.fromTable e (List.mem_of_mem_filter he), hs.garbage,
        hs.present⟩
    · exact hs
  | resetTurn h =>
    obtain ⟨p, hp, rfl⟩ := resetTurn_eq_ok.mp h
    exact hs.world rfl (resetTurn_sameOwner hp) hs.fromTable rfl rfl
  | @removePlayer c hc =>
    have herase : ∀ id, id ∈ (s.removePlayer c).gameWorld.playersList ↔
        id ≠ c ∧ id ∈ s.gameWorld.playersList := fun id => AList.mem_erase
    refine ⟨fun e he => hs.keysAreIDs e ((List.kerase_sublist _ _).subset he), hs.fromTable,
      fun id hid => ?_, fun id hR hopen => ?_⟩
    · rcases List.mem_append.mp hid with hid | hid
      · obtain ⟨hgone, hleft⟩ := hs.garbage id hid
        exact ⟨hgone, fun hE hmem => hleft hE ((herase id).mp hmem).2⟩
      · rw [List.mem_singleton.mp hid]
        exact ⟨hc, fun _ hmem => ((herase c).mp hmem).1 rfl⟩
    · refine (herase id).mpr ⟨?_, hs.present id hR hopen⟩
      rintro rfl
      exact hopen hc

theorem Smalls.departed {sender : Option UInt32} (h : Smalls sender s t) (hs : Departed R E s) :
    Departed R E t :=
  h.preserves (fun _ _ hs hstep => hstep.departed hs) hs

/-- Nobody in `GarbageIDs` plays, also after a client has left that was one of them. -/
theorem Departed.left {c : UInt32} (h : Departed R (· = c) s)
    (hc : c ∈ s.garbageIDs → c ∉ s.gameWorld.playersList) : Departed R (fun _ => False) s := by
  refine ⟨h.keysAreIDs, h.fromTable, fun id hid => ?_, h.present⟩
  refine (h.garbage id hid).imp_right fun hleft _ => ?_
  by_cases heq : id = c
  · subst heq
    exact hc hid
  · exact hleft heq

theorem Departed.enter (h : Departed R (fun _ => False) s) {c : UInt32} {p : Player}
    {order : Arrangement (OrderedMap.Entry UInt32 Player)} (hp : p.id = c) :
    Departed (fun e => R e ∨ e = c) (· = c)
      (s.setPlayersList (OrderedMap.insertOrAssign order c p s.gameWorld.playersList)) := by
  have hmem : ∀ id, id ∈ OrderedMap.insertOrAssign order c p s.gameWorld.playersList ↔
      id = c ∨ id ∈ s.gameWorld.playersList := fun id => OrderedMap.mem_insertOrAssign
  refine ⟨h.keysAreIDs.insertOrAssign hp, h.fromTable, fun id hid => ?_,
    fun id hR hopen => (hmem id).mpr ?_⟩
  · obtain ⟨hgone, hleft⟩ := h.garbage id hid
    exact ⟨hgone, fun hne hin => ((hmem id).mp hin).elim hne (hleft fun h => h)⟩
  · exact hR.elim (fun hR => Or.inr (h.present id hR hopen)) Or.inl

theorem Departed.apply (h : Departed R E s) {c : UInt32} {action : PlayerAction} {w : GameWorld}
    (hw : s.gameWorld.makeApprovedAction c action = .ok w) :
    Departed R E ({ s with gameWorld := w }.log (.applied c)) := by
  have hacted := GameWorld.makeApprovedAction_actedBy h.keysAreIDs hw
  have henemies : ∀ e ∈ w.enemyList, e.FromTable :=
    hacted.enemies.forall_mem (fun _ _ hkept he => hkept.turned.fromTable he) h.fromTable
  exact h.world rfl hacted.players henemies rfl rfl

end Server

end AsciiTerra
