import AsciiTerra.ClientStream
import AsciiTerra.ServerInvariant

/-!
# Turn counters at a client

A client counts down the turn actions of every player, but `GamePlayerTurn` refills only its
own. The copy of another player's counter is what the last record of that player left.
-/

set_option autoImplicit false

namespace AsciiTerra

/-- The argument of `SetCurrentTurnActions` in `MakeApprovedAction` is at least 0 and at most
`MaxTurns`; the type is unsigned. -/
def GameWorld.CountsDown (w : GameWorld) (id : UInt32) (action : PlayerAction) : Prop :=
  ∀ v p, w.actOf id action = .ok v → v.playerAt id = .ok p →
    p.getCurrentTurnActions - 1 ≤ p.getMaxTurnActions

/-- A player with actions left, and no more than its turn has. -/
def Player.CanAct (p : Player) : Prop :=
  1 ≤ p.currentTurns.val ∧ p.currentTurns.val ≤ p.maxTurns.val

theorem GameWorld.countsDown_of_canAct {w : GameWorld} {id : UInt32} {p : Player}
    (hp : w.playersList.lookup id = some p) (hcan : p.CanAct) (action : PlayerAction) :
    w.CountsDown id action := by
  intro v q hv hq
  obtain ⟨q', hq', hmax, hcurrent⟩ := (actOf_fought hv).1 id p hp
  cases (playerAt_eq_ok.mp hq).symm.trans hq'
  obtain ⟨hpos, hle⟩ := hcan
  have hnat := q.getCurrentTurnActions_toNat
  rw [← hcurrent] at hpos hle
  rw [← hmax] at hle
  have hne : q.getCurrentTurnActions ≠ 0 := by
    intro hzero
    rw [hzero, UInt32.toNat_zero] at hnat
    omega
  apply UInt32.le_iff_toNat_le.mpr
  rw [q.getMaxTurnActions_toNat, uint32_toNat_sub_one hne, hnat]
  omega

def Message.record (msg : Message) : Option Player :=
  match ECustomMetaMSG.ofCode msg.header.id with
  | some .clientRegisterFromServer | some .clientAddPlayer | some .gameUpdatePlayer =>
    match msg.pop Layout.player with
    | .ok (p, _) => some p
    | .error _ => none
  | _ => none

/-- The player of a `GamePlayerActionValidated`. -/
def Message.actor (msg : Message) : Option UInt32 :=
  match ECustomMetaMSG.ofCode msg.header.id with
  | some .gamePlayerActionValidated =>
    match msg.pop Layout.playerAction with
    | .ok (action, _) => some action.playerID
    | .error _ => none
  | _ => none

/-- One message more about player `c`. -/
def actionsLeft (c : UInt32) (left : Option Nat) (msg : Message) : Option Nat :=
  match msg.record with
  | some p => if p.id = c then some p.currentTurns.val else left
  | none => if msg.actor = some c then left.map (· - 1) else left

/-- `CurrentTurns` in the last record of player `c`, less the actions validated since. -/
def remaining (c : UInt32) (msgs : List Message) : Option Nat := msgs.foldl (actionsLeft c) none

theorem remaining_concat (c : UInt32) (msgs : List Message) (msg : Message) :
    remaining c (msgs ++ [msg]) = actionsLeft c (remaining c msgs) msg := by
  unfold remaining
  rw [List.foldl_concat]

/-- Client `e` is sent no more actions of another player than the last record of that player
has left. -/
def WithinRecords (e : UInt32) (msgs : List Message) : Prop :=
  ∀ i < msgs.length, ∀ c ∈ msgs[i]?.bind Message.actor, c ≠ e → remaining c (msgs.take i) ≠ some 0

instance (e : UInt32) (msgs : List Message) : Decidable (WithinRecords e msgs) :=
  have : DecidablePred fun i => ∀ c ∈ msgs[i]?.bind Message.actor, c ≠ e →
      remaining c (msgs.take i) ≠ some 0 := fun _ => Option.decidableForallMem _
  inferInstanceAs (Decidable (∀ i < msgs.length, _))

theorem WithinRecords.before {e c : UInt32} {msgs before : List Message} {msg : Message}
    (h : WithinRecords e msgs) (hinit : before ++ [msg] <+: msgs) (hactor : msg.actor = some c)
    (hc : c ≠ e) : remaining c before ≠ some 0 := by
  obtain ⟨rest, rfl⟩ := hinit
  have hone := h before.length (by simp) c
  rw [List.append_assoc, List.take_left] at hone
  refine hone ?_ hc
  simp [hactor]

/-- The calls of `SetCurrentTurnActions` for the message; `GamePlayerTurn` passes `MaxTurns`
itself. -/
def Client.CallsInRange (msg : Message) (cl : Client) : Prop :=
  ∀ action rest, ECustomMetaMSG.ofCode msg.header.id = some .gamePlayerActionValidated →
    msg.pop Layout.playerAction = .ok (action, rest) → action.playerID ∈ cl.gameWorld.playersList →
      cl.gameWorld.CountsDown action.playerID action

/-- What client `e` has when it processes the message: its own record, when the message is about
its own turn. -/
structure Client.Due (e : UInt32) (msg : Message) (cl : Client) : Prop where
  turn : ECustomMetaMSG.ofCode msg.header.id = some .gamePlayerTurn →
    cl.playerID = e ∧ e ∈ cl.gameWorld.playersList
  action : msg.actor = some e → ∃ p, cl.gameWorld.playersList.lookup e = some p ∧ p.CanAct

/-- The messages for client `e`: records in range, and its own turn and actions in order. -/
def Sound (order : Arrangement (OrderedMap.Entry UInt32 Player)) (map : Map) (e : UInt32)
    (msgs : List Message) : Prop :=
  ∀ before msg, before ++ [msg] <+: msgs →
    (∀ p, msg.record = some p → p.currentTurns.val ≤ p.maxTurns.val) ∧
    Knows order map (Client.Due e msg) before

/-- The copies of the other players have the counters of their last records. -/
structure Client.Copies (e : UInt32) (msgs : List Message) (cl : Client) : Prop where
  keysAreIDs : KeysAreIDs cl.gameWorld.playersList
  counters : ∀ c, c ≠ e → ∀ p, cl.gameWorld.playersList.lookup c = some p →
    p.currentTurns.val ≤ p.maxTurns.val ∧ remaining c msgs = some p.currentTurns.val

namespace Client
variable {order : Arrangement (OrderedMap.Entry UInt32 Player)} {e : UInt32} {cl cl' : Client}
variable {msgs : List Message} {msg : Message}

theorem Copies.same (h : cl.Copies e msgs) (hrecord : msg.record = none) (hactor : msg.actor = none)
    (hplayers : OrderedMap.Related Player.Hurt cl.gameWorld.playersList cl'.gameWorld.playersList) :
    cl'.Copies e (msgs ++ [msg]) := by
  refine ⟨h.keysAreIDs.hurt hplayers, fun c hc p' hp' => ?_⟩
  obtain ⟨p, hp⟩ := OrderedMap.mem_iff_lookup.mp
    (hplayers.mem_iff.mp (OrderedMap.mem_iff_lookup.mpr ⟨p', hp'⟩))
  obtain ⟨p'', hp'', hhurt⟩ := hplayers.lookup hp
  cases hp'.symm.trans hp''
  rw [hhurt, remaining_concat, actionsLeft, hrecord, hactor]
  simpa using h.counters c hc p hp

theorem Copies.put (order : Arrangement (OrderedMap.Entry UInt32 Player)) (h : cl.Copies e msgs)
    {desc : Player} (hrecord : msg.record = some desc)
    (hdesc : desc.currentTurns.val ≤ desc.maxTurns.val)
    (hplayers : cl'.gameWorld.playersList =
      OrderedMap.insertOrAssign order desc.id desc cl.gameWorld.playersList) :
    cl'.Copies e (msgs ++ [msg]) := by
  refine ⟨hplayers ▸ h.keysAreIDs.insertOrAssign rfl, fun c hc p hp => ?_⟩
  rw [hplayers, OrderedMap.lookup_insertOrAssign] at hp
  rw [remaining_concat, actionsLeft, hrecord]
  by_cases heq : c = desc.id
  · rw [if_pos heq] at hp
    cases hp
    exact ⟨hdesc, if_pos heq.symm⟩
  · rw [if_neg heq] at hp
    have hne : ¬ desc.id = c := fun hid => heq hid.symm
    simp only [hne, if_false]
    exact h.counters c hc p hp

theorem Copies.act (h : cl.Copies e msgs) {action : PlayerAction} (hrecord : msg.record = none)
    (hactor : msg.actor = some action.playerID)
    (hok : cl.gamePlayerActionValidated action = .ok cl') : cl'.Copies e (msgs ++ [msg]) := by
  unfold gamePlayerActionValidated at hok
  split at hok
  · obtain ⟨w, hw, hok⟩ := except_bind_eq_ok.mp hok
    cases hok
    have hacted := (GameWorld.makeApprovedAction_actedBy h.keysAreIDs hw).players
    have hcounts := (GameWorld.makeApprovedAction_counts hw).2
    refine ⟨hacted.forall_entries (P := fun k p => p.id = k) (fun _ _ _ hp hk => hp.id.trans hk)
      h.keysAreIDs, fun c hc p' hp' => ?_⟩
    obtain ⟨p, hp⟩ := OrderedMap.mem_iff_lookup.mp
      (hacted.mem_iff.mp (OrderedMap.mem_iff_lookup.mpr ⟨p', hp'⟩))
    obtain ⟨p'', hp'', hmax, hcurrent⟩ := hcounts c p hp
    cases hp'.symm.trans hp''
    obtain ⟨hle, hleft⟩ := h.counters c hc p hp
    rw [remaining_concat, actionsLeft, hrecord, hactor, hleft, hmax]
    by_cases heq : c = action.playerID
    · rw [if_pos heq] at hcurrent
      subst heq
      simp only [if_true, Option.map_some, Option.some.injEq]
      omega
    · rw [if_neg heq] at hcurrent
      have hne : ¬ action.playerID = c := fun hid => heq hid.symm
      simp only [Option.some.injEq, hne, if_false]
      rw [hcurrent]
      exact ⟨hle, rfl⟩
  · rename_i hmem
    cases hok
    refine ⟨h.keysAreIDs, fun c hc p hp => ?_⟩
    have hne : ¬ action.playerID = c := fun hid =>
      hmem (hid ▸ OrderedMap.mem_iff_lookup.mpr ⟨p, hp⟩)
    rw [remaining_concat, actionsLeft, hrecord, hactor]
    simpa [hne] using h.counters c hc p hp

theorem Copies.remove (h : cl.Copies e msgs) (hrecord : msg.record = none)
    (hactor : msg.actor = none) {id : UInt32}
    (hplayers : cl'.gameWorld.playersList = cl.gameWorld.playersList.erase id) :
    cl'.Copies e (msgs ++ [msg]) := by
  refine ⟨fun a ha => ?_, fun c hc p hp => ?_⟩
  · rw [hplayers] at ha
    exact h.keysAreIDs a ((List.kerase_sublist _ _).subset ha)
  · rw [hplayers] at hp
    rw [remaining_concat, actionsLeft, hrecord, hactor]
    by_cases heq : c = id
    · subst heq
      exact nomatch (AList.lookup_erase ..).symm.trans hp
    · rw [AList.lookup_erase_ne heq] at hp
      simpa using h.counters c hc p hp

theorem Copies.turn (h : cl.Copies e msgs) (hrecord : msg.record = none)
    (hactor : msg.actor = none) (howner : cl.playerID = e) (hmem : e ∈ cl.gameWorld.playersList)
    (hok : cl.gamePlayerTurn order = .ok cl') : cl'.Copies e (msgs ++ [msg]) := by
  obtain ⟨p, hp, hok⟩ := except_bind_eq_ok.mp hok
  cases hok
  obtain ⟨q, hq⟩ := OrderedMap.mem_iff_lookup.mp hmem
  have hself : p.id = cl.playerID := by
    rw [howner, hq, Option.getD_some, Server.setCurrentTurnActions_max] at hp
    cases hp
    exact (h.keysAreIDs.id_eq hq).trans howner.symm
  refine ⟨h.keysAreIDs.insertOrAssign hself, fun c hc p' hp' => ?_⟩
  rw [OrderedMap.lookup_insertOrAssign_ne order (howner ▸ hc)] at hp'
  rw [remaining_concat, actionsLeft, hrecord, hactor]
  simpa using h.counters c hc p' hp'

theorem Copies.updatePlayer (h : cl.Copies e msgs)
    (hrecord : ∀ p, msg.record = some p → p.currentTurns.val ≤ p.maxTurns.val)
    (hdue : cl.Due e msg) (hok : cl.updatePlayer order msg = .ok cl') :
    cl'.Copies e (msgs ++ [msg]) := by
  have hrefl := OrderedMap.Related.refl Player.Hurt.refl cl.gameWorld.playersList
  cases updatePlayer_updated hok with
  | @registered p rest hid hpop =>
    have hput : msg.record = some p := by simp [Message.record, hid, hpop]
    exact h.put order hput (hrecord p hput) rfl
  | mapped hid => exact h.same (by simp [Message.record, hid]) (by simp [Message.actor, hid]) hrefl
  | enemyAdded hid =>
    exact h.same (by simp [Message.record, hid]) (by simp [Message.actor, hid]) hrefl
  | @put p rest hid hpop =>
    have hput : msg.record = some p := by
      rcases hid with hid | hid
      · simp [Message.record, hid, hpop]
      · simp [Message.record, hid, hpop]
    exact h.put order hput (hrecord p hput) rfl
  | removed hid => exact h.remove (by simp [Message.record, hid]) (by simp [Message.actor, hid]) rfl
  | turn hid hturn =>
    obtain ⟨howner, hmem⟩ := hdue.turn hid
    exact h.turn (by simp [Message.record, hid]) (by simp [Message.actor, hid]) howner hmem hturn
  | acted hid hpop hact =>
    exact h.act (by simp [Message.record, hid]) (by simp [Message.actor, hid, hpop]) hact
  | enemyActed hid hw =>
    exact h.same (by simp [Message.record, hid]) (by simp [Message.actor, hid])
      (GameWorld.makeEnemyAction_hurts h.keysAreIDs hw)
  | untouched hid =>
    simp only [List.mem_cons, List.not_mem_nil, or_false, forall_eq_or_imp, forall_eq] at hid
    obtain ⟨hregister, hadd, hupdate, hvalid⟩ := hid
    refine h.same ?_ ?_ hrefl
    · unfold Message.record
      split
      · exact absurd ‹_› hregister
      · exact absurd ‹_› hadd
      · exact absurd ‹_› hupdate
      · rfl
    · unfold Message.actor
      split
      · exact absurd ‹_› hvalid
      · rfl

end Client

section Streams
variable {order : Arrangement (OrderedMap.Entry UInt32 Player)} {map : Map} {e : UInt32}
variable {msgs : List Message}

theorem Sound.concat {msg : Message} (h : Sound order map e msgs)
    (hrecord : ∀ p, msg.record = some p → p.currentTurns.val ≤ p.maxTurns.val)
    (hdue : Knows order map (Client.Due e msg) msgs) : Sound order map e (msgs ++ [msg]) := by
  intro before m hinit
  rcases List.prefix_concat_iff.mp hinit with heq | hinit
  · obtain ⟨rfl, hm⟩ := List.append_inj' heq rfl
    cases hm
    exact ⟨hrecord, hdue⟩
  · exact h before m hinit

theorem Sound.copies (h : Sound order map e msgs) :
    ∀ before, before <+: msgs → Knows order map (Client.Copies e before) before := by
  intro before
  induction before using List.reverseRecOn with
  | nil =>
    intro _ cl hcl
    cases hcl
    exact ⟨fun _ ha => (nomatch ha), fun _ _ _ hp => (nomatch hp)⟩
  | append_singleton before msg ih =>
    intro hinit
    obtain ⟨hrecord, hdue⟩ := h before msg hinit
    have hknown := ih ((List.prefix_append before [msg]).trans hinit)
    intro cl' hcl'
    obtain ⟨cl, hcl, hmsg⟩ := Client.updates_concat.mp hcl'
    exact (hknown cl hcl).updatePlayer hrecord (hdue cl hcl) hmsg

theorem Sound.callsInRange (h : Sound order map e msgs) (hwithin : WithinRecords e msgs)
    {before : List Message} {msg : Message} (hinit : before ++ [msg] <+: msgs) :
    Knows order map (Client.CallsInRange msg) before := by
  intro cl hcl action rest hid hpop hmem
  have hactor : msg.actor = some action.playerID := by simp [Message.actor, hid, hpop]
  by_cases hown : action.playerID = e
  · obtain ⟨p, hp, hcan⟩ := ((h before msg hinit).2 cl hcl).action (hown ▸ hactor)
    exact GameWorld.countsDown_of_canAct (hown ▸ hp) hcan action
  · obtain ⟨p, hp⟩ := OrderedMap.mem_iff_lookup.mp hmem
    have hcopies := h.copies before ((List.prefix_append before [msg]).trans hinit) cl hcl
    obtain ⟨hle, hleft⟩ := hcopies.counters action.playerID hown p hp
    have hne := hwithin.before hinit hactor hown
    rw [hleft] at hne
    refine GameWorld.countsDown_of_canAct hp ⟨?_, hle⟩ action
    exact Nat.one_le_iff_ne_zero.mpr fun hzero => hne (congrArg some hzero)

end Streams

end AsciiTerra
