import AsciiTerra.Handlers

/-!
# Moves that are applied

`CheckPlayerAction` looks at the player that the message names, `MakeApprovedAction` moves
the player of the connection. The moves that are legal although the two differ are
those that the check would have let pass for the sender too.
-/

set_option autoImplicit false

namespace AsciiTerra

def Map.Open (m : Map) (v : CoordVec) : Prop :=
  0 ≤ v.x.toInt ∧ v.x.toInt < Map.width ∧ 0 ≤ v.y.toInt ∧ v.y.toInt < Map.height ∧
    ∃ tile, m.tileAt v.x v.y = .ok tile ∧ tile ≠ ETileType.hill.code

instance (m : Map) (v : CoordVec) : Decidable (m.Open v) :=
  have : Decidable (∃ tile, m.tileAt v.x v.y = .ok tile ∧ tile ≠ ETileType.hill.code) :=
    match m.tileAt v.x v.y with
    | .error _ => .isFalse fun ⟨_, htile, _⟩ => nomatch htile
    | .ok tile => decidable_of_iff (tile ≠ ETileType.hill.code)
        ⟨fun hne => ⟨tile, rfl, hne⟩, fun ⟨_, htile, hne⟩ => Except.ok.inj htile ▸ hne⟩
  inferInstanceAs (Decidable (_ ∧ _ ∧ _ ∧ _ ∧ _))

/-- The left edge of the map is made of hills. -/
def Map.Walled (m : Map) : Prop :=
  ∀ y, y < Map.height → m.mapTiles[y * Map.width]? = some ETileType.hill.code

theorem generateMap_walled (rand : Nat → Nat) : (generateMap rand).Walled := by
  intro y hy
  unfold Map.height at hy
  have hlt : y * 40 < 40 * 40 := by omega
  have htile : generateTile rand (y * 40) = ETileType.hill.code := by
    simp [generateTile, Map.width]
  simp [generateMap, Map.width, List.getElem?_range hlt, htile]

/-- The check admits the column and the row behind the last ones, where the next tile in
memory is a hill or there is none. -/
theorem Map.Walled.open_of_le {m : Map} (hm : m.Walled) {v : CoordVec} {tile : UInt8}
    (hx : 0 ≤ v.x.toInt) (hx' : v.x.toInt ≤ Map.width) (hy : 0 ≤ v.y.toInt)
    (hy' : v.y.toInt ≤ Map.height) (htile : m.tileAt v.x v.y = .ok tile)
    (hhill : tile ≠ ETileType.hill.code) : m.Open v := by
  have hget : m.mapTiles[v.x.toInt.toNat + v.y.toInt.toNat * Map.width]? = some tile := by
    unfold Map.tileAt at htile
    split at htile
    · exact nomatch htile
    · rename_i heq
      cases htile
      exact heq
  have hlt := (Vector.getElem?_eq_some_iff.mp hget).1
  unfold Map.width at hlt hx' hget
  unfold Map.height at hy'
  have hrow : v.y.toInt < 40 := by omega
  refine ⟨hx, ?_, hy, hrow, tile, htile, hhill⟩
  by_contra hcol
  unfold Map.width at hcol
  -- the first tile of the row below
  have hwall := hm (v.y.toInt.toNat + 1) (by unfold Map.height; omega)
  have hindex : v.x.toInt.toNat + v.y.toInt.toNat * 40 = (v.y.toInt.toNat + 1) * 40 := by omega
  rw [hindex] at hget
  exact hhill (Option.some.inj (hget.symm.trans hwall))

theorem checkPlayerAction_move {w : GameWorld} {action : PlayerAction} {player : Player}
    (hplayer : w.playersList.lookup action.playerID = some player)
    (hmove : EPlayerActionType.ofCode action.actionType = some .move)
    (hm : w.gameWorldMap.Walled) :
    checkPlayerAction w action = .ok true ↔
      0 < player.hp ∧ w.gameWorldMap.Open (player.coords + direction action.actionInfo) := by
  unfold checkPlayerAction
  rw [GameWorld.playerAt_eq_ok.mpr hplayer, except_ok_bind]
  have h0 : (0 : Int16).toInt = 0 := rfl
  by_cases hhp : player.hp ≤ 0
  · rw [if_pos hhp]
    refine iff_of_false (fun h => nomatch h) fun h => ?_
    exact Int32.not_lt.mpr hhp h.1
  rw [if_neg hhp]
  simp only [hmove]
  have halive : 0 < player.hp := Int32.not_le.mp hhp
  split
  · rename_i hout
    refine iff_of_false (fun h => nomatch h) fun ⟨_, hx, hx', hy, hy', _⟩ => ?_
    rcases hout with h | h | h | h
    · exact absurd (Int16.lt_iff_toInt_lt.mp h) (by rw [h0]; omega)
    · omega
    · exact absurd (Int16.lt_iff_toInt_lt.mp h) (by rw [h0]; omega)
    · omega
  · rename_i hin
    simp only [not_or, Int16.not_lt, Int16.le_iff_toInt_le, h0, not_lt] at hin
    obtain ⟨hx, hx', hy, hy'⟩ := hin
    constructor
    · intro h
      obtain ⟨tile, htile, h⟩ := except_bind_eq_ok.mp h
      have hhill : tile ≠ ETileType.hill.code := by simpa using Except.ok.inj h
      exact ⟨halive, hm.open_of_le hx hx' hy hy' htile hhill⟩
    · rintro ⟨_, _, _, _, _, tile, htile, hhill⟩
      rw [htile, except_ok_bind]
      simpa using hhill

namespace Server
variable {s s' : Server}

theorem step_map {e : Event} (hs : s.Idle) (h : step s e = some s') :
    s'.gameWorld.gameWorldMap = s.gameWorld.gameWorldMap := by
  cases step_cases h with
  | accept _ =>
    rfl
  | validated c _ =>
    rfl
  | close c _ =>
    rfl
  | shyCheck n hok =>
    exact (messageAllClients_spec (onClientDisconnect_spec n) hs.wellFormed s' hok).map
  | message n chance c msg hc hok =>
    obtain ⟨t, _, ht, u, hb, hu, _⟩ := onMessage_cases hs hc hok
    rw [hu.map, ← ht.map]
    cases hb with
    | nothing => rfl
    | entered => rfl
    | applied happroved hw =>
      exact (GameWorld.makeApprovedAction_actedBy ht.wellFormed.keysAreIDs hw).map

theorem Reachable.walled (h : s.Reachable) : s.gameWorld.gameWorldMap.Walled := by
  obtain ⟨mapRand, enemyRand, closing, events, hrun⟩ := h
  have hall := Machine.invariant (I := fun s : Server => s.Idle ∧ s.gameWorld.gameWorldMap.Walled)
    (fun s e s' hs h => ⟨step_idle hs.1 h, by rw [step_map hs.1 h]; exact hs.2⟩)
    ⟨start_idle mapRand enemyRand closing, generateMap_walled mapRand⟩ hrun
  exact hall.2

/-- A move that `OnMessage` applies is legal if and only if it names the sender, or the
check would also let it pass for the sender. -/
theorem appliedMove_legal_iff {n : Nat} {t : Server} {c : UInt32} {action : PlayerAction}
    {w : GameWorld} (hs : s.Reachable) (hflush : s.flushGarbage (onClientDisconnect n) = .ok t)
    (happroved : t.approves c action = .ok true)
    (hmove : EPlayerActionType.ofCode action.actionType = some .move)
    (hw : t.gameWorld.makeApprovedAction c action = .ok w) :
    (∃ player, w.playersList.lookup c = some player ∧ 0 < player.hp ∧
      w.gameWorldMap.Open player.coords) ↔
    (action.playerID = c ∨
      checkPlayerAction t.gameWorld { action with playerID := c } = .ok true) := by
  have ht := flushGarbage_spec (onClientDisconnect_spec n) hs.idle.wellFormed t hflush
  have hm : t.gameWorld.gameWorldMap.Walled := ht.map ▸ hs.walled
  have hacted := GameWorld.makeApprovedAction_actedBy ht.wellFormed.keysAreIDs hw
  obtain ⟨player, hplayer⟩ := OrderedMap.mem_iff_lookup.mp (approves_mem happroved).2
  obtain ⟨player', hplayer', hrecord⟩ := hacted.record player hplayer
  have hcoords := hrecord.coords
  rw [if_pos hmove] at hcoords
  have hcheck := @checkPlayerAction_move _ { action with playerID := c } _ hplayer hmove hm
  have hlegal : (∃ player, w.playersList.lookup c = some player ∧ 0 < player.hp ∧
      w.gameWorldMap.Open player.coords) ↔
      checkPlayerAction t.gameWorld { action with playerID := c } = .ok true := by
    rw [hcheck, hacted.map]
    constructor
    · rintro ⟨q, hq, hhp, hopen⟩
      cases hplayer'.symm.trans hq
      exact ⟨hrecord.hp ▸ hhp, hcoords ▸ hopen⟩
    · rintro ⟨hhp, hopen⟩
      exact ⟨player', hplayer', hrecord.hp ▸ hhp, hcoords ▸ hopen⟩
  rw [hlegal]
  refine ⟨Or.inr, fun h => h.elim (fun hid => ?_) id⟩
  -- the check was made for the sender
  have hsame : { action with playerID := c } = action := by rw [← hid]
  rw [hsame]
  unfold approves at happroved
  rw [if_pos (approves_mem happroved).1, hplayer] at happroved
  simp only at happroved
  split at happroved
  · exact happroved
  · exact nomatch happroved

/-- Where the player of `c` is after the check and the application of `action`. -/
def coordsAfter (c : UInt32) (action : PlayerAction) (s : Server) :
    Outcome Fault (Bool × Option CoordVec) := do
  let t ← s.flushGarbage (onClientDisconnect 0)
  let approved ← Outcome.ofExcept (t.approves c action)
  let w ← Outcome.ofExcept (t.gameWorld.makeApprovedAction c action)
  .ok (approved, (w.playersList.lookup c).map Player.coords)

theorem coordsAfter_eq_ok {c : UInt32} {action : PlayerAction} {v : CoordVec}
    (h : s.coordsAfter c action = .ok (true, some v)) : ∃ t w player,
      s.flushGarbage (onClientDisconnect 0) = .ok t ∧ t.approves c action = .ok true ∧
      t.gameWorld.makeApprovedAction c action = .ok w ∧ w.playersList.lookup c = some player ∧
      player.coords = v := by
  obtain ⟨t, ht, h⟩ := Outcome.bind_eq_ok.mp h
  obtain ⟨approved, happroved, h⟩ := Outcome.bind_eq_ok.mp h
  obtain ⟨w, hw, h⟩ := Outcome.bind_eq_ok.mp h
  have hpair := Prod.mk.inj (Outcome.ok.inj h)
  obtain ⟨player, hplayer, hcoords⟩ := Option.map_eq_some_iff.mp hpair.2
  exact ⟨t, w, player, ht, Outcome.ofExcept_eq_ok.mp (hpair.1 ▸ happroved),
    Outcome.ofExcept_eq_ok.mp hw, hplayer, hcoords⟩

/-- Two clients that are players, without enemies; the first one plays. -/
def twoPlayers : List Event :=
  [.accept, .accept, .message 0 (.always 5) 10000 (registerRequest Player.default),
    .message 0 (.always 10) 10001 (registerRequest Player.default)]

/-- A move five tiles to the left for the player of this ID. -/
def moveLeft (id : UInt32) : PlayerAction := ⟨EPlayerActionType.move.code, id, #v[0, -5, 0, 0]⟩

/-- The first player at (4, 4) leaves the map in the name of the second one at (9, 9). -/
theorem appliedMove_offMap : ∃ (s t : Server) (w : GameWorld), s.Reachable ∧
    (∀ e ∈ s.gameWorld.playersList.entries, s.gameWorld.gameWorldMap.Open e.2.coords) ∧
    s.flushGarbage (onClientDisconnect 0) = .ok t ∧ t.approves 10000 (moveLeft 10001) = .ok true ∧
    t.gameWorld.makeApprovedAction 10000 (moveLeft 10001) = .ok w ∧
    ¬ ∃ player, w.playersList.lookup 10000 = some player ∧ 0 < player.hp ∧
      w.gameWorldMap.Open player.coords := by
  have hrun : ((Machine.run step (start (fun _ => 0) (fun _ => 0) fun _ => []) twoPlayers).map
      fun s => (decide (∀ e ∈ s.gameWorld.playersList.entries,
        s.gameWorld.gameWorldMap.Open e.2.coords), s.coordsAfter 10000 (moveLeft 10001))) =
      some (true, .ok (true, some ⟨-1, 4, 0⟩)) := by decide +kernel
  obtain ⟨s, hs, h⟩ := Option.map_eq_some_iff.mp hrun
  obtain ⟨hopen, h⟩ := Prod.mk.inj h
  obtain ⟨t, w, player, ht, happroved, hw, hplayer, hcoords⟩ := coordsAfter_eq_ok h
  refine ⟨s, t, w, ⟨_, _, _, _, hs⟩, of_decide_eq_true hopen, ht, happroved, hw, ?_⟩
  rintro ⟨player', hplayer', _, hopen⟩
  cases hplayer.symm.trans hplayer'
  rw [hcoords] at hopen
  exact absurd hopen.1 (by decide)

/-- The same move in the name of a player that names itself: five tiles to the right. -/
theorem appliedMove_own : ∃ (s t : Server) (w : GameWorld), s.Reachable ∧
    t.gameWorld.makeApprovedAction 10000 ⟨0, 10000, #v[0, 5, 0, 0]⟩ = .ok w ∧
    ((∃ player, w.playersList.lookup 10000 = some player ∧ 0 < player.hp ∧
      w.gameWorldMap.Open player.coords) ↔
    ((10000 : UInt32) = 10000 ∨ checkPlayerAction t.gameWorld ⟨0, 10000, #v[0, 5, 0, 0]⟩ =
      .ok true)) := by
  have hrun : ((Machine.run step (start (fun _ => 0) (fun _ => 0) fun _ => []) twoPlayers).map
      (coordsAfter 10000 ⟨0, 10000, #v[0, 5, 0, 0]⟩)) = some (.ok (true, some ⟨9, 4, 0⟩)) := by
    decide +kernel
  obtain ⟨s, hs, h⟩ := Option.map_eq_some_iff.mp hrun
  obtain ⟨t, w, player, ht, happroved, hw, hplayer, hcoords⟩ := coordsAfter_eq_ok h
  have hreachable : s.Reachable := ⟨_, _, _, _, hs⟩
  exact ⟨s, t, w, hreachable, hw, appliedMove_legal_iff hreachable ht happroved rfl hw⟩

end Server

end AsciiTerra
