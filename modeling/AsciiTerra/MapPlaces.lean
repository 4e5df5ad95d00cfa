import AsciiTerra.LegalMoves

/-!
# Places on the map

What `CheckPlayerAction` makes of the places behind the last column and the last row, and
where `ClientOnRegister` puts a new player.
-/

set_option autoImplicit false

namespace AsciiTerra

def CoordVec.InMap (v : CoordVec) : Prop :=
  0 ≤ v.x.toInt ∧ v.x.toInt < Map.width ∧ 0 ≤ v.y.toInt ∧ v.y.toInt < Map.height

instance (v : CoordVec) : Decidable v.InMap := inferInstanceAs (Decidable (_ ∧ _ ∧ _ ∧ _))

/-- The tile `x + y * Width`, of a position on the map, is no hill. -/
def Map.Walkable (m : Map) (x y : Int) : Prop :=
  0 ≤ x ∧ x < Map.width ∧ 0 ≤ y ∧ y < Map.height ∧
    m.mapTiles[(x + y * Map.width).toNat]? ≠ some ETileType.hill.code

/-- In the column or in the row that follows the last one. -/
def BehindMap (x y : Int) : Prop :=
  (x = Map.width ∧ 0 ≤ y ∧ y ≤ Map.height) ∨ (y = Map.height ∧ 0 ≤ x ∧ x ≤ Map.width)

/-- The tile after the end of row `y` is the first one of a row, and a hill. -/
def Map.HillAfterRow (m : Map) (y : Int) : Prop :=
  m.mapTiles[((y + 1) * Map.width).toNat]? = some ETileType.hill.code

/-- Inside the map a component wraps only where it leaves the map on the other side. -/
theorem add_toInt_of_inMap {a b : Int16} (ha : 0 ≤ a.toInt) (ha' : a.toInt < 40) :
    (a + b).toInt = a.toInt + b.toInt ∨ ((a + b).toInt < 0 ∧ 40 < a.toInt + b.toInt) := by
  have hb := b.toInt_lt
  have hb' := b.le_toInt
  rw [Int16.toInt_add, Int.bmod_def]
  omega

/-- The bounds that `CheckPlayerAction` tests. -/
def Tested (x y : Int) : Prop := 0 ≤ x ∧ x ≤ Map.width ∧ 0 ≤ y ∧ y ≤ Map.height

theorem tested_iff {p d : CoordVec} (hp : p.InMap) :
    Tested (p + d).x.toInt (p + d).y.toInt ↔
      Tested (p.x.toInt + d.x.toInt) (p.y.toInt + d.y.toInt) := by
  obtain ⟨hx, hx', hy, hy'⟩ := hp
  unfold Map.width at hx'
  unfold Map.height at hy'
  have h1 := add_toInt_of_inMap (b := d.x) hx hx'
  have h2 := add_toInt_of_inMap (b := d.y) hy hy'
  unfold Tested Map.width Map.height
  rw [CoordVec.add_x, CoordVec.add_y]
  omega

theorem add_toInt_of_tested {p d : CoordVec} (hp : p.InMap)
    (h : Tested (p + d).x.toInt (p + d).y.toInt) :
    (p + d).x.toInt = p.x.toInt + d.x.toInt ∧ (p + d).y.toInt = p.y.toInt + d.y.toInt := by
  obtain ⟨hx, hx', hy, hy'⟩ := hp
  unfold Map.width at hx'
  unfold Map.height at hy'
  have h1 := add_toInt_of_inMap (b := d.x) hx hx'
  have h2 := add_toInt_of_inMap (b := d.y) hy hy'
  unfold Tested at h
  rw [CoordVec.add_x, CoordVec.add_y] at h ⊢
  omega

theorem checkPlayerAction_eq {w : GameWorld} {action : PlayerAction} {player : Player}
    (hplayer : w.playersList.lookup action.playerID = some player)
    (hmove : EPlayerActionType.ofCode action.actionType = some .move)
    (hin : player.coords.InMap) (hhp : 0 < player.hp) {x y : Int}
    (hx : x = player.coords.x.toInt + (direction action.actionInfo).x.toInt)
    (hy : y = player.coords.y.toInt + (direction action.actionInfo).y.toInt) :
    (¬ Tested x y → checkPlayerAction w action = .ok false) ∧
    (Tested x y → checkPlayerAction w action =
      match w.gameWorldMap.mapTiles[(x + y * Map.width).toNat]? with
      | none => .error .assertion
      | some tile => .ok (tile != ETileType.hill.code)) := by
  have htested := tested_iff (d := direction action.actionInfo) hin
  rw [← hx, ← hy] at htested
  have h0 : (0 : Int16).toInt = 0 := rfl
  unfold checkPlayerAction
  rw [GameWorld.playerAt_eq_ok.mpr hplayer, except_ok_bind, if_neg (Int32.not_le.mpr hhp)]
  simp only [hmove]
  constructor
  · intro hout
    rw [← htested] at hout
    rw [if_pos]
    rw [Int16.lt_iff_toInt_lt, Int16.lt_iff_toInt_lt, h0]
    unfold Tested at hout
    omega
  · intro hok
    rw [← htested] at hok
    obtain ⟨hnx, hny⟩ := add_toInt_of_tested hin hok
    rw [← hx] at hnx
    rw [← hy] at hny
    rw [if_neg]
    · have hindex : (player.coords + direction action.actionInfo).x.toInt.toNat +
          (player.coords + direction action.actionInfo).y.toInt.toNat * Map.width =
          (x + y * Map.width).toNat := by
        unfold Tested at hok
        rw [hnx, hny] at hok ⊢
        unfold Map.width
        omega
      unfold Map.tileAt
      rw [hindex]
      cases w.gameWorldMap.mapTiles[(x + y * Map.width).toNat]? <;> rfl
    · rw [Int16.lt_iff_toInt_lt, Int16.lt_iff_toInt_lt, h0]
      unfold Tested at hok
      omega

/-- The tile that is read for a position of the map. -/
theorem walkable_of_not_behind (m : Map) {x y : Int} (htested : Tested x y)
    (hbehind : ¬ BehindMap x y) :
    ∃ tile, m.mapTiles[(x + y * Map.width).toNat]? = some tile ∧
      (m.Walkable x y ↔ tile ≠ ETileType.hill.code) := by
  have hin : 0 ≤ x ∧ x < Map.width ∧ 0 ≤ y ∧ y < Map.height := by
    unfold BehindMap at hbehind
    unfold Tested at htested
    unfold Map.width Map.height at *
    omega
  have hlt : (x + y * Map.width).toNat < 40 * 40 := by
    unfold Map.width Map.height at *
    omega
  refine ⟨_, Vector.getElem?_eq_getElem hlt, ?_⟩
  unfold Map.Walkable
  rw [Vector.getElem?_eq_getElem hlt, ne_eq, Option.some_inj]
  exact ⟨fun h => h.2.2.2.2, fun h => ⟨hin.1, hin.2.1, hin.2.2.1, hin.2.2.2, h⟩⟩

theorem answer_behind_iff {m : Map} {x y : Int} (htested : Tested x y) (hbehind : BehindMap x y)
    {alive : Prop} :
    (∃ answer, (match m.mapTiles[(x + y * Map.width).toNat]? with
        | none => Except.error Fault.assertion
        | some tile => .ok (tile != ETileType.hill.code)) = .ok answer ∧
        (answer = true ↔ alive ∧ m.Walkable x y)) ↔
      x = Map.width ∧ y < Map.height - 1 ∧ m.HillAfterRow y := by
  have hwalk : ¬ m.Walkable x y := by
    rintro ⟨-, hx, -, hy, -⟩
    unfold BehindMap at hbehind
    omega
  by_cases hrow : x = Map.width ∧ y < Map.height - 1
  · -- the tile is the first one of the next row
    obtain ⟨rfl, hy⟩ := hrow
    have hindex : ((Map.width : Int) + y * Map.width).toNat = ((y + 1) * Map.width).toNat := by
      unfold Map.width
      omega
    have hlt : ((y + 1) * (Map.width : Int)).toNat < 40 * 40 := by
      unfold Tested at htested
      unfold Map.width Map.height at *
      omega
    unfold Map.HillAfterRow
    rw [hindex, Vector.getElem?_eq_getElem hlt]
    simp [hwalk, hy]
  · have hlarge : 40 * 40 ≤ (x + y * Map.width).toNat := by
      unfold BehindMap at hbehind
      unfold Tested at htested
      unfold Map.width Map.height at *
      omega
    rw [Vector.getElem?_eq_none hlarge]
    refine iff_of_false ?_ fun h => hrow ⟨h.1, h.2.1⟩
    rintro ⟨answer, hanswer, -⟩
    exact nomatch hanswer

/-- On a move `CheckPlayerAction` decides whether the player is alive and the displaced position
open, and reads no tile past the last one, if and only if the player is dead, the position is
not behind the last column or row, or it is next to a row with a hill behind it. -/
theorem checkPlayerAction_decides_iff {w : GameWorld} {action : PlayerAction} {player : Player}
    (hplayer : w.playersList.lookup action.playerID = some player)
    (hmove : EPlayerActionType.ofCode action.actionType = some .move)
    (hin : player.coords.InMap) {x y : Int}
    (hx : x = player.coords.x.toInt + (direction action.actionInfo).x.toInt)
    (hy : y = player.coords.y.toInt + (direction action.actionInfo).y.toInt) :
    (∃ answer, checkPlayerAction w action = .ok answer ∧
        (answer = true ↔ 0 < player.hp ∧ w.gameWorldMap.Walkable x y)) ↔
      player.hp ≤ 0 ∨ ¬ BehindMap x y ∨
        (x = Map.width ∧ y < Map.height - 1 ∧ w.gameWorldMap.HillAfterRow y) := by
  by_cases hhp : player.hp ≤ 0
  · have hfalse : checkPlayerAction w action = .ok false := by
      unfold checkPlayerAction
      rw [GameWorld.playerAt_eq_ok.mpr hplayer, except_ok_bind, if_pos hhp]
    refine iff_of_true ⟨false, hfalse, ?_⟩ (.inl hhp)
    exact iff_of_false (by decide) fun h => Int32.not_lt.mpr hhp h.1
  have halive : 0 < player.hp := Int32.not_le.mp hhp
  obtain ⟨hout, hread⟩ := checkPlayerAction_eq hplayer hmove hin halive hx hy
  rw [or_iff_right hhp]
  by_cases htested : Tested x y
  · rw [hread htested]
    by_cases hbehind : BehindMap x y
    · rw [or_iff_right (not_not.mpr hbehind)]
      exact answer_behind_iff htested hbehind
    · refine iff_of_true ?_ (.inl hbehind)
      obtain ⟨tile, htile, hwalk⟩ := walkable_of_not_behind w.gameWorldMap htested hbehind
      rw [htile]
      refine ⟨_, rfl, ?_⟩
      rw [hwalk, and_iff_right halive]
      simp
  · have hwalk : ¬ w.gameWorldMap.Walkable x y := by
      rintro ⟨h1, h2, h3, h4, -⟩
      exact htested ⟨h1, h2.le, h3, h4.le⟩
    refine iff_of_true ⟨false, hout htested, iff_of_false (by decide) fun h => hwalk h.2⟩ (.inl ?_)
    intro hbehind
    apply htested
    unfold BehindMap at hbehind
    unfold Tested
    unfold Map.width Map.height at *
    omega

def onGeneratedMap (p : Player) : GameWorld :=
  ⟨AList.singleton 10000 p, [], generateMap fun _ => 0⟩

def moveBy (x y : Int16) : PlayerAction := ⟨EPlayerActionType.move.code, 10000, moveInfo x y⟩

theorem lookup_onGeneratedMap (p : Player) :
    (onGeneratedMap p).playersList.lookup 10000 = some p := rfl

theorem checkPlayerAction_decides_inside :
    let p : Player := { Player.default with hp := 45, coords := ⟨5, 5, 0⟩ }
    (∃ answer, checkPlayerAction (onGeneratedMap p) (moveBy 1 0) = .ok answer ∧
        (answer = true ↔ 0 < p.hp ∧ (onGeneratedMap p).gameWorldMap.Walkable 6 5)) ↔
      p.hp ≤ 0 ∨ ¬ BehindMap 6 5 ∨
        ((6 : Int) = Map.width ∧ (5 : Int) < Map.height - 1 ∧
          (onGeneratedMap p).gameWorldMap.HillAfterRow 5) :=
  checkPlayerAction_decides_iff (lookup_onGeneratedMap _) rfl (by decide) rfl rfl

/-- Two steps down from the last row but one. -/
theorem checkPlayerAction_pastEnd :
    let p : Player := { Player.default with hp := 45, coords := ⟨5, 38, 0⟩ }
    ¬ ∃ answer, checkPlayerAction (onGeneratedMap p) (moveBy 0 2) = .ok answer ∧
      (answer = true ↔ 0 < p.hp ∧ (onGeneratedMap p).gameWorldMap.Walkable 5 40) := by
  intro p
  have hmove : EPlayerActionType.ofCode (moveBy 0 2).actionType = some .move := rfl
  have hread := (checkPlayerAction_eq (x := 5) (y := 40) (lookup_onGeneratedMap p) hmove
    (by decide) (by decide) rfl rfl).2 (by unfold Tested; decide)
  rw [hread, Vector.getElem?_eq_none (by decide)]
  rintro ⟨answer, hanswer, -⟩
  exact nomatch hanswer

theorem generateTile_eq_hill_iff (rand : Nat → Nat) (i : Nat) :
    generateTile rand i = ETileType.hill.code ↔
      i % 40 = 0 ∨ i % 40 = 39 ∨ i / 40 = 0 ∨ i / 40 = 39 := by
  have hborder : (i % Map.width = 0 ∨ i % Map.width = Map.width - 1 ∨ i / Map.width = 0 ∨
      i / Map.width = Map.height - 1) ↔ i % 40 = 0 ∨ i % 40 = 39 ∨ i / 40 = 0 ∨ i / 40 = 39 :=
    Iff.rfl
  unfold generateTile
  rw [← hborder]
  by_cases hmem : i % Map.width = 0 ∨ i % Map.width = Map.width - 1 ∨ i / Map.width = 0 ∨
      i / Map.width = Map.height - 1
  · exact iff_of_true (if_pos hmem) hmem
  · rw [if_neg hmem]
    refine iff_of_false ?_ hmem
    have hlt : rand i % ETileType.hill.code.toNat < 4 := Nat.mod_lt _ (by decide)
    generalize rand i % ETileType.hill.code.toNat = r at hlt
    interval_cases r <;> decide

theorem generateMap_walkable_iff (rand : Nat → Nat) (x y : Int) :
    (generateMap rand).Walkable x y ↔ 1 ≤ x ∧ x ≤ 38 ∧ 1 ≤ y ∧ y ≤ 38 := by
  unfold Map.Walkable Map.width Map.height
  by_cases hin : 0 ≤ x ∧ x < 40 ∧ 0 ≤ y ∧ y < 40
  · have hlt : (x + y * (40 : Nat)).toNat < 40 * 40 := by omega
    have htile : (generateMap rand).mapTiles[(x + y * (40 : Nat)).toNat]? =
        some (generateTile rand (x + y * (40 : Nat)).toNat) := by
      generalize (x + y * (40 : Nat)).toNat = i at hlt
      have hrange : (List.range 1600)[i]? = some i := List.getElem?_range hlt
      simp [generateMap, hrange]
    rw [htile, ne_eq, Option.some_inj, generateTile_eq_hill_iff]
    omega
  · refine iff_of_false (fun h => hin ⟨h.1, h.2.1, h.2.2.1, h.2.2.2.1⟩) ?_
    omega

theorem spawnCoord_toInt (r : Nat) : (spawnCoord r).toInt = (r % 40 : Nat) - 1 := by
  have hlt : r % 40 < 40 := Nat.mod_lt r (by decide)
  unfold spawnCoord Map.width
  generalize r % 40 = n at hlt
  interval_cases n <;> rfl

/-- No unit stands there. -/
def GameWorld.Free (w : GameWorld) (v : CoordVec) : Prop :=
  (∀ e ∈ w.enemyList, e.coords ≠ v) ∧ ∀ e ∈ w.playersList.entries, e.2.coords ≠ v

instance (w : GameWorld) (v : CoordVec) : Decidable (w.Free v) :=
  inferInstanceAs (Decidable (_ ∧ _))

/-- The new player stands on a tile of its own, inside the map and on no hill. -/
def GameWorld.PlacesWell (w : GameWorld) (p : Player) : Prop :=
  w.gameWorldMap.Walkable p.coords.x.toInt p.coords.y.toInt ∧ w.Free p.coords

/-- On a generated map the place of a new player is good if and only if the first two values of
`rand` name a tile inside the border, and that tile is free. -/
theorem clientOnRegister_places_iff (mapRand rand : Nat → Nat) (players : PlayersList)
    (enemies : List Enemy) (id : UInt32) (playerInfo : Player) :
    ∃ p, clientOnRegister rand id playerInfo = .ok p ∧
      (GameWorld.PlacesWell ⟨players, enemies, generateMap mapRand⟩ p ↔
        2 ≤ rand 0 % 40 ∧ 2 ≤ rand 1 % 40 ∧
          GameWorld.Free ⟨players, enemies, generateMap mapRand⟩
            ⟨Int16.ofInt ((rand 0 % 40 : Nat) - 1), Int16.ofInt ((rand 1 % 40 : Nat) - 1), 0⟩) := by
  refine ⟨_, rfl, ?_⟩
  have hcoord : ∀ r : Nat, spawnCoord r = Int16.ofInt ((r % 40 : Nat) - 1) := by
    intro r
    rw [← spawnCoord_toInt, Int16.ofInt_toInt]
  unfold GameWorld.PlacesWell
  simp only [generateMap_walkable_iff, spawnCoord_toInt, ← hcoord]
  have hx : rand 0 % 40 < 40 := Nat.mod_lt _ (by decide)
  have hy : rand 1 % 40 < 40 := Nat.mod_lt _ (by decide)
  constructor
  · rintro ⟨⟨h1, -, h2, -⟩, hfree⟩
    exact ⟨by omega, by omega, hfree⟩
  · rintro ⟨h1, h2, hfree⟩
    exact ⟨⟨by omega, by omega, by omega, by omega⟩, hfree⟩

/-- `rand` returns 0: the player is put outside the map. -/
theorem clientOnRegister_offMap : ∃ p, clientOnRegister (fun _ => 0) 10000 Player.default = .ok p ∧
    ¬ GameWorld.PlacesWell ⟨∅, [], generateMap fun _ => 0⟩ p := by
  refine ⟨_, rfl, fun h => ?_⟩
  exact absurd h.1.1 (by decide)

end AsciiTerra
