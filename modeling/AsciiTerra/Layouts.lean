import AsciiTerra.Lib.Codec
import AsciiTerra.World

/-!
# Memory layouts of the records

`operator<<` and `operator>>` copy records byte by byte. Fields lie at multiples of
their alignment on the x64 target; padding is written as zeros and never read.
-/

set_option autoImplicit false

namespace AsciiTerra.Layout

def bool : Codec Bool :=
  Codec.u8.map (fun b => b != 0) (fun b => if b then 1 else 0) (by decide)

def int16 : Codec Int16 :=
  Codec.u16.map UInt16.toInt16 Int16.toUInt16 Int16.toInt16_toUInt16

def int32 : Codec Int32 :=
  Codec.u32.map UInt32.toInt32 Int32.toUInt32 Int32.toInt32_toUInt32

def coordVec : Codec CoordVec :=
  (int16.pair (int16.pair int16)).map (fun v => ⟨v.1, v.2.1, v.2.2⟩) (fun v => (v.x, v.y, v.z))
    (fun _ => rfl)

/-- `FixedString<75>`, and `char[75]`. -/
def name : Codec (Vector UInt8 75) := Codec.u8.vector 75

def item : Codec Item :=
  (name.pair <| (Codec.pad 1).pair <| Codec.u32.pair <| Codec.u8.pair <| Codec.u8.pair
      (Codec.pad 2)).map
    (fun v => ⟨v.1, v.2.2.1, v.2.2.2.1, v.2.2.2.2.1⟩)
    (fun i => (i.itemName, (), i.type, i.usage, i.power, ()))
    (fun _ => rfl)

def itemSlot : Codec ItemSlot :=
  (bool.pair <| (Codec.pad 3).pair <| item.pair <| Codec.u8.pair <| (Codec.pad 3).pair
      Codec.u32).map
    (fun v => ⟨v.1, v.2.2.1, v.2.2.2.1, v.2.2.2.2.2⟩)
    (fun s => (s.empty, (), s.item, s.mods, (), s.quantity))
    (fun _ => rfl)

def inventory : Codec Inventory :=
  (itemSlot.vector maxInventorySize).map Inventory.mk Inventory.storage (fun _ => rfl)

/-- `MaxTurns : 4` and `CurrentTurns : 4` in one byte. -/
def turns : Codec (Fin 16 × Fin 16) :=
  Codec.u8.map (fun b => (Fin.ofNat 16 b.toNat, Fin.ofNat 16 (b.toNat / 16)))
    (fun t => UInt8.ofNat (t.1 + 16 * t.2))
    (fun ⟨a, b⟩ => by revert a b; decide)

def player : Codec Player :=
  (name.pair <| (Codec.pad 1).pair <| Codec.u32.pair <| int32.pair <| Codec.u32.pair <|
      inventory.pair <| coordVec.pair <| turns.pair (Codec.pad 1)).map
    (fun v => ⟨v.1, v.2.2.1, v.2.2.2.1, v.2.2.2.2.1, v.2.2.2.2.2.1, v.2.2.2.2.2.2.1,
      v.2.2.2.2.2.2.2.1.1, v.2.2.2.2.2.2.2.1.2⟩)
    (fun p => (p.name, (), p.id, p.hp, p.equipedItemID, p.inventory, p.coords,
      (p.maxTurns, p.currentTurns), ()))
    (fun _ => rfl)

def enemy : Codec Enemy :=
  (Codec.u8.pair <| (Codec.pad 3).pair <| Codec.u32.pair <| int32.pair <| Codec.u32.pair <|
      Codec.u32.pair <| inventory.pair <| coordVec.pair (Codec.pad 2)).map
    (fun v => ⟨v.1, v.2.2.1, v.2.2.2.1, v.2.2.2.2.1, v.2.2.2.2.2.1, v.2.2.2.2.2.2.1,
      v.2.2.2.2.2.2.2.1⟩)
    (fun e => (e.type, (), e.faction, e.hp, e.maxActions, e.equipedItemID, e.inventory, e.coords,
      ()))
    (fun _ => rfl)

/-- The fields `PlayerAction` and `EnemyAction` share: a code, an ID, `ActionInfo`. -/
def action : Codec (UInt8 × UInt32 × Vector Int16 4) :=
  (Codec.u8.pair <| (Codec.pad 3).pair <| Codec.u32.pair (int16.vector 4)).map
    (fun v => (v.1, v.2.2.1, v.2.2.2)) (fun a => (a.1, (), a.2.1, a.2.2)) (fun _ => rfl)

def playerAction : Codec PlayerAction :=
  action.map (fun v => ⟨v.1, v.2.1, v.2.2⟩) (fun a => (a.actionType, a.playerID, a.actionInfo))
    (fun _ => rfl)

def enemyAction : Codec EnemyAction :=
  action.map (fun v => ⟨v.1, v.2.1, v.2.2⟩) (fun a => (a.actionType, a.enemyID, a.actionInfo))
    (fun _ => rfl)

def map : Codec Map :=
  (Codec.u8.vector (40 * 40)).map Map.mk Map.mapTiles (fun _ => rfl)

theorem sizes : player.size = 2016 ∧ enemy.size = 1948 ∧ playerAction.size = 16 ∧
    enemyAction.size = 16 ∧ map.size = 1600 := by
  decide

end AsciiTerra.Layout
